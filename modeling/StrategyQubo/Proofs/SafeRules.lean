import StrategyQubo.Proofs.SafeFunctions

namespace StrategyQubo.Script

/-! # Rules are safe

What a construct does, if it is spelled as allowed and stands in a scope that
there is, is safe on every sound machine.
-/

open Eval

variable {env : Environment} {r : Ration env.limits} {m : Machine} {scope : ScopeId}

/-! ## Operators -/

section

variable (sound : m.Sound r)

include sound

theorem addValues_gives {left right : Value} (first : left.Sound r m.scopes.size)
    (second : right.Sound r m.scopes.size) :
    (addValues left right).Gives r (Value.Sound r) m := by
  unfold addValues
  split
  · refine Gives.stringify sound left first fun _ _ => ?_
    refine Gives.stringify sound right second fun _ _ => ?_
    exact Gives.checkLength fun allowed => .pure sound allowed
  · exact Gives.heap (.pure sound trivial)

theorem BinaryOp.apply_gives (op : BinaryOp) {left right : Value}
    (first : left.Sound r m.scopes.size) (second : right.Sound r m.scopes.size) :
    (op.apply left right).Gives r (Value.Sound r) m := by
  cases op with
  | add => exact addValues_gives sound first second
  | strictEqual => exact .pure sound trivial
  | strictNotEqual => exact .pure sound trivial
  | inside =>
      refine (propertyKey_runs sound left).bind fun key after leads _ => Gives.heap ?_
      split
      · exact .pure leads.sound trivial
      · exact (display_runs leads.sound right).bind fun _ _ _ _ => typeError_gives _
  | _ => exact Gives.heap (.pure sound trivial)

theorem UnaryOp.apply_gives (op : UnaryOp) (value : Value) :
    (op.apply value).Gives r (Value.Sound r) m := by
  cases op with
  | negate => exact (toNumber_runs sound value).bind fun _ _ leads _ => .pure leads.sound trivial
  | plus => exact (toNumber_runs sound value).bind fun _ _ leads _ => .pure leads.sound trivial
  | not => exact .pure sound trivial
  | typeof => exact .pure sound (r.text_of_short value.utf8ByteSize_typeName_le)

end

/-! ## Places -/

/-- The key of a place is never held, so it may be anything. -/
def Place.Sound (r : Ration env.limits) (scopes : Nat) : Place → Prop
  | .name _ => True
  | .property owner _ => owner.Sound r scopes

theorem Place.Sound.mono {place : Place} {scopes more : Nat} (sound : place.Sound r scopes)
    (grown : scopes ≤ more) : place.Sound r more := by
  cases place with
  | name name => trivial
  | property owner key => exact Value.Sound.mono sound grown

section

variable (sound : m.Sound r) (made : scope < m.scopes.size)

include sound made

theorem readPlace_gives {place : Place} (given : place.Sound r m.scopes.size) :
    (readPlace place scope).Gives r (Value.Sound r) m := by
  cases place with
  | name name => exact operate_gives sound (.lookup scope name) fun _ => made
  | property owner key =>
      refine (propertyKey_runs sound key).bind fun text after leads _ => ?_
      exact getProperty_gives leads.sound (Value.Sound.mono given leads.grown) text

theorem writePlace_runs {place : Place} {value : Value} (given : place.Sound r m.scopes.size)
    (valueSound : value.Sound r m.scopes.size) : (writePlace place value scope).Runs r m := by
  cases place with
  | name name =>
      exact (operate_gives sound (.assign scope name value) fun _ => ⟨made, valueSound⟩).runs
  | property owner key =>
      refine (propertyKey_runs sound key).bind fun text after leads _ => ?_
      exact (operate_gives leads.sound (.setProperty owner text value) fun _ =>
        ⟨Value.Sound.mono given leads.grown, valueSound.mono leads.grown⟩).runs

theorem placeOf_gives {target : Expr} (spelled : target.Spelled r.spelling) :
    (placeOf target scope).Gives r (Place.Sound r) m := by
  cases spelled with
  | identifier spelled => exact .pure sound trivial
  | member property owner =>
      exact (evaluate_gives made owner).bind fun value after leads valueSound =>
        .pure leads.sound valueSound
  | index owner key =>
      refine (evaluate_gives made owner).bind fun value after leads valueSound => ?_
      refine (evaluate_gives (leads.stays made) key).bind ?_
      exact fun key last further _ => .pure further.sound (valueSound.mono further.grown)
  | _ => exact .pure sound trivial

/-! ## Expressions -/

theorem evaluateAll_gives {expressions : List Expr} {values : List Value}
    (spelled : ∀ expression ∈ expressions, expression.Spelled r.spelling)
    (given : ∀ value ∈ values, value.Sound r m.scopes.size) :
    (evaluateAll scope expressions values).Gives r (fun scopes all =>
      all.length = values.length + expressions.length ∧ ∀ value ∈ all, value.Sound r scopes) m := by
  induction expressions generalizing m values with
  | nil =>
      refine .pure sound ⟨by simp, fun value member => given value (List.mem_reverse.mp member)⟩
  | cons expression rest ih =>
      obtain ⟨first, later⟩ := List.forall_mem_cons.mp spelled
      refine (evaluate_gives made first).bind fun value after leads valueSound => ?_
      have all : ∀ other ∈ value :: values, other.Sound r after.scopes.size :=
        List.forall_mem_cons.mpr
          ⟨valueSound, leads.values given⟩
      refine (ih leads.sound (leads.stays made) later all).mono ?_
      rintro scopes all ⟨length, allSound⟩
      exact ⟨by simp only [List.length_cons] at length ⊢; omega, allSound⟩

theorem templateText_gives {parts : List TemplatePart} {text : String}
    (spelled : ∀ part ∈ parts, part.Spelled r.spelling) (textSound : r.Text text) :
    (templateText scope parts text).Gives r (fun _ => r.Text) m := by
  induction parts generalizing m text with
  | nil => exact .pure sound textSound
  | cons part rest ih =>
      obtain ⟨first, later⟩ := List.forall_mem_cons.mp spelled
      cases first with
      | text content => exact Gives.checkLength fun allowed => ih sound made later allowed
      | hole holeSpelled =>
          refine (evaluate_gives made holeSpelled).bind fun value after leads valueSound => ?_
          refine Gives.stringify leads.sound value valueSound fun piece _ => ?_
          exact Gives.checkLength fun allowed =>
            ih leads.sound (leads.stays made) later allowed

theorem keyOf_runs {key : PropertyKey} (spelled : key.Spelled r.spelling) :
    (keyOf scope key).Runs r m := by
  cases spelled with
  | fixed name => exact .pure sound trivial
  | computed spelled =>
      exact (evaluate_gives made spelled).bind fun value after leads _ =>
        propertyKey_runs leads.sound value

theorem propertiesOf_gives {properties : List Property} {record : Record}
    (spelled : ∀ property ∈ properties, property.Spelled r.spelling)
    (given : ∀ entry ∈ record, entry.2.Sound r m.scopes.size) :
    (propertiesOf scope properties record).Gives r
      (fun scopes record => ∀ entry ∈ record, entry.2.Sound r scopes) m := by
  induction properties generalizing m record with
  | nil => exact .pure sound given
  | cons property rest ih =>
      obtain ⟨first, later⟩ := List.forall_mem_cons.mp spelled
      obtain ⟨named, valued⟩ := first
      refine (keyOf_runs sound made named).bind fun key after leads _ => ?_
      have made' := leads.stays made
      refine (evaluate_gives made' valued).bind fun value last further valueSound => ?_
      refine ih further.sound (further.stays made') later fun entry member => ?_
      rcases Record.mem_set member with old | rfl
      · exact (given entry old).mono (Nat.le_trans leads.grown further.grown)
      · exact valueSound

theorem typeOfExpression_gives {operand : Expr} (spelled : operand.Spelled r.spelling) :
    (typeOfExpression operand scope).Gives r (Value.Sound r) m := by
  have typed (unbound : Bool) {after : Machine} (leads : m.Leads r after) :
      Eval.Gives r (Value.Sound r) (if unbound then pure (.string "undefined") else do
        pure (.string (← evaluate operand scope).typeName)) after := by
    split
    · exact .pure leads.sound (r.text_of_short (by decide))
    · exact (evaluate_gives (leads.stays made) spelled).bind
        fun value _ further _ =>
          .pure further.sound (r.text_of_short value.utf8ByteSize_typeName_le)
  unfold typeOfExpression
  split
  · exact (operate_gives sound (.resolves scope _) fun _ => made).bind
      fun found after leads _ => typed (!found) leads
  · exact typed false (.refl sound)

theorem updateExpression_gives (increment before : Bool) {target : Expr}
    (spelled : target.Spelled r.spelling) :
    (updateExpression increment before target scope).Gives r (Value.Sound r) m := by
  refine (placeOf_gives sound made spelled).bind fun place m₁ leads₁ placeSound => ?_
  have made₁ := leads₁.stays made
  refine (readPlace_gives leads₁.sound made₁ placeSound).bind fun value m₂ leads₂ _ => ?_
  have made₂ := leads₂.stays made₁
  refine (toNumber_runs leads₂.sound value).bind fun old m₃ leads₃ _ => ?_
  refine (writePlace_runs leads₃.sound (leads₃.stays made₂)
    (placeSound.mono (Nat.le_trans leads₂.grown leads₃.grown)) ?_).bind ?_
  · trivial
  · exact fun _ _ leads _ => .pure leads.sound trivial

theorem assignExpression_gives (op : Option BinaryOp) {target source : Expr}
    (place : target.Spelled r.spelling) (spelled : source.Spelled r.spelling) :
    (assignExpression op target source scope).Gives r (Value.Sound r) m := by
  refine (placeOf_gives sound made place).bind fun place m₁ leads₁ placeSound => ?_
  have made₁ := leads₁.stays made
  have written {value : Value} {after : Machine} (leads : m₁.Leads r after)
      (valueSound : value.Sound r after.scopes.size) :
      Eval.Gives r (Value.Sound r) (do
        writePlace place value scope
        pure value) after := by
    refine (writePlace_runs leads.sound (leads.stays made₁)
      (placeSound.mono leads.grown) valueSound).bind ?_
    exact fun _ _ further _ => .pure further.sound (valueSound.mono further.grown)
  cases op with
  | none =>
      exact (evaluate_gives made₁ spelled).bind fun value after leads valueSound =>
        written leads valueSound
  | some op =>
      refine (readPlace_gives leads₁.sound made₁ placeSound).bind
        fun current m₂ leads₂ currentSound => ?_
      refine (evaluate_gives (leads₂.stays made₁) spelled).bind
        fun operand m₃ leads₃ operandSound => ?_
      refine (BinaryOp.apply_gives leads₃.sound op (currentSound.mono leads₃.grown)
        operandSound).bind fun value m₄ leads₄ valueSound => ?_
      exact written (leads₂.trans (leads₃.trans leads₄)) valueSound

omit sound in
theorem callExpression_gives {callee : Expr} {arguments : List Expr}
    (function : callee.Spelled r.spelling)
    (spelled : ∀ argument ∈ arguments, argument.Spelled r.spelling) :
    (callExpression callee arguments scope).Gives r (Value.Sound r) m := by
  refine (evaluate_gives made function).bind fun function after leads callable => ?_
  split
  · refine (evaluateAll_gives leads.sound (leads.stays made) spelled
      (by simp)).bind fun values last further valuesSound => ?_
    exact call_gives values (callable.mono further.grown) valuesSound.2
  · exact typeError_gives _

omit sound in
theorem constructExpression_gives {callee : Expr} {arguments : List Expr}
    (function : callee.Spelled r.spelling)
    (spelled : ∀ argument ∈ arguments, argument.Spelled r.spelling) :
    (constructExpression callee arguments scope).Gives r (Value.Sound r) m := by
  refine (evaluate_gives made function).bind fun function after leads callable => ?_
  refine (evaluateAll_gives leads.sound (leads.stays made) spelled
    (by simp)).bind fun values last further valuesSound => ?_
  split
  · refine (call_gives values (callable.mono further.grown) valuesSound.2).bind
      fun value final onward _ => ?_
    split
    · exact .pure onward.sound trivial
    · exact .pure onward.sound trivial
    · exact operate_gives onward.sound (.newObject []) fun _ => by simp [Operation.Sound]
  · exact typeError_gives _

theorem expressionRule_gives {expression : Expr} (spelled : expression.Spelled r.spelling) :
    (expressionRule expression scope).Gives r (Value.Sound r) m := by
  cases spelled with
  | string spelled => exact .pure sound spelled
  | template spelled =>
      exact (templateText_gives sound made spelled (r.text_of_short (by decide))).bind
        fun text after leads textSound => .pure leads.sound textSound
  | @identifier _ name spelled => exact operate_gives sound (.lookup scope name) fun _ => made
  | @array _ elements spelled =>
      refine Gives.checkLength fun allowed => ?_
      refine (evaluateAll_gives sound made spelled (by simp)).bind fun values after leads all => ?_
      refine operate_gives leads.sound (.newArray values.toArray) fun _ =>
        itemsSound_toArray all.2 ?_
      rw [all.1, List.length_nil, Nat.zero_add]
      exact allowed
  | object spelled =>
      exact (propertiesOf_gives sound made spelled (by simp)).bind fun record after leads given =>
        operate_gives leads.sound (.newObject record) fun _ => given
  | function spelled => exact operate_gives sound (.newClosure _ scope) fun _ => ⟨made, spelled⟩
  | unary op spelled =>
      have applied : ∀ op : UnaryOp, Eval.Gives r (Value.Sound r) (do
          op.apply (← evaluate _ scope)) m := fun op =>
        (evaluate_gives made spelled).bind fun value after leads _ =>
          UnaryOp.apply_gives leads.sound op value
      cases op with
      | typeof => exact typeOfExpression_gives sound made spelled
      | _ => exact applied _
  | update increment before spelled =>
      exact updateExpression_gives sound made increment before spelled
  | binary op first second =>
      refine (evaluate_gives made first).bind fun left after leads leftSound => ?_
      refine (evaluate_gives (leads.stays made) second).bind
        fun right last further rightSound => ?_
      exact BinaryOp.apply_gives further.sound op (leftSound.mono further.grown) rightSound
  | logical op first second =>
      refine (evaluate_gives made first).bind fun left after leads leftSound => ?_
      split
      · exact .pure leads.sound leftSound
      · exact evaluate_gives (leads.stays made) second
  | conditional decides first second =>
      refine (evaluate_gives made decides).bind fun condition after leads _ => ?_
      have made' := leads.stays made
      split
      · exact evaluate_gives made' first
      · exact evaluate_gives made' second
  | assign op place spelled => exact assignExpression_gives sound made op place spelled
  | member property owner =>
      exact (evaluate_gives made owner).bind fun value after leads valueSound =>
        getProperty_gives leads.sound valueSound property
  | index owner key =>
      refine (evaluate_gives made owner).bind fun value after leads valueSound => ?_
      refine (evaluate_gives (leads.stays made) key).bind
        fun key last further _ => ?_
      refine (propertyKey_runs further.sound key).bind fun text final onward _ => ?_
      exact getProperty_gives onward.sound
        (valueSound.mono (Nat.le_trans further.grown onward.grown)) text
  | call function spelled => exact callExpression_gives made function spelled
  | construct function spelled => exact constructExpression_gives made function spelled
  | _ => exact .pure sound trivial

/-! ## Statements -/

theorem runAll_gives {statements : List Stmt}
    (spelled : ∀ statement ∈ statements, statement.Spelled r.spelling) :
    (runAll scope statements).Gives r (Flow.Sound r) m := by
  induction statements generalizing m with
  | nil => exact .pure sound trivial
  | cons statement rest ih =>
      obtain ⟨first, later⟩ := List.forall_mem_cons.mp spelled
      refine (execute_gives made first).bind fun flow after leads flowSound => ?_
      split
      · exact ih leads.sound (leads.stays made) later
      · exact .pure leads.sound flowSound

theorem runBlock_gives {statements : List Stmt}
    (spelled : ∀ statement ∈ statements, statement.Spelled r.spelling) :
    (runBlock statements scope).Gives r (Flow.Sound r) m := by
  unfold runBlock
  split
  · refine (operate_gives sound (.newScope scope false) fun _ => made).bind
      fun inner after leads made' => ?_
    refine (hoistFunctions_runs leads.sound made' spelled).bind fun _ last further _ => ?_
    exact runAll_gives further.sound (further.stays made') spelled
  · exact runAll_gives sound made spelled

theorem runDeclarators_runs (kind : Declaration) {declarators : List Declarator}
    (spelled : ∀ declarator ∈ declarators, declarator.Spelled r.spelling) :
    (runDeclarators kind scope declarators).Runs r m := by
  induction declarators generalizing m with
  | nil => exact .pure sound trivial
  | cons declarator rest ih =>
      obtain ⟨⟨name, initialSpelled⟩, later⟩ := List.forall_mem_cons.mp spelled
      rename_i initial
      have others {after : Machine} (leads : m.Leads r after) :
          (runDeclarators kind scope rest).Runs r after :=
        ih leads.sound (leads.stays made) later
      unfold runDeclarators
      extract_lets goOn bindTo
      have bound (value : Value) {after : Machine} (leads : m.Leads r after)
          (valueSound : value.Sound r after.scopes.size) : (bindTo value).Runs r after := by
        have made' := leads.stays made
        have declared (isMutable : Bool) :=
          operate_gives leads.sound (.declare scope name value isMutable)
            fun _ => ⟨made', valueSound⟩
        cases kind with
        | var =>
            dsimp only [bindTo]
            split
            · exact (operate_gives leads.sound (.assign scope name value)
                fun _ => ⟨made', valueSound⟩).bind fun _ _ further _ => others (leads.trans further)
            · exact others leads
        | lexical => exact (declared true).bind fun _ _ further _ => others (leads.trans further)
        | constant => exact (declared false).bind fun _ _ further _ => others (leads.trans further)
      cases initial with
      | none => exact bound .undefined (.refl sound) trivial
      | some expression =>
          exact (evaluate_gives made (initialSpelled expression rfl)).bind
            fun value after leads valueSound => bound value leads valueSound

/-! ### Loops -/

omit sound made in
/-- What a loop does after its body keeps what the body returned. -/
theorem Flow.Sound.afterBody? {scopes : Nat} {flow ended : Flow} (flowSound : flow.Sound r scopes)
    (ends : flow.afterBody? = some ended) : ended.Sound r scopes := by
  cases flow <;> cases ends
  · exact flowSound
  · trivial

omit sound in
theorem whileTurn_gives {condition : Expr} {body : Stmt} (decides : condition.Spelled r.spelling)
    (spelled : body.Spelled r.spelling) :
    (whileTurn condition body scope).Gives r (Turn.Holds (fun _ _ => True) (Flow.Sound r)) m := by
  refine (evaluate_gives made decides).bind fun value after leads _ => ?_
  split
  · refine (execute_gives (leads.stays made) spelled).bind
      fun flow last further flowSound => ?_
    split
    · next ends => exact .pure further.sound (flowSound.afterBody? ends)
    · exact .pure further.sound trivial
  · exact .pure leads.sound trivial

omit sound in
theorem doWhileTurn_gives {condition : Expr} {body : Stmt}
    (decides : condition.Spelled r.spelling) (spelled : body.Spelled r.spelling) :
    (doWhileTurn body condition scope).Gives r
      (Turn.Holds (fun _ _ => True) (Flow.Sound r)) m := by
  refine (execute_gives made spelled).bind fun flow after leads flowSound => ?_
  split
  · next ends => exact .pure leads.sound (flowSound.afterBody? ends)
  · refine (evaluate_gives (leads.stays made) decides).bind
      fun value last further _ => ?_
    split
    · exact .pure further.sound trivial
    · exact .pure further.sound trivial

theorem forCondition_runs {condition : Option Expr}
    (decides : ∀ value ∈ condition, value.Spelled r.spelling) :
    (forCondition scope condition).Runs r m := by
  cases condition with
  | none =>
      exact (operate_gives sound .tick fun _ => trivial).bind
        fun _ _ leads _ => .pure leads.sound trivial
  | some condition =>
      exact (evaluate_gives made (decides condition rfl)).bind
        fun _ _ leads _ => .pure leads.sound trivial

/-- The scope of a loop stays a scope that there is. -/
theorem forTurn_gives {condition update : Option Expr} {body : Stmt}
    (decides : ∀ value ∈ condition, value.Spelled r.spelling)
    (updates : ∀ value ∈ update, value.Spelled r.spelling) (spelled : body.Spelled r.spelling) :
    (forTurn condition update body scope).Gives r
      (Turn.Holds (fun scopes scope => scope < scopes) (Flow.Sound r)) m := by
  refine (forCondition_runs sound made decides).bind fun goes after leads _ => ?_
  split
  · have made' := leads.stays made
    refine (execute_gives made' spelled).bind fun flow last further flowSound => ?_
    have made'' := further.stays made'
    split
    · next ends => exact .pure further.sound (flowSound.afterBody? ends)
    · cases update with
      | none => exact .pure further.sound made''
      | some expression =>
          exact (evaluate_gives made'' (updates expression rfl)).bind fun _ _ onward _ =>
            .pure onward.sound (onward.stays made'')
  · exact .pure leads.sound trivial

theorem forStart_gives {initial : Option Stmt}
    (spelled : ∀ statement ∈ initial, statement.Spelled r.spelling) :
    (forStart initial scope).Gives r (fun scopes inner => inner < scopes) m := by
  unfold forStart
  extract_lets start
  have started {inner : ScopeId} {after : Machine} (leads : m.Leads r after)
      (made' : inner < after.scopes.size) :
      (start inner).Gives r (fun scopes inner => inner < scopes) after := by
    cases initial with
    | none => exact .pure leads.sound made'
    | some statement =>
        exact (execute_gives made' (spelled statement rfl)).bind fun _ _ further _ =>
          .pure further.sound (further.stays made')
  have opened := operate_gives sound (.newScope scope false) fun _ => made
  split
  · exact opened.bind fun inner after leads made' => started leads made'
  · exact opened.bind fun inner after leads made' => started leads made'
  · exact started (.refl sound) made

theorem walkBody_gives (kind : Option Declaration) (name : String) (item : Value) {body : Stmt}
    (itemSound : item.Sound r m.scopes.size) (spelled : body.Spelled r.spelling) :
    (walkBody kind name item body scope).Gives r (Flow.Sound r) m := by
  have inside (isMutable : Bool) : Eval.Gives r (Flow.Sound r) (do
      let inner ← newScope scope false
      Eval.declare inner name item isMutable
      execute body inner) m := by
    refine (operate_gives sound (.newScope scope false) fun _ => made).bind
      fun inner after leads made' => ?_
    refine (operate_gives leads.sound (.declare inner name item isMutable) fun _ =>
      ⟨made', itemSound.mono leads.grown⟩).bind fun _ last further _ => ?_
    exact execute_gives (further.stays made') spelled
  unfold walkBody
  split
  · exact inside true
  · exact inside false
  · refine (operate_gives sound (.assign scope name item) fun _ => ⟨made, itemSound⟩).bind
      fun _ after leads _ => ?_
    exact execute_gives (leads.stays made) spelled

omit made in
theorem itemAt_gives (collection : Value) (index : Nat) :
    (itemAt collection index).Gives r
      (fun scopes item? => ∀ item ∈ item?, item.Sound r scopes) m := by
  cases collection with
  | array ref => exact Gives.heap (.pure sound fun item found => sound.heap.item found)
  | string text =>
      refine .pure sound fun item found => ?_
      obtain ⟨c, -, rfl⟩ := Option.map_eq_some_iff.mp found
      exact r.text_of_short (Nat.le_trans (utf8ByteSize_char_le c) (by decide))
  | _ => exact (display_runs sound _).bind fun _ _ _ _ => typeError_gives _

/-- Nothing is asked of the collection that a loop walks over. -/
theorem forOfTurn_gives (kind : Option Declaration) (name : String) {body : Stmt}
    (spelled : body.Spelled r.spelling) (state : Value × Nat) :
    (forOfTurn kind name body scope state).Gives r
      (Turn.Holds (fun _ _ => True) (Flow.Sound r)) m := by
  refine (itemAt_gives sound state.1 state.2).bind fun item? after leads itemSound => ?_
  cases item? with
  | none => exact .pure leads.sound trivial
  | some item =>
      refine (walkBody_gives leads.sound (leads.stays made) kind name
        item (itemSound item rfl) spelled).bind fun flow last further flowSound => ?_
      split
      · next ends => exact .pure further.sound (flowSound.afterBody? ends)
      · exact .pure further.sound trivial

theorem forInTurns_gives (kind : Option Declaration) (name : String) {body : Stmt}
    (spelled : body.Spelled r.spelling) {keys : List String}
    (keysSound : ∀ key ∈ keys, r.Text key) :
    (forInTurns kind name body scope keys).Gives r (Flow.Sound r) m := by
  induction keys generalizing m with
  | nil => exact .pure sound trivial
  | cons key rest ih =>
      obtain ⟨first, later⟩ := List.forall_mem_cons.mp keysSound
      refine (walkBody_gives sound made kind name (.string key) first spelled).bind
        fun flow after leads flowSound => ?_
      split
      · next ends => exact .pure leads.sound (flowSound.afterBody? ends)
      · exact ih leads.sound (leads.stays made) later

omit sound in
theorem runForIn_gives (kind : Option Declaration) (name : String) {object : Expr} {body : Stmt}
    (walks : object.Spelled r.spelling) (spelled : body.Spelled r.spelling) :
    (runForIn kind name object body scope).Gives r (Flow.Sound r) m := by
  refine (evaluate_gives made walks).bind fun owner after leads ownerSound => Gives.heap ?_
  exact forInTurns_gives leads.sound (leads.stays made) kind name spelled
    (leads.sound.heap.ownKeys ownerSound).2

/-! ### Other statements -/

theorem runHandler_gives (binding : Option String) {handler : List Stmt} {caught : Value}
    (spelled : ∀ statement ∈ handler, statement.Spelled r.spelling)
    (caughtSound : caught.Sound r m.scopes.size) :
    (runHandler binding handler scope caught).Gives r (Flow.Sound r) m := by
  refine (operate_gives sound (.newScope scope false) fun _ => made).bind
    fun inner after leads made' => ?_
  split
  · refine (operate_gives leads.sound (.declare inner _ caught true) fun _ =>
      ⟨made', caughtSound.mono leads.grown⟩).bind fun _ last further _ => ?_
    exact runBlock_gives further.sound (further.stays made') spelled
  · exact runBlock_gives leads.sound made' spelled

theorem runFinalizer_gives {finalizer : List Stmt}
    (spelled : ∀ statement ∈ finalizer, statement.Spelled r.spelling) :
    (runFinalizer finalizer scope).Gives r
      (fun scopes flow? => ∀ flow ∈ flow?, flow.Sound r scopes) m := by
  refine (runBlock_gives sound made spelled).bind fun flow after leads flowSound => ?_
  split
  · exact .pure leads.sound nofun
  · exact .pure leads.sound fun other same => by cases same; exact flowSound

theorem runReturn_gives {value : Option Expr}
    (spelled : ∀ expression ∈ value, expression.Spelled r.spelling) :
    (runReturn value scope).Gives r (Flow.Sound r) m := by
  cases value with
  | none => exact .pure sound trivial
  | some expression =>
      exact (evaluate_gives made (spelled expression rfl)).bind
        fun value after leads valueSound => .pure leads.sound valueSound

omit sound in
theorem runIfElse_gives {condition : Expr} {consequent : Stmt} {alternative : Option Stmt}
    (decides : condition.Spelled r.spelling) (first : consequent.Spelled r.spelling)
    (second : ∀ other ∈ alternative, other.Spelled r.spelling) :
    (runIfElse condition consequent alternative scope).Gives r (Flow.Sound r) m := by
  refine (evaluate_gives made decides).bind fun value after leads _ => ?_
  have made' := leads.stays made
  split
  · exact execute_gives made' first
  · cases alternative with
    | none => exact .pure leads.sound trivial
    | some other => exact execute_gives made' (second other rfl)

theorem statementRule_gives {statement : Stmt} (spelled : statement.Spelled r.spelling) :
    (statementRule statement scope).Gives r (Flow.Sound r) m := by
  cases spelled with
  | declaration kind spelled =>
      exact (runDeclarators_runs sound made kind spelled).bind
        fun _ _ leads _ => .pure leads.sound trivial
  | expression spelled =>
      exact (evaluate_gives made spelled).bind fun _ _ leads _ => .pure leads.sound trivial
  | returnWith spelled => exact runReturn_gives sound made spelled
  | ifElse decides first second => exact runIfElse_gives made decides first second
  | whileLoop decides spelled =>
      refine ⟨fun _ _ => True, .pure sound trivial, fun _ after leads _ => ?_⟩
      exact whileTurn_gives (leads.stays made) decides spelled
  | doWhile spelled decides =>
      refine ⟨fun _ _ => True, .pure sound trivial, fun _ after leads _ => ?_⟩
      exact doWhileTurn_gives (leads.stays made) decides spelled
  | forLoop starts decides updates spelled =>
      refine ⟨_, forStart_gives sound made starts, fun inner after leads made' => ?_⟩
      exact forTurn_gives leads.sound made' decides updates spelled
  | @forOf _ kind name _ _ _ walks spelled =>
      have walked : Eval.Runs r (do return (← evaluate _ scope, 0)) m :=
        (evaluate_gives made walks).bind fun _ _ leads _ => .pure leads.sound trivial
      refine ⟨fun _ _ => True, walked, fun state after leads _ => ?_⟩
      have remade := leads.stays made
      exact forOfTurn_gives leads.sound remade kind name spelled state
  | @forIn _ kind name _ _ _ walks spelled => exact runForIn_gives made kind name walks spelled
  | block spelled => exact runBlock_gives sound made spelled
  | throwValue spelled => exact evaluate_gives made spelled
  | tryBlock binding tries handles ends =>
      refine ⟨runBlock_gives sound made tries, fun clause member given after leads givenSound => ?_,
        fun last member after leads => ?_⟩
      · obtain ⟨handler, found, rfl⟩ := Option.map_eq_some_iff.mp member
        exact runHandler_gives leads.sound (leads.stays made) binding
          (handles handler found) givenSound
      · obtain ⟨finalizer, found, rfl⟩ := Option.map_eq_some_iff.mp member
        exact runFinalizer_gives leads.sound (leads.stays made)
          (ends finalizer found)
  | _ => exact .pure sound trivial

/-! ## Calls -/

theorem bindParameters_runs {parameters : List String} {values : List Value}
    (given : ∀ value ∈ values, value.Sound r m.scopes.size) :
    (bindParameters scope parameters values).Runs r m := by
  induction parameters generalizing m values with
  | nil => exact .pure sound trivial
  | cons name rest ih =>
      have bound (value : Value) (valueSound : value.Sound r m.scopes.size) {others : List Value}
          (othersSound : ∀ other ∈ others, other.Sound r m.scopes.size) :
          Eval.Runs r (do
            Eval.declare scope name value true
            bindParameters scope rest others) m := by
        refine (operate_gives sound (.declare scope name value true) fun _ =>
          ⟨made, valueSound⟩).bind fun _ after leads _ => ?_
        exact ih leads.sound (leads.stays made) (leads.values othersSound)
      cases values with
      | nil => exact bound .undefined trivial given
      | cons value values =>
          obtain ⟨first, later⟩ := List.forall_mem_cons.mp given
          exact bound value first later

theorem runBody_gives {statements : List Stmt}
    (spelled : ∀ statement ∈ statements, statement.Spelled r.spelling) :
    (runBody scope statements).Gives r (Value.Sound r) m := by
  induction statements generalizing m with
  | nil => exact .pure sound trivial
  | cons statement rest ih =>
      obtain ⟨first, later⟩ := List.forall_mem_cons.mp spelled
      refine (execute_gives made first).bind fun flow after leads flowSound => ?_
      split
      · exact .pure leads.sound flowSound
      · exact ih leads.sound (leads.stays made) later

omit made in
theorem invoke_gives {closure : Closure} {arguments : List Value}
    (callable : (Value.closure closure).Sound r m.scopes.size)
    (given : ∀ value ∈ arguments, value.Sound r m.scopes.size) :
    (invoke closure arguments).Gives r (Value.Sound r) m := by
  refine (operate_gives sound (.newScope closure.scope true) fun _ => callable.1).bind
    fun scope after leads made => ?_
  refine (bindParameters_runs leads.sound made (leads.values given)).bind
    fun _ last further _ => ?_
  have made' := further.stays made
  have body := callable.2.body
  cases written : closure.definition.body with
  | expression expression =>
      rw [written] at body
      cases body with
      | expression spelled => exact evaluate_gives made' spelled
  | block statements =>
      rw [written] at body
      cases body with
      | block spelled =>
          refine (hoist_runs further.sound made' spelled).bind fun _ final onward _ => ?_
          exact runBody_gives onward.sound (onward.stays made') spelled

omit made in
theorem callRule_gives {function : Value} {arguments : List Value} {under : List Task}
    (callable : function.Sound r m.scopes.size)
    (given : ∀ value ∈ arguments, value.Sound r m.scopes.size)
    (spared : (Event.entered (.call function arguments) under).Spares r) :
    (callRule function arguments).Gives r (Value.Sound r) m := by
  cases function with
  | closure closure => exact invoke_gives sound callable given
  | builtin builtin => exact Builtin.apply_gives sound builtin given
  | bound identity method => exact Bound.rule_gives sound callable given spared
  | _ => exact (display_runs sound _).bind fun _ _ _ _ => typeError_gives _

end

/-! ## Tasks -/

theorem Task.rule_gives (sound : m.Sound r) {task : Task} (given : task.Sound r m.scopes.size)
    {under : List Task} (spared : (Event.entered task under).Spares r) :
    task.rule.Gives r (task.Returns r) m := by
  cases task with
  | statement form scope => exact statementRule_gives sound given.1 given.2
  | expression form scope => exact expressionRule_gives sound given.1 given.2
  | call function arguments => exact callRule_gives sound given.1 given.2 spared

theorem Machine.Arena.global_lt (arena : m.Arena) : globalScope < m.scopes.size := by
  obtain ⟨s, found, -⟩ := arena.root
  exact (Array.getElem?_eq_some_iff.mp found).1

theorem programRule_runs (sound : m.Sound r) {statements : List Stmt}
    (spelled : ∀ statement ∈ statements, statement.Spelled r.spelling) :
    (programRule statements).Runs r m := by
  have made := sound.arena.global_lt
  refine (hoist_runs sound made spelled).bind fun _ after leads _ => ?_
  refine (runAll_gives leads.sound (leads.stays made) spelled).bind ?_
  exact fun _ _ further _ => .pure further.sound trivial

end StrategyQubo.Script
