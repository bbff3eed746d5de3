import StrategyQubo.Proofs.Granting

namespace StrategyQubo.Script

/-! # What rules ask for

Two facts about the shape of all rules.  A function of the host evaluates no
statements or expressions, it only calls back; and a loop takes a step in each
turn from which it goes on.
-/

/-! ## Parts -/

/-- All that is asked for is allowed. -/
def Eval.Asks {α : Type} (allowed : Task → Prop) : Eval α → Prop
  | .done _ => True
  | .perform _ next => ∀ answer, (next answer).Asks allowed
  | .ask task next => allowed task ∧ ∀ answer, (next answer).Asks allowed

def Rule.Asks {α : Type} (allowed : Task → Prop) : Rule α → Prop
  | .once eval => eval.Asks allowed
  | .repeated first turn => first.Asks allowed ∧ ∀ state, (turn state).Asks allowed
  | .guarded body handler finalizer =>
      body.Asks allowed ∧ (∀ clause ∈ handler, ∀ value, (clause value).Asks allowed) ∧
        ∀ last ∈ finalizer, last.Asks allowed
  | .throwing value => value.Asks allowed

/-- No scope is made, and nothing is declared. -/
def Operation.isQuiet : Operation → Bool
  | newScope _ _ => false
  | declare _ _ _ _ => false
  | declareMissing _ _ => false
  | _ => true

/-- Besides, all operations are quiet. -/
def Eval.Quiet {α : Type} (allowed : Task → Prop) : Eval α → Prop
  | .done _ => True
  | .perform op next => op.isQuiet = true ∧ ∀ answer, (next answer).Quiet allowed
  | .ask task next => allowed task ∧ ∀ answer, (next answer).Quiet allowed

def Rule.Quiet {α : Type} (allowed : Task → Prop) : Rule α → Prop
  | .once eval => eval.Quiet allowed
  | .repeated first turn => first.Quiet allowed ∧ ∀ state, (turn state).Quiet allowed
  | .guarded body handler finalizer =>
      body.Quiet allowed ∧ (∀ clause ∈ handler, ∀ value, (clause value).Quiet allowed) ∧
        ∀ last ∈ finalizer, last.Quiet allowed
  | .throwing value => value.Quiet allowed

section

variable {allowed : Task → Prop}

theorem Eval.asks_of_forall {α : Type} (all : ∀ task, allowed task) (eval : Eval α) :
    eval.Asks allowed := by
  induction eval with
  | done value => trivial
  | perform op next ih => exact ih
  | ask task next ih => exact ⟨all task, ih⟩

theorem Rule.asks_of_forall {α : Type} (all : ∀ task, allowed task) (rule : Rule α) :
    rule.Asks allowed := by
  have every {β : Type} (eval : Eval β) := eval.asks_of_forall all
  cases rule with
  | once eval => exact every eval
  | repeated first turn => exact ⟨every first, fun state => every (turn state)⟩
  | guarded body handler finalizer =>
      exact ⟨every body, fun clause _ value => every (clause value), fun last _ => every last⟩
  | throwing value => exact every value

theorem Eval.Quiet.asks {α : Type} {eval : Eval α} (quiet : eval.Quiet allowed) :
    eval.Asks allowed := by
  induction eval with
  | done value => trivial
  | perform op next ih => exact fun answer => ih answer (quiet.2 answer)
  | ask task next ih => exact ⟨quiet.1, fun answer => ih answer (quiet.2 answer)⟩

theorem Rule.Quiet.asks {α : Type} {rule : Rule α} (quiet : rule.Quiet allowed) :
    rule.Asks allowed := by
  cases rule with
  | once eval => exact Eval.Quiet.asks quiet
  | repeated first turn => exact ⟨quiet.1.asks, fun state => (quiet.2 state).asks⟩
  | guarded body handler finalizer =>
      exact ⟨quiet.1.asks, fun clause given value => (quiet.2.1 clause given value).asks,
        fun last given => (quiet.2.2 last given).asks⟩
  | throwing value => exact Eval.Quiet.asks quiet

theorem Eval.Quiet.bind {α β : Type} {first : Eval α} {next : α → Eval β}
    (quiet : first.Quiet allowed) (later : ∀ value, (next value).Quiet allowed) :
    (first >>= next).Quiet allowed := by
  induction first with
  | done value => exact later value
  | perform op rest ih => exact ⟨quiet.1, fun answer => ih answer (quiet.2 answer)⟩
  | ask task rest ih => exact ⟨quiet.1, fun answer => ih answer (quiet.2 answer)⟩

namespace Eval

theorem operate_quiet {op : Operation} (quiet : op.isQuiet = true) : (operate op).Quiet allowed :=
  ⟨quiet, fun _ => trivial⟩

theorem heap_quiet : heap.Quiet allowed :=
  operate_quiet rfl

theorem typeError_quiet {α : Type} (fault : TypeFault) :
    (typeError fault : Eval α).Quiet allowed :=
  ⟨rfl, fun never => never.elim⟩

theorem checkLength_quiet (requested : Nat) : (checkLength requested).Quiet allowed :=
  operate_quiet rfl

theorem stringify_quiet (value : Value) : (stringify value).Quiet allowed :=
  operate_quiet rfl

theorem newArray_quiet (items : Array Value) : (newArray items).Quiet allowed :=
  operate_quiet rfl

theorem newObject_quiet (properties : Record) : (newObject properties).Quiet allowed :=
  operate_quiet rfl

theorem modifyArray_quiet (ref : ArrayRef) (change : Array Value → Array Value) :
    (modifyArray ref change).Quiet allowed :=
  operate_quiet rfl

theorem display_quiet (value : Value) : (display value).Quiet allowed :=
  heap_quiet.bind fun _ => trivial

theorem getProperty_quiet (target : Value) (key : String) :
    (getProperty target key).Quiet allowed := by
  refine heap_quiet.bind fun h => ?_
  cases h.property target key with
  | error fault => exact typeError_quiet fault
  | ok found => cases found with
    | value value => trivial
    | method method => exact operate_quiet rfl

end Eval

/-! ## Functions of the host -/

open Eval

theorem listEntry_quiet (listing : Listing) (target : Value) (key : String) :
    (listEntry listing target key).Quiet allowed := by
  cases listing with
  | keys => trivial
  | values => exact getProperty_quiet target key
  | entries => exact (getProperty_quiet target key).bind fun _ => newArray_quiet _

theorem listEntries_quiet (listing : Listing) (target : Value) (keys : List String)
    (found : Array Value) : (listEntries listing target keys found).Quiet allowed := by
  induction keys generalizing found with
  | nil => trivial
  | cons key rest ih => exact (listEntry_quiet listing target key).bind fun _ => ih _

theorem makeArray_quiet (arguments : List Value) : (makeArray arguments).Quiet allowed := by
  unfold makeArray
  split
  · split
    · exact typeError_quiet _
    · exact (checkLength_quiet _).bind fun _ => newArray_quiet _
  · exact (checkLength_quiet _).bind fun _ => newArray_quiet _

theorem Builtin.apply_quiet (builtin : Builtin) (arguments : List Value) :
    (builtin.apply arguments).Quiet allowed := by
  refine heap_quiet.bind fun h => ?_
  cases builtin with
  | makeArray => exact makeArray_quiet arguments
  | list listing =>
      dsimp only
      split
      · exact typeError_quiet _
      · exact (listEntries_quiet listing _ _ _).bind fun _ => newArray_quiet _
  | toText =>
      cases arguments with
      | nil => trivial
      | cons first rest => exact (stringify_quiet _).bind fun _ => trivial
  | toNumber => cases arguments <;> trivial
  | makeError => exact newObject_quiet _
  | random => exact ⟨rfl, fun _ => trivial⟩
  | console level => exact ⟨rfl, fun _ => trivial⟩
  | _ => trivial

theorem numberMethodText_quiet (value : Float) (method : NumberMethod) (option : Value) :
    (numberMethodText value method option).Quiet allowed := by
  refine heap_quiet.bind fun h => ?_
  cases method.apply h value option with
  | ok text => trivial
  | error fault => exact typeError_quiet fault

theorem StringMethod.apply_quiet (method : StringMethod) (text : String) (arguments : List Value) :
    (method.apply text arguments).Quiet allowed := by
  refine heap_quiet.bind fun h => ?_
  cases method with
  | split => exact (checkLength_quiet _).bind fun _ => newArray_quiet _
  | _ => trivial

theorem joinPiece_quiet (receiver item : Value) : (joinPiece receiver item).Quiet allowed := by
  unfold joinPiece
  split
  · trivial
  · exact stringify_quiet _

theorem joinLater_quiet (receiver : Value) (separator : String) (items : List Value)
    (text : String) : (joinLater receiver separator items text).Quiet allowed := by
  induction items generalizing text with
  | nil => trivial
  | cons item rest ih =>
      exact (joinPiece_quiet receiver item).bind fun _ => (checkLength_quiet _).bind fun _ => ih _

theorem joinWith_quiet (ref : ArrayRef) (separator : String) :
    (joinWith ref separator).Quiet allowed := by
  have joined (items : List Value) : (joinAll (.array ref) separator items).Quiet allowed := by
    cases items with
    | nil => trivial
    | cons item rest =>
        exact (joinPiece_quiet (.array ref) item).bind fun _ =>
          (checkLength_quiet _).bind fun _ => joinLater_quiet _ _ _ _
  unfold joinWith
  split
  · exact (stringify_quiet _).bind fun _ => trivial
  · exact heap_quiet.bind fun h => (joined _).bind fun _ => trivial

theorem joinText_quiet (ref : ArrayRef) (separator : Value) :
    (joinText ref separator).Quiet allowed := by
  cases separator with
  | undefined => exact joinWith_quiet ref ","
  | _ => exact (display_quiet _).bind fun _ => joinWith_quiet ref _

theorem concatAll_quiet (values : List Value) (items : Array Value) :
    (concatAll values items).Quiet allowed := by
  induction values generalizing items with
  | nil => trivial
  | cons value rest ih =>
      have appended : (appended items value).Quiet allowed := by
        cases value with
        | array ref => exact heap_quiet.bind fun _ => trivial
        | _ => trivial
      exact appended.bind fun _ => (checkLength_quiet _).bind fun _ => ih _

theorem callbackOf_quiet (method : ArrayMethod) (arguments : List Value) :
    (callbackOf method arguments).Quiet allowed := by
  simp only [callbackOf]
  split
  · trivial
  · exact (display_quiet _).bind fun _ => typeError_quiet _

section

variable (calls : ∀ function arguments, allowed (.call function arguments))

include calls

theorem walk_quiet (method : ArrayMethod) (ref : ArrayRef) (function : Value) (left index : Nat)
    (gathered : Array Value) :
    (walk method ref function left index gathered).Quiet allowed := by
  have stop (gathered : Array Value) : (walkEnd method gathered).Quiet allowed := by
    cases method <;> first | trivial | exact newArray_quiet _
  induction left generalizing index gathered with
  | zero => exact stop gathered
  | succ left ih =>
      refine heap_quiet.bind fun h => ?_
      cases (h.arrayAt ref)[index]? with
      | none => exact stop gathered
      | some item =>
          refine Quiet.bind ⟨calls _ _, fun _ => trivial⟩ fun result => ?_
          cases walkStep method gathered index item result with
          | done value => trivial
          | next gathered => exact ih (index + 1) gathered

omit calls in
theorem foldStart_quiet (ref : ArrayRef) (arguments : List Value) :
    (foldStart ref arguments).Quiet allowed := by
  refine (callbackOf_quiet .reduce arguments).bind fun function => ?_
  cases arguments[1]? with
  | some initial => trivial
  | none =>
      refine heap_quiet.bind fun h => ?_
      cases (h.arrayAt ref)[0]? with
      | some first => trivial
      | none => exact typeError_quiet _

theorem foldTurn_quiet (ref : ArrayRef) (fold : Fold) : (foldTurn ref fold).Quiet allowed := by
  refine heap_quiet.bind fun h => ?_
  cases (h.arrayAt ref)[fold.index]? with
  | none => trivial
  | some item => exact ⟨calls _ _, fun _ => trivial⟩

/-- Array methods ask for nothing but calls of their callback. -/
theorem ArrayMethod.rule_quiet (method : ArrayMethod) (ref : ArrayRef) (arguments : List Value) :
    (method.rule ref arguments).Quiet allowed := by
  have walked : (walkAll method ref arguments).Quiet allowed :=
    heap_quiet.bind fun _ => (callbackOf_quiet method arguments).bind fun _ =>
      walk_quiet calls method ref _ _ _ _
  cases method with
  | push => exact heap_quiet.bind fun _ => (checkLength_quiet _).bind fun _ =>
      (modifyArray_quiet ref _).bind fun _ => trivial
  | pop => exact heap_quiet.bind fun _ => (modifyArray_quiet ref _).bind fun _ => trivial
  | fill => exact heap_quiet.bind fun _ => (modifyArray_quiet ref _).bind fun _ => trivial
  | indexOf => exact heap_quiet.bind fun _ => trivial
  | includes => exact heap_quiet.bind fun _ => trivial
  | join => exact joinText_quiet ref _
  | slice => exact heap_quiet.bind fun _ => newArray_quiet _
  | concat => exact heap_quiet.bind fun _ => (concatAll_quiet _ _).bind fun _ => newArray_quiet _
  | reverse => exact (modifyArray_quiet ref _).bind fun _ => trivial
  | reduce => exact ⟨foldStart_quiet ref arguments, foldTurn_quiet calls ref⟩
  | _ => exact walked

end

/-- Functions of the host are quiet and do nothing but call back. -/
theorem callRule_quiet (calls : ∀ function arguments, allowed (.call function arguments))
    {function : Value} {arguments : List Value}
    (host : (Task.call function arguments).isHostCall = true) :
    (callRule function arguments).Quiet allowed := by
  cases function with
  | closure closure => cases host
  | builtin builtin => exact Builtin.apply_quiet builtin arguments
  | bound identity method =>
      cases method with
      | array ref method => exact ArrayMethod.rule_quiet calls method ref arguments
      | string text method => exact StringMethod.apply_quiet method text arguments
      | number value method => exact numberMethodText_quiet value method _
  | _ => exact (display_quiet _).bind fun _ => typeError_quiet _

/-- What a task may ask for: functions of the host only call. -/
def Task.MayAsk (task part : Task) : Prop :=
  task.isHostCall = true → part.isCall = true

theorem Task.rule_asks (task : Task) : task.rule.Asks task.MayAsk := by
  cases host : task.isHostCall with
  | false => exact Rule.asks_of_forall (fun _ hosted => by simp [host] at hosted) _
  | true =>
      cases task with
      | call function arguments => exact (callRule_quiet (fun _ _ _ => rfl) host).asks
      | _ => cases host

end

/-! ## Turns -/

/-- Whoever goes on to another turn has taken a step in this one. -/
def Eval.Advances {σ α : Type} : Eval (Turn σ α) → Prop
  | .done (.again _) => False
  | .done (.finished _) => True
  | .perform .tick _ => True
  | .perform _ next => ∀ answer, (next answer).Advances
  | .ask _ _ => True

def Rule.Advances {α : Type} : Rule α → Prop
  | .repeated _ turn => ∀ state, (turn state).Advances
  | _ => True

theorem forTurn_advances (condition update : Option Expr) (body : Stmt) (scope : ScopeId) :
    (forTurn condition update body scope).Advances := by
  cases condition with
  | none => trivial
  | some condition => exact trivial

theorem walkBody_advances {σ α : Type} (kind : Option Declaration) (name : String) (item : Value)
    (body : Stmt) (scope : ScopeId) (next : Flow → Eval (Turn σ α)) :
    (walkBody kind name item body scope >>= next).Advances := by
  cases kind with
  | none => exact fun _ => trivial
  | some kind => cases kind with
    | var => exact fun _ => trivial
    | lexical => exact fun _ _ => trivial
    | constant => exact fun _ _ => trivial

theorem forOfTurn_advances (kind : Option Declaration) (name : String) (body : Stmt)
    (scope : ScopeId) (state : Value × Nat) : (forOfTurn kind name body scope state).Advances := by
  have turn (item? : Option Value) : (forOfItem kind name body scope state item?).Advances := by
    cases item? with
    | none => trivial
    | some item => exact walkBody_advances kind name item body scope _
  rcases state with ⟨collection, index⟩
  cases collection with
  | array ref => exact fun h => turn (h.arrayAt ref)[index]?
  | string text => exact turn (text.toList[index]?.map charText)
  | _ => exact fun _ never => never.elim

theorem foldTurn_advances (ref : ArrayRef) (fold : Fold) : (foldTurn ref fold).Advances := by
  intro h
  have turn (item? : Option Value) : (foldItem ref fold item?).Advances := by
    cases item? <;> trivial
  exact turn (h.arrayAt ref)[fold.index]?

theorem statementRule_advances (statement : Stmt) (scope : ScopeId) :
    (statementRule statement scope).Advances := by
  cases statement with
  | whileLoop condition body => exact fun _ => trivial
  | doWhile body condition => exact fun _ => trivial
  | forLoop initial condition update body => exact forTurn_advances condition update body
  | forOf kind name iterable body => exact forOfTurn_advances kind name body scope
  | _ => trivial

theorem Task.rule_advances (task : Task) : task.rule.Advances := by
  cases task with
  | expression form scope => trivial
  | statement form scope => exact statementRule_advances form scope
  | call function arguments =>
      cases function with
      | bound identity method =>
          cases method with
          | array ref method =>
              cases method with
              | reduce => exact foldTurn_advances ref
              | _ => trivial
          | _ => trivial
      | _ => trivial

end StrategyQubo.Script
