import StrategyQubo.Proofs.SpelledPrograms
import StrategyQubo.Proofs.Submittable

namespace StrategyQubo

open StrategyQubo.Script

/-! # Declared names

Validation asks of the identifiers that an expression is cut into that they are
declared.  So all names to which the tree of the expression refers are declared,
the holes of templates apart: their identifiers are cut later, when the tree is
made, and nobody asks for them.
-/

namespace Script

/-! ## References -/

mutual

/-- The names that an expression reads or assigns, at any depth.  Those in the
    holes of templates count on request. -/
def Expr.references (holes : Bool) : Expr → List String
  | .template parts => TemplatePart.referencesOf holes parts
  | .identifier name => [name]
  | .array elements => Expr.referencesOf holes elements
  | .object properties => Property.referencesOf holes properties
  | .function definition => definition.references holes
  | .unary _ operand => operand.references holes
  | .update _ _ target => target.references holes
  | .binary _ left right => left.references holes ++ right.references holes
  | .logical _ left right => left.references holes ++ right.references holes
  | .conditional condition consequent alternative =>
      condition.references holes ++ (consequent.references holes ++ alternative.references holes)
  | .assign _ target value => target.references holes ++ value.references holes
  | .member object _ => object.references holes
  | .index object key => object.references holes ++ key.references holes
  | .call callee arguments => callee.references holes ++ Expr.referencesOf holes arguments
  | .construct callee arguments => callee.references holes ++ Expr.referencesOf holes arguments
  | _ => []

def Expr.referencesOf (holes : Bool) : List Expr → List String
  | [] => []
  | first :: rest => first.references holes ++ Expr.referencesOf holes rest

def Expr.referencesOfOption (holes : Bool) : Option Expr → List String
  | none => []
  | some value => value.references holes

def TemplatePart.references (holes : Bool) : TemplatePart → List String
  | .text _ => []
  | .hole value => if holes then value.references holes else []

def TemplatePart.referencesOf (holes : Bool) : List TemplatePart → List String
  | [] => []
  | first :: rest => first.references holes ++ TemplatePart.referencesOf holes rest

def PropertyKey.references (holes : Bool) : PropertyKey → List String
  | .fixed _ => []
  | .computed value => value.references holes

def Property.references (holes : Bool) : Property → List String
  | .entry key value => key.references holes ++ value.references holes

def Property.referencesOf (holes : Bool) : List Property → List String
  | [] => []
  | first :: rest => first.references holes ++ Property.referencesOf holes rest

def FunctionBody.references (holes : Bool) : FunctionBody → List String
  | .block statements => Stmt.referencesOf holes statements
  | .expression value => value.references holes

def FunctionDef.references (holes : Bool) : FunctionDef → List String
  | .define _ _ body => body.references holes

def Declarator.references (holes : Bool) : Declarator → List String
  | .declare _ initial => Expr.referencesOfOption holes initial

def Declarator.referencesOf (holes : Bool) : List Declarator → List String
  | [] => []
  | first :: rest => first.references holes ++ Declarator.referencesOf holes rest

/-- A walk that declares no name for the items assigns one. -/
def Stmt.references (holes : Bool) : Stmt → List String
  | .declaration _ declarators => Declarator.referencesOf holes declarators
  | .function definition => definition.references holes
  | .expression value => value.references holes
  | .returnWith value => Expr.referencesOfOption holes value
  | .ifElse condition consequent alternative =>
      condition.references holes ++
        (consequent.references holes ++ Stmt.referencesOfOption holes alternative)
  | .whileLoop condition body => condition.references holes ++ body.references holes
  | .doWhile body condition => body.references holes ++ condition.references holes
  | .forLoop initial condition update body =>
      Stmt.referencesOfOption holes initial ++ (Expr.referencesOfOption holes condition ++
        (Expr.referencesOfOption holes update ++ body.references holes))
  | .forOf kind name iterable body =>
      (if kind = none then [name] else []) ++ (iterable.references holes ++ body.references holes)
  | .forIn kind name object body =>
      (if kind = none then [name] else []) ++ (object.references holes ++ body.references holes)
  | .block statements => Stmt.referencesOf holes statements
  | .throwValue value => value.references holes
  | .tryBlock block _ handler finalizer =>
      Stmt.referencesOf holes block ++ (Stmt.referencesOfOptionList holes handler ++
        Stmt.referencesOfOptionList holes finalizer)
  | _ => []

def Stmt.referencesOf (holes : Bool) : List Stmt → List String
  | [] => []
  | first :: rest => first.references holes ++ Stmt.referencesOf holes rest

def Stmt.referencesOfOption (holes : Bool) : Option Stmt → List String
  | none => []
  | some statement => statement.references holes

def Stmt.referencesOfOptionList (holes : Bool) : Option (List Stmt) → List String
  | none => []
  | some statements => Stmt.referencesOf holes statements

end

/-- Lists of names that are gathered from items. -/
theorem forall_mem_gathered {α : Type} {names : α → List String} {gathered : List α → List String}
    {good : String → Prop} (nil : gathered [] = [])
    (cons : ∀ first rest, gathered (first :: rest) = names first ++ gathered rest)
    {items : List α} (all : ∀ item ∈ items, ∀ name ∈ names item, good name) :
    ∀ name ∈ gathered items, good name := by
  induction items with
  | nil => simp [nil]
  | cons first rest ih =>
      rw [cons]
      obtain ⟨one, others⟩ := List.forall_mem_cons.mp all
      exact List.forall_mem_append.mpr ⟨one, ih others⟩

theorem forall_mem_gatheredOption {α : Type} {names : α → List String}
    {gathered : Option α → List String} {good : String → Prop} (none : gathered none = [])
    (some : ∀ item, gathered (some item) = names item) {item? : Option α}
    (all : ∀ item ∈ item?, ∀ name ∈ names item, good name) :
    ∀ name ∈ gathered item?, good name := by
  cases item? with
  | none => simp [none]
  | some item =>
      rw [some]
      exact all item rfl

section

variable {holes : Bool} {good : String → Prop}

mutual

theorem Expr.Spelled.references {s : Spelling} {e : Expr} (spelled : e.Spelled s)
    (names : ∀ name, s.name name → good name)
    (inners : holes = true → ∀ name, s.inner name → good name) :
    ∀ name ∈ e.references holes, good name :=
  match spelled with
  | .number _ | .string _ | .bool _ | .null | .undefined => List.forall_mem_nil _
  | .template parts => forall_mem_gathered rfl (fun _ _ => rfl) fun part member =>
      (parts part member).references inners inners
  | .identifier named => List.forall_mem_singleton.mpr (names _ named)
  | .array elements => forall_mem_gathered rfl (fun _ _ => rfl) fun element member =>
      (elements element member).references names inners
  | .object properties => forall_mem_gathered rfl (fun _ _ => rfl) fun property member =>
      (properties property member).references names inners
  | .function definition => definition.references names inners
  | .unary _ operand => operand.references names inners
  | .update _ _ target => target.references names inners
  | .binary _ left right => List.forall_mem_append.mpr
      ⟨left.references names inners, right.references names inners⟩
  | .logical _ left right => List.forall_mem_append.mpr
      ⟨left.references names inners, right.references names inners⟩
  | .conditional decides first second => List.forall_mem_append.mpr
      ⟨decides.references names inners, List.forall_mem_append.mpr
        ⟨first.references names inners, second.references names inners⟩⟩
  | .assign _ place value => List.forall_mem_append.mpr
      ⟨place.references names inners, value.references names inners⟩
  | .member _ owner => owner.references names inners
  | .index owner key => List.forall_mem_append.mpr
      ⟨owner.references names inners, key.references names inners⟩
  | .call function arguments => List.forall_mem_append.mpr
      ⟨function.references names inners, forall_mem_gathered rfl (fun _ _ => rfl)
        fun argument member => (arguments argument member).references names inners⟩
  | .construct function arguments => List.forall_mem_append.mpr
      ⟨function.references names inners, forall_mem_gathered rfl (fun _ _ => rfl)
        fun argument member => (arguments argument member).references names inners⟩

theorem TemplatePart.Spelled.references {s : Spelling} {part : TemplatePart} (spelled : part.Spelled s)
    (names : holes = true → ∀ name, s.name name → good name)
    (inners : holes = true → ∀ name, s.inner name → good name) :
    ∀ name ∈ part.references holes, good name :=
  match spelled with
  | .text _ => List.forall_mem_nil _
  | .hole value => by
      unfold TemplatePart.references
      split
      · next counted => exact value.references (names counted) inners
      · exact List.forall_mem_nil _

theorem PropertyKey.Spelled.references {s : Spelling} {key : PropertyKey} (spelled : key.Spelled s)
    (names : ∀ name, s.name name → good name)
    (inners : holes = true → ∀ name, s.inner name → good name) :
    ∀ name ∈ key.references holes, good name :=
  match spelled with
  | .fixed _ => List.forall_mem_nil _
  | .computed value => value.references names inners

theorem Property.Spelled.references {s : Spelling} {property : Property} (spelled : property.Spelled s)
    (names : ∀ name, s.name name → good name)
    (inners : holes = true → ∀ name, s.inner name → good name) :
    ∀ name ∈ property.references holes, good name :=
  match spelled with
  | .entry key value => List.forall_mem_append.mpr
      ⟨key.references names inners, value.references names inners⟩

theorem FunctionBody.Spelled.references {s : Spelling} {body : FunctionBody} (spelled : body.Spelled s)
    (names : ∀ name, s.name name → good name)
    (inners : holes = true → ∀ name, s.inner name → good name) :
    ∀ name ∈ body.references holes, good name :=
  match spelled with
  | .block statements => forall_mem_gathered rfl (fun _ _ => rfl) fun statement member =>
      (statements statement member).references names inners
  | .expression value => value.references names inners

theorem FunctionDef.Spelled.references {s : Spelling} {definition : FunctionDef}
    (spelled : definition.Spelled s)
    (names : ∀ name, s.name name → good name)
    (inners : holes = true → ∀ name, s.inner name → good name) :
    ∀ name ∈ definition.references holes, good name :=
  match spelled with
  | .define _ _ body => body.references names inners

theorem Declarator.Spelled.references {s : Spelling} {declarator : Declarator}
    (spelled : declarator.Spelled s)
    (names : ∀ name, s.name name → good name)
    (inners : holes = true → ∀ name, s.inner name → good name) :
    ∀ name ∈ declarator.references holes, good name :=
  match spelled with
  | .declare _ initial => forall_mem_gatheredOption rfl (fun _ => rfl) fun value same =>
      (initial value same).references names inners

theorem Stmt.Spelled.references {s : Spelling} {statement : Stmt} (spelled : statement.Spelled s)
    (names : ∀ name, s.name name → good name)
    (inners : holes = true → ∀ name, s.inner name → good name) :
    ∀ name ∈ statement.references holes, good name :=
  have walk {kind : Option Declaration} {name : String} (assigns : kind = none → s.name name) :
      ∀ other ∈ (if kind = none then [name] else []), good other := by
    split
    · next assigned => exact List.forall_mem_singleton.mpr (names name (assigns assigned))
    · exact List.forall_mem_nil _
  match spelled with
  | .declaration _ declarators => forall_mem_gathered rfl (fun _ _ => rfl)
      fun declarator member => (declarators declarator member).references names inners
  | .function definition => definition.references names inners
  | .expression value => value.references names inners
  | .returnWith value => forall_mem_gatheredOption rfl (fun _ => rfl) fun result same =>
      (value result same).references names inners
  | .ifElse decides first second => List.forall_mem_append.mpr
      ⟨decides.references names inners, List.forall_mem_append.mpr
        ⟨first.references names inners, forall_mem_gatheredOption rfl (fun _ => rfl)
          fun other same => (second other same).references names inners⟩⟩
  | .whileLoop decides body => List.forall_mem_append.mpr
      ⟨decides.references names inners, body.references names inners⟩
  | .doWhile body decides => List.forall_mem_append.mpr
      ⟨body.references names inners, decides.references names inners⟩
  | .forLoop starts decides updates body => List.forall_mem_append.mpr
      ⟨forall_mem_gatheredOption rfl (fun _ => rfl) fun statement same =>
        (starts statement same).references names inners, List.forall_mem_append.mpr
      ⟨forall_mem_gatheredOption rfl (fun _ => rfl) fun value same =>
        (decides value same).references names inners, List.forall_mem_append.mpr
      ⟨forall_mem_gatheredOption rfl (fun _ => rfl) fun value same =>
        (updates value same).references names inners, body.references names inners⟩⟩⟩
  | .forOf assigns walks body => List.forall_mem_append.mpr ⟨walk assigns,
      List.forall_mem_append.mpr ⟨walks.references names inners, body.references names inners⟩⟩
  | .forIn assigns walks body => List.forall_mem_append.mpr ⟨walk assigns,
      List.forall_mem_append.mpr ⟨walks.references names inners, body.references names inners⟩⟩
  | .block statements => forall_mem_gathered rfl (fun _ _ => rfl) fun statement member =>
      (statements statement member).references names inners
  | .throwValue value => value.references names inners
  | .tryBlock _ tries handles ends => List.forall_mem_append.mpr
      ⟨forall_mem_gathered rfl (fun _ _ => rfl) fun statement member =>
        (tries statement member).references names inners, List.forall_mem_append.mpr
      ⟨forall_mem_gatheredOption rfl (fun _ => rfl) fun statements same =>
        forall_mem_gathered rfl (fun _ _ => rfl) fun statement member =>
          (handles statements same statement member).references names inners,
      forall_mem_gatheredOption rfl (fun _ => rfl) fun statements same =>
        forall_mem_gathered rfl (fun _ _ => rfl) fun statement member =>
          (ends statements same statement member).references names inners⟩⟩
  | .breakLoop | .continueLoop | .empty => List.forall_mem_nil _

end

end

/-! ## Identifiers of a text -/

/-- The source of a hole and where it begins. -/
def Chunk.hole? : Chunk → Option (String × Position)
  | .text _ => none
  | .code source start => some (source, start)

def Token.holes (token : Token) : List (String × Position) :=
  match token.lexeme with
  | .template chunks => chunks.filterMap Chunk.hole?
  | _ => []

/-- The identifiers among the tokens are among the names. -/
def Named (names : List String) (tokens : List Token) : Prop :=
  ∀ token ∈ tokens, ∀ name, token.lexeme = .identifier name → name ∈ names

/-- So are those of the holes, and of the holes in holes. -/
inductive HolesNamed (names : List String) : List Token → Prop where
  | intro {tokens : List Token}
      (named : ∀ token ∈ tokens, ∀ hole ∈ token.holes, ∀ inner,
        tokenizeAt hole.1 hole.2 = .ok inner → Named names inner)
      (deeper : ∀ token ∈ tokens, ∀ hole ∈ token.holes, ∀ inner,
        tokenizeAt hole.1 hole.2 = .ok inner → HolesNamed names inner) :
      HolesNamed names tokens

variable {names : List String} {tokens : List Token}

theorem HolesNamed.cut (inside : HolesNamed names tokens) {token : Token}
    (member : token ∈ tokens) {hole : String × Position} (found : hole ∈ token.holes)
    {inner : List Token} (cut : tokenizeAt hole.1 hole.2 = .ok inner) :
    Named names inner ∧ HolesNamed names inner := by
  obtain ⟨named, deeper⟩ := inside
  exact ⟨named token member hole found inner cut, deeper token member hole found inner cut⟩

/-- Whether the identifiers in the holes are among the names, where no holes are
    deeper in each other than that. -/
def holesNamed (names : List String) : Nat → List Token → Bool
  | 0, tokens => tokens.all fun token => token.holes.isEmpty
  | deep + 1, tokens => tokens.all fun token => token.holes.all fun hole =>
      match tokenizeAt hole.1 hole.2 with
      | .error _ => true
      | .ok inner => holesNamed names deep inner && inner.all fun token =>
          match token.lexeme with
          | .identifier name => names.contains name
          | _ => true

theorem HolesNamed.of_check (deep : Nat) (checked : holesNamed names deep tokens = true) :
    HolesNamed names tokens := by
  induction deep generalizing tokens with
  | zero =>
      simp only [holesNamed, List.all_eq_true, List.isEmpty_iff] at checked
      have none {token : Token} (member : token ∈ tokens) {hole : String × Position}
          (found : hole ∈ token.holes) : False := by
        simp [checked token member] at found
      exact .intro (fun _ member _ found => (none member found).elim)
        fun _ member _ found => (none member found).elim
  | succ deep ih =>
      simp only [holesNamed, List.all_eq_true] at checked
      have inside {token : Token} (member : token ∈ tokens) {hole : String × Position}
          (found : hole ∈ token.holes) {inner : List Token}
          (cut : tokenizeAt hole.1 hole.2 = .ok inner) :
          HolesNamed names inner ∧ Named names inner := by
        have both := checked token member hole found
        simp only [cut, Bool.and_eq_true, List.all_eq_true] at both
        refine ⟨ih both.1, fun token member name shape => ?_⟩
        simpa [shape] using both.2 token member
      exact .intro (fun _ member _ found _ cut => (inside member found cut).2)
        fun _ member _ found _ cut => (inside member found cut).1

/-- Where any text will do, only identifiers and holes matter. -/
theorem Token.within_of_named {s : Spelling} (texts : ∀ text, s.text text) {token : Token}
    (named : ∀ name, token.lexeme = .identifier name → s.name name)
    (holes : ∀ hole ∈ token.holes, s.source hole.1 hole.2) : token.Within s := by
  unfold Token.Within
  cases shape : token.lexeme with
  | string text => exact texts text
  | identifier name => exact ⟨named name shape, texts name⟩
  | template chunks =>
      intro chunk among
      cases chunk with
      | text content => trivial
      | code source start =>
          refine holes (source, start) ?_
          rw [Token.holes, shape]
          exact List.mem_filterMap.mpr ⟨_, among, rfl⟩
  | _ => trivial

/-- The names, outside holes and, if these count, inside. -/
def namesSpelling (names : List String) (holes : Bool) : Spelling where
  name name := name ∈ names
  inner name := holes = true → name ∈ names
  text _ := True
  source source start := holes = true → ∀ inner, tokenizeAt source start = .ok inner →
    Named names inner ∧ HolesNamed names inner

theorem namesSpelling_closed (names : List String) (holes : Bool) :
    (namesSpelling names holes).Closed where
  keywords _ := trivial
  numbers _ := trivial
  holes _ _ tokens opened cut token member :=
    Token.within_of_named (fun _ => trivial)
      (fun name shape counted => (opened counted tokens cut).1 token member name shape)
      fun _ found counted _ deeper => (opened counted tokens cut).2.cut member found deeper

/-- An expression refers to identifiers that its text is cut into.  In its holes
    it refers to those that the holes are cut into. -/
theorem Expr.parse_references {text : String} {e : Expr} {holes : Bool}
    (cut : tokenize text = .ok tokens) (named : Named names tokens)
    (inside : holes = true → HolesNamed names tokens) (parsed : Expr.parse text = .ok e) :
    ∀ name ∈ e.references holes, name ∈ names := by
  have within : ∀ token ∈ tokens, token.Within (namesSpelling names holes) := fun token member =>
    Token.within_of_named (fun _ => trivial) (named token member)
      fun _ found counted _ deeper => (inside counted).cut member found deeper
  have spelled := Expr.parse_spelled (namesSpelling_closed names holes) cut within parsed
  exact spelled.references (fun _ => id) fun counted name inner => inner counted

end Script

/-! ## Documents -/

/-- The identifiers in the holes of the text are declared. -/
def Variables.CoversHoles (v : Variables) (text : String) : Prop :=
  ∀ tokens, tokenize text = .ok tokens → HolesNamed v.names tokens

def Document.expressions (d : Document) : List String :=
  d.objective :: d.constraints.map (·.lhs)

theorem Document.Submittable.covers {d : Document} (submittable : d.Submittable) :
    ∀ text ∈ d.expressions, d.declared.Covers text :=
  List.forall_mem_cons.mpr ⟨submittable.objective, List.forall_mem_map.mpr submittable.constraints⟩

/-- In the document of a validation, every name outside the holes of templates to
    which an expression refers is declared.  So is every name inside, if the
    identifiers that the holes are cut into are. -/
theorem Strategy.validate_references (candidate : Option Candidate) :
    let d := (validate candidate).1.document
    ∀ text ∈ d.expressions, ∀ e, Expr.parse text = .ok e →
      (∀ name ∈ e.references false, name ∈ d.declared.names) ∧
      (d.declared.CoversHoles text → ∀ name ∈ e.references true, name ∈ d.declared.names) := by
  intro d text stated e parsed
  have submittable : d.Submittable := validateOr_submittable .missingDocument candidate
  obtain ⟨tokens, cut, named⟩ := submittable.covers text stated
  exact ⟨Expr.parse_references cut named nofun parsed, fun holes =>
    Expr.parse_references cut named (fun _ => holes tokens cut) parsed⟩

/-- A template in a hole of another one. -/
def Document.templated : Document where
  declared := .ofList [("a", .binary), ("b", .spin)]
  constraints := [⟨"a", .equal, 1.0⟩]
  objective := "a * \x60$\x7bb - \x60$\x7ba\x7d\x60\x7d\x60"

theorem Document.templated_coversHoles : templated.declared.CoversHoles templated.objective := by
  intro tokens cut
  refine HolesNamed.of_check 2 ?_
  have checked : (tokenize templated.objective).toOption.all
      (holesNamed templated.declared.names 2) = true := by
    decide +kernel
  rw [cut] at checked
  exact checked

/-- All names in it are declared. -/
theorem Strategy.validate_references_templated :
    (validate (some (.ofDocument .templated))).1.document = .templated ∧
    ∃ e, Expr.parse Document.templated.objective = .ok e ∧ e.references true = ["a", "b", "a"] ∧
      ∀ name ∈ e.references true, name ∈ Document.templated.declared.names := by
  have submittable : Document.templated.Submittable :=
    submittable_of_checked (by decide) (by decide) (by decide +kernel) (by decide +kernel)
  have kept : (validate (some (.ofDocument .templated))).1.document = .templated := by
    rw [validate, validateOr_ok (coerce_submittable submittable) submittable]
  have run : (Expr.parse Document.templated.objective).toOption.any
      (fun e => e.references true == ["a", "b", "a"]) = true := by
    decide +kernel
  cases parsed : Expr.parse Document.templated.objective with
  | error error =>
      rw [parsed] at run
      cases run
  | ok e =>
      rw [parsed] at run
      have stated : Document.templated.objective ∈ Document.templated.expressions :=
        List.mem_cons_self
      have declared := Strategy.validate_references (some (.ofDocument .templated))
      rw [kept] at declared
      exact ⟨kept, e, rfl, beq_iff_eq.mp run,
        (declared _ stated e parsed).2 Document.templated_coversHoles⟩

/-- A hole that names no variable. -/
def Document.veiled : Document where
  declared := .ofList [("a", .binary)]
  constraints := [⟨"a", .equal, 1.0⟩]
  objective := "a + \x60$\x7bhidden\x7d\x60"

/-- Validation accepts it. -/
theorem Strategy.validate_veiled :
    (validate (some (.ofDocument .veiled))).1 = ⟨.veiled, none⟩ ∧
    ∃ e, Expr.parse Document.veiled.objective = .ok e ∧
      "hidden" ∈ e.references true ∧ "hidden" ∉ Document.veiled.declared.names := by
  have submittable : Document.veiled.Submittable :=
    submittable_of_checked (by decide) (by decide) (by decide +kernel) (by decide +kernel)
  have run : (Expr.parse Document.veiled.objective).toOption.any
      (fun e => e.references true == ["a", "hidden"]) = true := by
    decide +kernel
  refine ⟨by rw [validate, validateOr_ok (coerce_submittable submittable) submittable], ?_⟩
  cases parsed : Expr.parse Document.veiled.objective with
  | error error =>
      rw [parsed] at run
      cases run
  | ok e =>
      rw [parsed] at run
      refine ⟨e, rfl, ?_, by decide⟩
      rw [beq_iff_eq.mp run]
      decide

end StrategyQubo
