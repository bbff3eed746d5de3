import Mathlib.Data.List.DropRight
import StrategyQubo.Strategy.Validation

namespace StrategyQubo

open StrategyQubo.Script

/-! # Submittable documents

What validation asks of a document, said without the checks.  A candidate is
accepted exactly when what it says makes such a document, the default document
is one, and validation leaves every such document as it is.
-/

/-- The text can be cut into tokens, and the identifiers among them are
    declared. -/
def Variables.Covers (v : Variables) (text : String) : Prop :=
  ∃ tokens, tokenize text = .ok tokens ∧
    ∀ token ∈ tokens, ∀ name, token.lexeme = .identifier name → name ∈ v.names

structure Document.Submittable (d : Document) : Prop where
  declares : d.declared.names ≠ []
  constrains : d.constraints ≠ []
  visible : ∃ c ∈ d.objective.toList, Text.isBlank c = false
  objective : d.declared.Covers d.objective
  constraints : ∀ c ∈ d.constraints, d.declared.Covers c.lhs

theorem Variables.isEmpty_eq_false_iff (v : Variables) : v.isEmpty = false ↔ v.names ≠ [] := by
  simp [isEmpty, names]

theorem Variables.eq_of_entries {v w : Variables} (same : v.entries = w.entries) : v = w := by
  cases v
  cases w
  exact (Variables.mk.injEq ..).mpr same

theorem Variables.idxOf?_of_mem {v : Variables} {name : String} (member : name ∈ v.names) :
    v.names.idxOf? name = some (v.names.idxOf name) :=
  List.idxOf?_eq_some_iff.mpr ⟨List.idxOf_lt_length_of_mem member, List.getElem_idxOf _,
    fun _ before => beq_eq_false_iff_ne.mp (List.not_of_lt_findIdx before)⟩

theorem Variables.get?_of_mem {v : Variables} {name : String} (member : name ∈ v.names) :
    ∃ kind, v.get? name = some kind ∧ (name, kind) ∈ v.entries := by
  unfold get?
  cases found : v.entries.lookup name with
  | none =>
      obtain ⟨entry, listed, same⟩ := List.mem_map.mp member
      have absent := List.lookup_eq_none_iff.mp found entry listed
      simp [same] at absent
  | some kind =>
      obtain ⟨before, after, split, -⟩ := List.lookup_eq_some_iff.mp found
      refine ⟨kind, rfl, ?_⟩
      rw [split]
      exact List.mem_append_right _ List.mem_cons_self

theorem Candidate.ofDocument_inj {d d' : Document} (same : ofDocument d = ofDocument d') :
    d = d' := by
  obtain ⟨declared, constraints, objective⟩ := d
  cases same
  rfl

/-! ## Documents that compare equal -/

theorem map_lhs_of_beq {constraints constraints' : List Constraint}
    (same : (constraints' == constraints) = true) :
    constraints'.map (·.lhs) = constraints.map (·.lhs) := by
  induction constraints' generalizing constraints with
  | nil =>
      cases constraints with
      | nil => rfl
      | cons => cases same
  | cons c' rest' ih =>
      cases constraints with
      | nil => cases same
      | cons c rest =>
          rw [List.cons_beq_cons, Bool.and_eq_true] at same
          have first : (c'.lhs == c.lhs && (c'.comparison == c.comparison && c'.rhs == c.rhs)) =
            true := same.1
          rw [Bool.and_eq_true, beq_iff_eq] at first
          rw [List.map_cons, List.map_cons, first.1, ih same.2]

theorem Document.Submittable.of_beq {d d' : Document} (submittable : d.Submittable)
    (same : (d' == d) = true) : d'.Submittable := by
  obtain ⟨declared, constraints, objective⟩ := d
  obtain ⟨declared', constraints', objective'⟩ := d'
  have parts : (declared'.entries == declared.entries &&
    (constraints' == constraints && objective' == objective)) = true := same
  simp only [Bool.and_eq_true, beq_iff_eq] at parts
  obtain ⟨entries, alike, rfl⟩ := parts
  obtain rfl := Variables.eq_of_entries entries
  have covers : ∀ constraints : List Constraint,
      (∀ c ∈ constraints, declared'.Covers c.lhs) ↔
        ∀ text ∈ constraints.map (·.lhs), declared'.Covers text :=
    fun _ => List.forall_mem_map.symm
  have count := congrArg List.length (map_lhs_of_beq alike)
  rw [List.length_map, List.length_map] at count
  refine ⟨submittable.declares, ?_, submittable.visible, submittable.objective, ?_⟩
  · rw [← List.length_pos_iff, count, List.length_pos_iff]
    exact submittable.constrains
  · rw [covers, map_lhs_of_beq alike, ← covers]
    exact submittable.constraints

namespace Strategy

variable {v : Variables} {text field : String} {c : Candidate} {d : Document}

/-! ## The checks -/

theorem isBlankText_iff : isBlankText text = true ↔ ∀ c ∈ text.toList, Text.isBlank c = true := by
  have ends : Text.trimEnd (Text.trimStart text.toList) = [] ↔ Text.trimStart text.toList = [] := by
    rw [Text.trimEnd, List.reverse_eq_nil_iff, List.dropWhile_eq_nil_iff]
    simp only [List.mem_reverse]
    rw [← List.dropWhile_eq_nil_iff, Text.trimStart, List.dropWhile_idempotent]
  rw [isBlankText, Text.trim, String.isEmpty_iff, ← String.toList_eq_nil_iff, String.toList_ofList,
    ends, Text.trimStart, List.dropWhile_eq_nil_iff]

theorem isBlankText_eq_false_iff :
    isBlankText text = false ↔ ∃ c ∈ text.toList, Text.isBlank c = false := by
  rw [← Bool.not_eq_true, isBlankText_iff]
  simp

theorem covers_iff : v.Covers text ↔
    ∃ names, referencedIdentifiers? text = some names ∧ ∀ name ∈ names, name ∈ v.names := by
  unfold Variables.Covers referencedIdentifiers?
  cases tokenize text with
  | error error => simp
  | ok tokens =>
      simp only [Except.ok.injEq, exists_eq_left', Option.some.injEq, List.mem_filterMap]
      constructor
      · rintro declared name ⟨token, member, named⟩
        refine declared token member name ?_
        split at named
        · next other same => rw [same, Option.some.inj named]
        · cases named
      · intro declared token member name named
        exact declared name ⟨token, member, by rw [named]⟩

theorem checkExpression_iff : checkExpression v field text = .ok () ↔ v.Covers text := by
  rw [covers_iff, checkExpression]
  cases referencedIdentifiers? text with
  | none => simp
  | some names =>
      have declared : (∀ name ∈ names, name ∈ v.names) ↔
          names.find? (fun name => !v.contains name) = none := by
        simp [v.contains_iff_mem_names]
      simp only [Option.some.injEq, exists_eq_left', declared]
      cases names.find? fun name => !v.contains name <;> simp

theorem andThen_ok_iff {α ε : Type} {first : Except ε Unit} {next : Except ε α} {a : α} :
    (first >>= fun _ => next) = .ok a ↔ first = .ok () ∧ next = .ok a := by
  cases first <;> simp [bind, Except.bind]

theorem checkConstraints_iff {constraints : List Constraint} (index : Nat) :
    checkConstraints v index constraints = .ok () ↔ ∀ c ∈ constraints, v.Covers c.lhs := by
  induction constraints generalizing index with
  | nil => simp [checkConstraints]
  | cons c rest ih =>
      unfold checkConstraints
      rw [andThen_ok_iff, checkExpression_iff, ih, List.forall_mem_cons]

theorem checkDeclared_iff : checkDeclared d = .ok () ↔
    d.declared.Covers d.objective ∧ ∀ c ∈ d.constraints, d.declared.Covers c.lhs := by
  unfold checkDeclared
  rw [andThen_ok_iff, checkExpression_iff, checkConstraints_iff]

theorem submittable_of_checked (declares : d.declared.names ≠ []) (constrains : d.constraints ≠ [])
    (visible : isBlankText d.objective = false) (checked : checkDeclared d = .ok ()) :
    d.Submittable := by
  obtain ⟨objective, constraints⟩ := checkDeclared_iff.mp checked
  exact ⟨declares, constrains, isBlankText_eq_false_iff.mp visible, objective, constraints⟩

theorem acceptParts_iff : acceptParts c = .ok d ↔
    c = .ofDocument d ∧ d.declared.isEmpty = false ∧ isBlankText d.objective = false ∧
      d.constraints.isEmpty = false := by
  constructor
  · intro accepted
    unfold acceptParts at accepted
    split at accepted
    · cases accepted
    · next declared declares =>
      split at accepted
      · cases accepted
      · next objective visible =>
        split at accepted
        · cases accepted
        · next constraints constrains =>
          cases accepted
          obtain ⟨declared', constraints', objective'⟩ := c
          simp only [Option.filter_eq_some_iff, Bool.not_eq_true'] at declares visible constrains
          obtain ⟨rfl, declares⟩ := declares
          obtain ⟨rfl, visible⟩ := visible
          obtain ⟨rfl, constrains⟩ := constrains
          exact ⟨rfl, declares, visible, constrains⟩
  · rintro ⟨rfl, declares, visible, constrains⟩
    rw [acceptParts, Candidate.ofDocument]
    simp only [Option.filter_some, declares, visible, constrains, Bool.not_false, if_true]

/-- Accepted is exactly what says of its parts that they make a submittable
    document. -/
theorem accept_iff : accept c = .ok d ↔ coerce c = .ofDocument d ∧ d.Submittable := by
  have checked : accept c = .ok d ↔ acceptParts (coerce c) = .ok d ∧ checkDeclared d = .ok () := by
    unfold accept
    cases acceptParts (coerce c) with
    | error reason => simp [bind, Except.bind]
    | ok d' =>
        change (checkDeclared d' >>= fun _ => pure d') = _ ↔ _
        rw [andThen_ok_iff]
        constructor
        · rintro ⟨checked, same⟩
          cases same
          exact ⟨rfl, checked⟩
        · rintro ⟨same, checked⟩
          cases same
          exact ⟨checked, rfl⟩
  rw [checked, acceptParts_iff, checkDeclared_iff, Variables.isEmpty_eq_false_iff,
    isBlankText_eq_false_iff, List.isEmpty_eq_false_iff]
  constructor
  · rintro ⟨⟨stated, declares, visible, constrains⟩, objective, constraints⟩
    exact ⟨stated, declares, constrains, visible, objective, constraints⟩
  · rintro ⟨stated, declares, constrains, visible, objective, constraints⟩
    exact ⟨⟨stated, declares, visible, constrains⟩, objective, constraints⟩

theorem coerce_submittable (submittable : d.Submittable) :
    coerce (.ofDocument d) = .ofDocument d := by
  have visible := isBlankText_eq_false_iff.mpr submittable.visible
  simp [coerce, Candidate.ofDocument, visible]

/-! ## The default document -/

theorem defaultDocument_submittable : defaultDocument.Submittable :=
  submittable_of_checked (by decide) (by decide) (by decide +kernel) (by decide +kernel)

/-! ## Validation -/

theorem validateOr_ok {missing : FallbackReason} (stated : coerce c = .ofDocument d)
    (submittable : d.Submittable) : validateOr missing (some c) = (⟨d, none⟩, []) := by
  have accepted := accept_iff.mpr ⟨stated, submittable⟩
  unfold validateOr
  simp only [accepted]

theorem validateOr_cases (missing : FallbackReason) (candidate : Option Candidate) :
    (∃ c d, candidate = some c ∧ coerce c = .ofDocument d ∧ d.Submittable ∧
      validateOr missing candidate = (⟨d, none⟩, [])) ∨
    (∀ c d, candidate = some c → coerce c = .ofDocument d → ¬ d.Submittable) ∧
      ∃ reason, validateOr missing candidate =
        (⟨defaultDocument, some reason⟩, [fallbackEntry reason]) := by
  cases candidate with
  | none => exact .inr ⟨by rintro c d ⟨⟩, missing, rfl⟩
  | some c =>
      cases decided : accept c with
      | ok d =>
          obtain ⟨stated, submittable⟩ := accept_iff.mp decided
          exact .inl ⟨c, d, rfl, stated, submittable, validateOr_ok stated submittable⟩
      | error reason =>
          refine .inr ⟨?_, reason, ?_⟩
          · rintro c d ⟨⟩ stated submittable
            rw [accept_iff.mpr ⟨stated, submittable⟩] at decided
            cases decided
          · unfold validateOr
            simp only [decided]

theorem validateOr_submittable (missing : FallbackReason) (candidate : Option Candidate) :
    (validateOr missing candidate).1.document.Submittable := by
  obtain ⟨c, d, -, -, submittable, accepted⟩ | ⟨-, reason, refused⟩ :=
    validateOr_cases missing candidate
  · rw [accepted]
    exact submittable
  · rw [refused]
    exact defaultDocument_submittable

/-- Validation ends with a submittable document.  That is what the candidate
    says of its parts if this is a submittable document, and the candidate is
    accepted exactly then; otherwise it is the default document.  Validating it
    again changes nothing. -/
theorem validateOr_settles (missing : FallbackReason) (candidate : Option Candidate) :
    (validateOr missing candidate).1.document.Submittable ∧
    (∀ d, (validateOr missing candidate).1 = ⟨d, none⟩ ↔
      ∃ c, candidate = some c ∧ coerce c = .ofDocument d ∧ d.Submittable) ∧
    ((validateOr missing candidate).1.fallback = none ∨
      (validateOr missing candidate).1.document = defaultDocument) ∧
    validateOr missing (some (.ofDocument (validateOr missing candidate).1.document)) =
      (⟨(validateOr missing candidate).1.document, none⟩, []) := by
  have again : ∀ d : Document, d.Submittable →
      validateOr missing (some (.ofDocument d)) = (⟨d, none⟩, []) :=
    fun d submittable => validateOr_ok (coerce_submittable submittable) submittable
  refine ⟨validateOr_submittable missing candidate, ?_⟩
  obtain ⟨c, d, rfl, stated, submittable, accepted⟩ | ⟨unfit, reason, refused⟩ :=
    validateOr_cases missing candidate
  · rw [accepted]
    refine ⟨fun d' => ?_, .inl rfl, again d submittable⟩
    constructor
    · rintro ⟨⟩
      exact ⟨c, rfl, stated, submittable⟩
    · rintro ⟨c', ⟨⟩, stated', -⟩
      rw [Candidate.ofDocument_inj (stated.symm.trans stated')]
  · rw [refused]
    refine ⟨fun d => ?_, .inr rfl, again _ defaultDocument_submittable⟩
    constructor
    · rintro ⟨⟩
    · rintro ⟨c, present, stated, submittable⟩
      exact absurd submittable (unfit c d present stated)

end Strategy

end StrategyQubo
