import StrategyQubo.Proofs.BlockScopes
import StrategyQubo.Proofs.Traces

namespace StrategyQubo.Script

open Eval

/-! # Kept names

A block that runs in a scope of a function leaves it the names that it had, and
what is declared inside is not found any more, if declarations stand in braces.
-/

/-! ## Looking up names -/

namespace Machine

variable {may : ScopeId → String → Prop} {m after : Machine} {name : String} {scope : ScopeId}

theorem Gains.binds (gains : m.Gains may after) (made : scope < m.scopes.size)
    (before : (m.scopeAt scope).binds name = true) : (after.scopeAt scope).binds name = true := by
  obtain ⟨gained, names, -⟩ := gains.names scope made
  rw [Scope.binds_iff, names]
  exact List.mem_append_left _ ((Scope.binds_iff _ name).mp before)

theorem Gains.may_of_binds (gains : m.Gains may after) (made : scope < m.scopes.size)
    (missing : (m.scopeAt scope).binds name = false)
    (since : (after.scopeAt scope).binds name = true) : may scope name := by
  obtain ⟨gained, names, allowed⟩ := gains.names scope made
  rw [Scope.binds_iff, names, List.mem_append] at since
  refine allowed name (since.resolve_left fun before => ?_)
  rw [(Scope.binds_iff _ name).mpr before] at missing
  cases missing

/-- A name that no scope may gain but the global one is found where it was, or it
    was found nowhere and has become global. -/
theorem Gains.resolveWithin (gains : m.Gains may after) (arena : m.Arena)
    (never : ∀ scope < m.scopes.size, scope ≠ globalScope → ¬ may scope name)
    {bound bound' : Nat} (enough : scope < bound) (enough' : scope < bound')
    (made : scope < m.scopes.size) :
    after.resolveWithin name bound' scope = m.resolveWithin name bound scope ∨
    m.resolveWithin name bound scope = none ∧
      after.resolveWithin name bound' scope = some globalScope ∧ may globalScope name := by
  induction bound generalizing scope bound' with
  | zero => exact absurd enough (Nat.not_lt_zero scope)
  | succ bound ih =>
      obtain ⟨bound', rfl⟩ := Nat.exists_eq_add_one.mpr (Nat.zero_lt_of_lt enough')
      have found : m.scopes[scope]? = some m.scopes[scope] := Array.getElem?_eq_getElem made
      have here := scopeAt_of_found found
      obtain ⟨s', found', parent, -⟩ := gains.later.scope found
      rw [← here] at parent found
      rw [← scopeAt_of_found found'] at parent
      simp only [Machine.resolveWithin, parent]
      cases before : (m.scopeAt scope).binds name with
      | true => exact .inl (by rw [gains.binds made before, if_pos rfl, if_pos rfl])
      | false =>
          cases since : (after.scopeAt scope).binds name with
          | true =>
              have gained := gains.may_of_binds made before since
              have global : scope = globalScope :=
                Classical.not_not.mp fun inner => never scope made inner gained
              subst global
              obtain ⟨root, found', alone⟩ := arena.root
              rw [scopeAt_of_found found', alone]
              exact .inr ⟨rfl, rfl, gained⟩
          | false =>
              cases outer : (m.scopeAt scope).parent with
              | none => exact .inl rfl
              | some outer' =>
                  have older := arena.parent_lt found outer
                  exact ih (Nat.lt_of_lt_of_le older (Nat.le_of_lt_succ enough))
                    (Nat.lt_of_lt_of_le older (Nat.le_of_lt_succ enough')) (Nat.lt_trans older made)

/-- A name that no scope may gain but the global one is found where it was, or it
    was found nowhere and has become global. -/
theorem Gains.resolve (gains : m.Gains may after) (arena : m.Arena)
    (never : ∀ scope < m.scopes.size, scope ≠ globalScope → ¬ may scope name)
    (made : scope < m.scopes.size) :
    after.resolve scope name = m.resolve scope name ∨
    m.resolve scope name = none ∧ after.resolve scope name = some globalScope ∧
      may globalScope name :=
  gains.resolveWithin arena never made (Nat.lt_of_lt_of_le made gains.grown) made

end Machine

/-- Behind what is evaluated the scope has the names that it had, up to exposed
    ones.  All other names are found from there where they were found before, if
    they were, and else if something has been assigned to them. -/
structure Ledger.KeepsNames {α : Type} (m : Machine) (scope : ScopeId) (exposed : List String)
    (ledger : Ledger α) : Prop where
  names : ∃ gained, gained ⊆ exposed ∧
    (ledger.outcome.machine.scopeAt scope).names = (m.scopeAt scope).names ++ gained
  resolve : ∀ name ∉ exposed,
    ledger.outcome.machine.resolve scope name = m.resolve scope name ∨
    m.resolve scope name = none ∧ name ∈ assignedIn ledger.events ∧
      ledger.outcome.machine.resolve scope name = some globalScope

namespace Ledger

variable {α : Type} {m : Machine} {scope : ScopeId} {ledger : Ledger α}

theorem KeepsNames.names_eq (keeps : ledger.KeepsNames m scope []) :
    (ledger.outcome.machine.scopeAt scope).names = (m.scopeAt scope).names := by
  obtain ⟨gained, none, names⟩ := keeps.names
  rw [names, List.subset_nil.mp none, List.append_nil]

/-- What a block may bind: whatever it likes in the scopes that it makes, and
    what it exposes in the one in which it runs. -/
def Owns (m : Machine) (scope : ScopeId) (exposed : List String) (inner : ScopeId)
    (name : String) : Prop :=
  m.scopes.size ≤ inner ∨ inner = scope ∧ name ∈ exposed

theorem Gains.keepsNames {exposed : List String} (gains : ledger.Gains (Owns m scope exposed) m)
    (arena : m.Arena) (made : scope < m.scopes.size) (inner : scope ≠ globalScope) :
    ledger.KeepsNames m scope exposed where
  names := by
    obtain ⟨gained, names, allowed⟩ := gains.names scope made
    refine ⟨gained, fun name member => ?_, names⟩
    rcases allowed name member with (new | ⟨-, exposes⟩) | ⟨global, -⟩
    · exact absurd made (Nat.not_lt_of_le new)
    · exact exposes
    · exact absurd global inner
  resolve name hidden := by
    have unowned (old : ScopeId) (made : old < m.scopes.size) :
        ¬ Owns m scope exposed old name := by
      rintro (new | ⟨-, exposes⟩)
      · exact absurd made (Nat.not_lt_of_le new)
      · exact hidden exposes
    have never (old : ScopeId) (made : old < m.scopes.size) (inner : old ≠ globalScope) :
        ¬ MayGain (Owns m scope exposed) ledger.events old name := by
      rintro (owned | ⟨global, -⟩)
      · exact unowned old made owned
      · exact inner global
    rcases Machine.Gains.resolve gains arena never made with same | ⟨unfound, found, may⟩
    · exact .inl same
    · refine .inr ⟨unfound, ?_, found⟩
      rcases may with owned | ⟨-, assigned⟩
      · exact absurd owned (unowned _ (Nat.zero_lt_of_lt made))
      · exact assigned

end Ledger

/-- However a block ends that runs in a scope of a function, it leaves that scope
    its names, up to those that it exposes; what it declares otherwise is not found
    from there.  So does the body of a try statement, and its finalizer, and a
    catch clause exposes nothing.  The scopes of every machine that a session
    reaches form an arena. -/
theorem blocks_keep_names {m : Machine} (arena : m.Arena) {scope : ScopeId}
    (made : scope < m.scopes.size) (inner : scope ≠ globalScope) (env : Environment) (rank : Nat)
    (under : List Task) (statements : List Stmt) :
    (Task.ledger rank under (.statement (.block statements) scope) env m).KeepsNames m scope
        (Stmt.exposedOfBlock statements) ∧
      ((runBlock statements scope).ledger (Task.ledger rank under) env m).KeepsNames m scope
        (Stmt.exposedOfBlock statements) ∧
      (∀ binding caught,
        ((runHandler binding statements scope caught).ledger (Task.ledger rank under) env m
          ).KeepsNames m scope []) ∧
      ((runFinalizer statements scope).ledger (Task.ledger rank under) env m).KeepsNames m scope
        (Stmt.exposedOfBlock statements) := by
  have fresh (exposed : List String) (new : ScopeId) (name : String) (later : m.scopes.size ≤ new) :
      Ledger.Owns m scope exposed new name := .inl later
  have tasks (exposed : List String) (part : Task) (m' : Machine)
      (contained : part.Contained (Ledger.Owns m scope exposed)) (room : m.scopes.size ≤ m'.scopes.size) :
      (part.ledger rank under env m').Gains (Ledger.Owns m scope exposed) m' :=
    Task.ledger_gains (fun _ => Task.rule_contained (fresh exposed)) rank under contained room
  have parts {α : Type} {eval : Eval α} {exposed : List String}
      (contained : eval.Contained env (Ledger.Owns m scope exposed) m.scopes.size) :
      (eval.ledger (Task.ledger rank under) env m).KeepsNames m scope exposed :=
    (Eval.ledger_gains (tasks exposed) (contained m (Nat.le_refl _)) (Nat.le_refl _)).1.keepsNames
      arena made inner
  have exposes (name : String) (member : name ∈ Stmt.exposedOfBlock statements) :
      Ledger.Owns m scope (Stmt.exposedOfBlock statements) scope name := .inr ⟨rfl, member⟩
  refine ⟨?_, ?_, fun binding caught => ?_, ?_⟩
  · exact (tasks _ (.statement (.block statements) scope) m exposes (Nat.le_refl _)).keepsNames
      arena made inner
  · exact parts (runBlock_contained (fresh _) exposes)
  · exact parts (runHandler_contained (fresh _) binding statements caught)
  · exact parts (runFinalizer_contained (fresh _) exposes)

/-! ## Braces -/

def callSettings : Environment :=
  ⟨{ stepBudget := 100 }, fun _ => 0⟩

/-- A machine that is in a call of a function with a variable. -/
def machineInCall : Machine :=
  { Machine.fresh callSettings.limits with
    scopes := #[⟨globalBindings, none, true⟩, ⟨[("x", ⟨.null, true⟩)], some globalScope, true⟩] }

/-- `if (true) { let x = false; } y = true; throw y;` -/
def braced : List Stmt :=
  [.ifElse (.bool true) (.block [.declaration .lexical [.declare "x" (some (.bool false))]]) none,
    .expression (.assign none (.identifier "y") (.bool true)),
    .throwValue (.identifier "y")]

/-- An error leaves the block, and the variable is found that was there before. -/
theorem blocks_keep_names_braced :
    machineInCall.Arena ∧
      let outcome :=
        (Task.ledger 20 [] (.statement (.block braced) 1) callSettings machineInCall).outcome
      outcome.error?.isSome = true ∧ (outcome.machine.scopeAt 1).names = ["x"] ∧
        outcome.machine.resolve 1 "x" = some 1 := by
  have arena : machineInCall.Arena := by
    refine ⟨⟨_, rfl, rfl⟩, fun scope s found positive => ?_⟩
    obtain rfl : scope = 1 := by
      have made : scope < 2 := (Array.getElem?_eq_some_iff.mp found).1
      exact Nat.le_antisymm (Nat.le_of_lt_succ made) positive
    cases found
    exact ⟨globalScope, rfl, positive⟩
  have made : 1 < machineInCall.scopes.size := by decide
  have keeps := (blocks_keep_names arena made (by decide) callSettings 20 [] braced).1
  refine ⟨arena, by decide +kernel, keeps.names_eq, ?_⟩
  have before : machineInCall.resolve 1 "x" = some 1 := by decide
  rcases keeps.resolve "x" List.not_mem_nil with same | ⟨unfound, -⟩
  · exact same.trans before
  · rw [before] at unfound
    cases unfound

/-- The body of the conditional is a declaration, and nothing directly in the block
    binds a name. -/
def unbraced : String :=
  "function f() \x7b \x7b if (true) let x = 1; \x7d return typeof x; \x7d var after = f();"

def unbracedEvents : List Event :=
  match Program.parse unbraced with
  | .ok program => (Errand.run program).events callSettings (.fresh callSettings.limits)
  | .error _ => []

/-- A block is entered in a scope of a function, which has these names before and
    those behind it. -/
def changesNames (names since : List String) (m : Machine) : Event → List Event → Bool
  | .entered (.statement (.block _) scope) _, later =>
      scope != globalScope && (m.scopeAt scope).names == names &&
        ((m.replay (untilLeft later 0)).scopeAt scope).names == since
  | _, _ => false

/-- What stands for the body of the conditional outlives the block. -/
theorem unbraced_outlives_block :
    ∃ program, Program.parse unbraced = .ok program ∧
      ∃ before statements scope under later,
        (Errand.run program).events callSettings (.fresh callSettings.limits) =
          before ++ .entered (.statement (.block statements) scope) under :: later ∧
        scope ≠ globalScope ∧
        let found := (Machine.fresh callSettings.limits).replay
          (before ++ [.entered (.statement (.block statements) scope) under])
        (found.scopeAt scope).names = [] ∧
          ((found.replay (untilLeft later 0)).scopeAt scope).names = ["x"] := by
  have changes : anyEvent (changesNames [] ["x"]) (.fresh callSettings.limits) unbracedEvents =
      true := by
    decide +kernel
  unfold unbracedEvents at changes
  cases parsed : Program.parse unbraced with
  | error error =>
      rw [parsed] at changes
      cases changes
  | ok program =>
      rw [parsed] at changes
      obtain ⟨before, event, later, split, changes⟩ := exists_split_of_anyEvent changes
      unfold changesNames at changes
      split at changes
      · simp only [Bool.and_eq_true, beq_iff_eq, bne_iff_ne] at changes
        obtain ⟨⟨inner, names⟩, since⟩ := changes
        exact ⟨program, rfl, before, _, _, _, later, split, inner, names, since⟩
      · cases changes

end StrategyQubo.Script
