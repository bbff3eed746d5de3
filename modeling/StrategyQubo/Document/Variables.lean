namespace StrategyQubo

/-! # Declared variables

A list of variables without repetition, in the order of their first
declaration.
-/

/-- The values of a decision variable: zero and one, or minus one and one. -/
inductive VariableKind where
  | binary
  | spin
  deriving DecidableEq, Repr

def VariableKind.name : VariableKind → String
  | binary => "Binary"
  | spin => "Spin"

def VariableKind.ofName? : String → Option VariableKind
  | "Binary" => some binary
  | "Spin" => some spin
  | _ => none

structure Variables where
  entries : List (String × VariableKind)
  distinct : (entries.map (·.1)).Nodup

namespace Variables

def empty : Variables := ⟨[], .nil⟩

def names (v : Variables) : List String :=
  v.entries.map (·.1)

def size (v : Variables) : Nat :=
  v.entries.length

def isEmpty (v : Variables) : Bool :=
  v.entries.isEmpty

def contains (v : Variables) (name : String) : Bool :=
  v.names.contains name

def get? (v : Variables) (name : String) : Option VariableKind :=
  v.entries.lookup name

theorem contains_iff_mem_names (v : Variables) (name : String) :
    v.contains name ↔ name ∈ v.names := by
  simp [contains]

/-- Declares a variable; a name that is declared already keeps its kind. -/
def register (v : Variables) (name : String) (kind : VariableKind) : Variables :=
  if declared : name ∈ v.names then
    v
  else
    { entries := v.entries ++ [(name, kind)]
      distinct := by
        simp only [List.map_append, List.map_cons, List.map_nil]
        refine List.nodup_append.2 ⟨v.distinct, by simp, ?_⟩
        intro old oldMem new newMem same
        simp only [List.mem_singleton] at newMem
        exact declared (newMem ▸ same ▸ oldMem) }

theorem names_register (v : Variables) (name : String) (kind : VariableKind) :
    (v.register name kind).names =
      if name ∈ v.names then v.names else v.names ++ [name] := by
  unfold register
  split <;> simp_all [names]

/-- Declares the variables of a list in order; of a repeated name only the
    first counts. -/
def ofList (entries : List (String × VariableKind)) : Variables :=
  entries.foldl (fun v (name, kind) => v.register name kind) empty

instance : BEq Variables := ⟨fun v w => v.entries == w.entries⟩

end Variables

end StrategyQubo
