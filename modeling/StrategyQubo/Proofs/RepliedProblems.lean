import Mathlib.Data.List.Nodup
import StrategyQubo.Proofs.FlipEnergy
import StrategyQubo.Proofs.TokenTexts
import StrategyQubo.Reply

namespace StrategyQubo

open StrategyQubo.Script

/-! # Problems in replies

A reply keeps the coefficients of a problem under printed pairs of names, in
the order of those texts.  Reading the pairs back declares the names in another
order, and no energy changes.
-/

/-! ## Printed pairs -/

/-- A name as a script may write it. -/
def Script.IsIdentifier (name : String) : Prop :=
  ∃ first rest, name.toList = first :: rest ∧ Scan.startsIdentifier first = true ∧
    ∀ c ∈ rest, Scan.continuesIdentifier c = true

theorem Script.IsIdentifier.noComma {name : String} (identifier : IsIdentifier name) :
    ∀ c ∈ name.toList, c ≠ ',' := by
  have breaker : Breaker ',' := breaker_of_mem (by simp)
  obtain ⟨first, rest, spelled, starts, continues⟩ := identifier
  rw [spelled]
  rintro c member rfl
  rcases List.mem_cons.mp member with rfl | later
  · exact Bool.false_ne_true (breaker.startsIdentifier_eq.symm.trans starts)
  · exact Bool.false_ne_true (breaker.noWord.symm.trans (continues _ later))

theorem Script.IsIdentifier.ne_nil {name : String} (identifier : IsIdentifier name) :
    name.toList ≠ [] := by
  obtain ⟨first, rest, spelled, -⟩ := identifier
  simp [spelled]

namespace Reply

/-- How a reply prints a pair of names. -/
def pairKey (names : String × String) : String :=
  "('" ++ names.1 ++ "', '" ++ names.2 ++ "')"

theorem between?_enclosed (first last : Char) (text : List Char) :
    between? first last (first :: text ++ [last]) = some text := by
  simp [between?]

theorem trim_enclosed {first last : Char} (start : Text.isBlank first = false)
    (stop : Text.isBlank last = false) (text : List Char) :
    Text.trimEnd (Text.trimStart (first :: text ++ [last])) = first :: text ++ [last] := by
  simp [Text.trimStart, Text.trimEnd, start, stop]

/-- Blanks before the quotes are no part of a name. -/
theorem unquote_quoted {blanks : List Char} (blank : ∀ c ∈ blanks, Text.isBlank c = true)
    (name : List Char) : unquote (blanks ++ ('\'' :: name ++ ['\''])) = name := by
  have quote : Text.isBlank '\'' = false := Scan.isBlank_of_ascii (by decide) (by decide)
  have started : Text.trimStart (blanks ++ ('\'' :: name ++ ['\''])) =
      Text.trimStart ('\'' :: name ++ ['\'']) :=
    List.dropWhile_append_of_pos blank
  rw [unquote, started, trim_enclosed quote quote, between?_enclosed]

/-- A printed pair is read as the pair, unless its first name has a comma. -/
theorem pair?_pairKey {names : String × String} (noComma : ∀ c ∈ names.1.toList, c ≠ ',')
    (first : names.1.toList ≠ []) (second : names.2.toList ≠ []) :
    pair? (pairKey names) = some names := by
  have parenOpen : Text.isBlank '(' = false := Scan.isBlank_of_ascii (by decide) (by decide)
  have parenClose : Text.isBlank ')' = false := Scan.isBlank_of_ascii (by decide) (by decide)
  have space : ∀ c ∈ [' '], Text.isBlank c = true := by
    simp [Text.isBlank, Text.inRanges, Text.blankRanges]
  have printed : (pairKey names).toList = '(' :: (('\'' :: names.1.toList ++ ['\'']) ++
      ',' :: ([' '] ++ ('\'' :: names.2.toList ++ ['\'']))) ++ [')'] := by
    simp [pairKey]
  have before : ∀ c ∈ '\'' :: names.1.toList ++ ['\''], (c != ',') = true := by
    intro c member
    rcases List.mem_append.mp member with inside | last
    · rcases List.mem_cons.mp inside with rfl | inside
      · decide
      · simpa using noComma c inside
    · rw [List.mem_singleton.mp last]
      decide
  have noBlanks : ∀ c ∈ [], Text.isBlank c = true := List.forall_mem_nil _
  have left : unquote ('\'' :: names.1.toList ++ ['\'']) = names.1.toList :=
    unquote_quoted noBlanks names.1.toList
  have right := unquote_quoted space names.2.toList
  rw [pair?, printed, trim_enclosed parenOpen parenClose, between?_enclosed]
  dsimp only
  rw [List.dropWhile_append_of_pos before, List.takeWhile_append_of_pos before]
  simp only [List.dropWhile_cons, List.takeWhile_cons, bne_self_eq_false, Bool.false_eq_true,
    if_false, List.append_nil, left, right, List.isEmpty_iff, first, second, Bool.or_eq_true,
    or_self, String.ofList_toList]

/-- Every key that can be read gives its pair. -/
theorem pairsOf_eq {coefficients : List (String × Float)} {named : String → String × String}
    (reads : ∀ entry ∈ coefficients, pair? entry.1 = some (named entry.1)) :
    pairsOf coefficients = .ok (coefficients.map fun entry => (named entry.1, entry.2)) := by
  induction coefficients with
  | nil => rfl
  | cons entry rest ih =>
      have later := ih fun other member => reads other (List.mem_cons_of_mem _ member)
      rw [pairsOf, reads entry List.mem_cons_self, later]
      rfl

end Reply

/-! ## Maps -/

namespace Sparse

variable {K R : Type} [DecidableEq K] [LT K] [DecidableLT K]

/-- What is put under a new key is one entry more. -/
theorem alter_perm {key : K} {entries : Sparse K R} (new : key ∉ entries.map (·.1)) (c : R) :
    (alter (fun _ => some c) key entries).Perm ((key, c) :: entries) := by
  induction entries with
  | nil => exact .refl _
  | cons entry rest ih =>
      obtain ⟨other, old⟩ := entry
      rw [List.map_cons, List.mem_cons, not_or] at new
      rw [alter, if_neg new.1]
      split
      · exact .refl _
      · exact ((ih new.2).cons _).trans (.swap _ _ _)

/-- A map that entries are put into one after the other. -/
def insertAll (entries : List (K × R)) (map : Sparse K R) : Sparse K R :=
  entries.foldl (fun map entry => alter (fun _ => some entry.2) entry.1 map) map

/-- Under different keys nothing is lost and nothing is put together. -/
theorem insertAll_perm {entries : List (K × R)} {map : Sparse K R}
    (distinct : ((entries ++ map).map (·.1)).Nodup) :
    (insertAll entries map).Perm (entries ++ map) := by
  induction entries generalizing map with
  | nil => exact .refl _
  | cons entry rest ih =>
      rw [List.cons_append, List.map_cons, List.nodup_cons, List.map_append, List.mem_append,
        not_or] at distinct
      have put := alter_perm distinct.1.2 entry.2
      have moved : (rest ++ alter (fun _ => some entry.2) entry.1 map).Perm
          (entry :: (rest ++ map)) := (put.append_left rest).trans List.perm_middle
      refine (ih ?_).trans moved
      rw [(moved.map (·.1)).nodup_iff, List.map_cons, List.nodup_cons, List.map_append,
        List.mem_append, not_or]
      exact distinct

end Sparse

/-! ## Problems from named pairs -/

namespace Qubo

variable {q q' : Qubo Rat} {name : String} {i : Nat}

/-- The value of the form where each variable has the bit of its name. -/
def namedValue (b : String → Bool) (q : Qubo Rat) : Rat :=
  q.value (assignmentOf (q.names.map b))

/-- The sum of coefficients under pairs of names that are both one. -/
def namedTotal (b : String → Bool) (pairs : List ((String × String) × Rat)) : Rat :=
  (pairs.map fun (names, c) => c * (bitValue (b names.1) * bitValue (b names.2))).sum

theorem assignmentOf_names (b : String → Bool) {names : List String}
    (found : names[i]? = some name) :
    assignmentOf (names.map b) i = b name := by
  simp [assignmentOf, List.getD_eq_getElem?_getD, found]

/-- The form does not depend on variables that it has no terms for. -/
theorem value_congr {x y : Nat → Bool} {size : Nat} (within : q.Within size)
    (same : ∀ i < size, x i = y i) : q.value x = q.value y := by
  refine congrArg (· + q.offset) (congrArg List.sum (List.map_congr_left fun term member => ?_))
  have high := within term member
  rw [Pair.value, Pair.value, same _ high, same _ (lt_of_le_of_lt term.1.ordered high)]

theorem energy?_names (within : q.Within q.size) (b : String → Bool) :
    q.energy? (q.names.map b) = some (q.namedValue b) := by
  refine energy?_eq ?_
  rw [List.length_map]
  exact within

/-- A problem in which this is the index of the name, and which has at most that
    one name more. -/
structure Interned (q : Qubo Rat) (name : String) (i : Nat) (q' : Qubo Rat) : Prop where
  terms : q'.terms = q.terms ∧ q'.offset = q.offset
  found : q'.names[i]? = some name
  kept : q.names <+: q'.names
  names : ∀ other, other ∈ q'.names ↔ other ∈ q.names ∨ other = name
  distinct : q.names.Nodup → q'.names.Nodup

theorem intern_interned (q : Qubo Rat) (name : String) :
    q.Interned name (q.intern name).1 (q.intern name).2 := by
  unfold intern
  cases found : q.indexOf? name with
  | some index =>
      obtain ⟨within, same, -⟩ := List.idxOf?_eq_some_iff.mp found
      have member : name ∈ q.names := same ▸ List.getElem_mem within
      refine ⟨⟨rfl, rfl⟩, ?_, List.prefix_rfl, ?_, id⟩
      · rw [List.getElem?_eq_getElem within, same]
      · rintro other
        exact ⟨.inl, fun either => either.elim id fun same => same ▸ member⟩
  | none =>
      have absent : name ∉ q.names := List.idxOf?_eq_none_iff.mp found
      refine ⟨⟨rfl, rfl⟩, by simp [size], List.prefix_append _ _, by simp, fun distinct => ?_⟩
      exact List.nodup_append.mpr ⟨distinct, by simp, by
        rintro old member new single rfl
        exact absent (List.mem_singleton.mp single ▸ member)⟩

theorem Interned.within (interned : q.Interned name i q') (within : q.Within q.size) :
    q'.Within q'.size := by
  intro term member
  rw [interned.terms.1] at member
  exact lt_of_lt_of_le (within term member) interned.kept.length_le

theorem Interned.lt_size (interned : q.Interned name i q') : i < q'.size :=
  (List.getElem?_eq_some_iff.mp interned.found).1

theorem Interned.namedValue_eq (interned : q.Interned name i q') (within : q.Within q.size)
    (b : String → Bool) : q'.namedValue b = q.namedValue b := by
  obtain ⟨more, names⟩ := interned.kept
  have same : ∀ x, value x q' = value x q := fun x => by
    rw [value, value, interned.terms.1, interned.terms.2]
  rw [namedValue, namedValue, same]
  refine value_congr within fun i below => ?_
  have old : q.names[i]? = some q.names[i] := List.getElem?_eq_getElem below
  have new : q'.names[i]? = some q.names[i] := by
    rw [← names, List.getElem?_append_left below, old]
  rw [assignmentOf_names b old, assignmentOf_names b new]

/-- What adding named pairs leads to: the problem has their names, each once,
    and their sum in its form. -/
structure Added (q : Qubo Rat) (pairs : List ((String × String) × Rat)) (q' : Qubo Rat) :
    Prop where
  within : q'.Within q'.size
  distinct : q'.names.Nodup
  offset : q'.offset = q.offset
  names : ∀ other, other ∈ q'.names ↔
    other ∈ q.names ∨ ∃ entry ∈ pairs, other = entry.1.1 ∨ other = entry.1.2
  value : ∀ b, q'.namedValue b = q.namedValue b + namedTotal b pairs

theorem addPair_added (within : q.Within q.size) (distinct : q.names.Nodup)
    (pair : String × String) (c : Rat) : q.Added [(pair, c)] (q.addPair pair c) := by
  have first := q.intern_interned pair.1
  have second := (q.intern pair.1).2.intern_interned pair.2
  have low : ((q.intern pair.1).2.intern pair.2).2.names[(q.intern pair.1).1]? =
      some pair.1 := by
    obtain ⟨more, longer⟩ := second.kept
    rw [← longer, List.getElem?_append_left first.lt_size, first.found]
  have lowWithin := (List.getElem?_eq_some_iff.mp low).1
  refine ⟨?_, second.distinct (first.distinct distinct), ?_, fun other => ?_, fun b => ?_⟩
  · exact (second.within (first.within within)).addTerm lowWithin second.lt_size c
  · exact second.terms.2.trans first.terms.2
  · change other ∈ ((q.intern pair.1).2.intern pair.2).2.names ↔ _
    simp [second.names, first.names, or_assoc]
  · have added := value_addTerm (q := ((q.intern pair.1).2.intern pair.2).2)
      (assignmentOf (((q.intern pair.1).2.intern pair.2).2.names.map b)) (q.intern pair.1).1
      ((q.intern pair.1).2.intern pair.2).1 c
    rw [assignmentOf_names b low, assignmentOf_names b second.found] at added
    rw [← first.namedValue_eq within, ← second.namedValue_eq (first.within within), namedTotal,
      List.map_singleton, List.sum_singleton]
    exact added

theorem foldl_addPair (pairs : List ((String × String) × Rat)) (within : q.Within q.size)
    (distinct : q.names.Nodup) :
    q.Added pairs (pairs.foldl (fun q (names, c) => q.addPair names c) q) := by
  induction pairs generalizing q with
  | nil => exact ⟨within, distinct, rfl, by simp, by simp [namedTotal]⟩
  | cons entry rest ih =>
      obtain ⟨pair, c⟩ := entry
      have added := addPair_added within distinct pair c
      have all := ih added.within added.distinct
      refine ⟨all.within, all.distinct, all.offset.trans added.offset, fun other => ?_,
        fun b => ?_⟩
      · rw [List.foldl_cons, all.names, added.names]
        simp [or_assoc]
      · rw [List.foldl_cons, all.value, added.value]
        simp [namedTotal, add_assoc]

theorem ofPairs_within (pairs : List ((String × String) × Rat)) (offset : Rat) :
    (ofPairs pairs offset).Within (ofPairs pairs offset).size :=
  (foldl_addPair pairs (q := ofVariables []) nofun List.nodup_nil).within

theorem ofPairs_nodup (pairs : List ((String × String) × Rat)) (offset : Rat) :
    (ofPairs pairs offset).names.Nodup :=
  (foldl_addPair pairs (q := ofVariables []) nofun List.nodup_nil).distinct

theorem mem_ofPairs_names {pairs : List ((String × String) × Rat)} {offset : Rat} :
    name ∈ (ofPairs pairs offset).names ↔
      ∃ entry ∈ pairs, name = entry.1.1 ∨ name = entry.1.2 := by
  have all := foldl_addPair pairs (q := ofVariables []) nofun List.nodup_nil
  exact (all.names name).trans (by simp [ofVariables])

theorem ofPairs_value (pairs : List ((String × String) × Rat)) (offset : Rat)
    (b : String → Bool) :
    (ofPairs pairs offset).namedValue b = namedTotal b pairs + offset := by
  have all := foldl_addPair pairs (q := ofVariables []) nofun List.nodup_nil
  have zero : (ofVariables [] : Qubo Rat).namedValue b = 0 := by
    simp [namedValue, value, ofVariables, Sparse.total]
  have total := all.value b
  rw [zero, zero_add] at total
  rw [← total]
  simp only [namedValue, value, ofPairs, all.offset]
  simp [ofVariables]

/-- The names do not depend on the coefficients. -/
theorem ofPairs_names_congr {R S : Type} [Coefficient R] [Coefficient S] (f : R → S)
    (pairs : List ((String × String) × R)) (offset : R) (other : S) :
    (ofPairs (pairs.map fun (names, c) => (names, f c)) other).names =
      (ofPairs pairs offset).names := by
  have interned : ∀ (q : Qubo R) (q' : Qubo S) (name : String), q'.names = q.names →
      (q'.intern name).2.names = (q.intern name).2.names := by
    intro q q' name same
    unfold intern indexOf?
    rw [same]
    cases q.names.idxOf? name <;> simp [same]
  have folded : ∀ (q : Qubo R) (q' : Qubo S), q'.names = q.names →
      ((pairs.map fun (names, c) => (names, f c)).foldl
          (fun q (names, c) => q.addPair names c) q').names =
        (pairs.foldl (fun q (names, c) => q.addPair names c) q).names := by
    induction pairs with
    | nil => exact fun q q' same => same
    | cons entry rest ih =>
        intro q q' same
        exact ih _ _ (interned _ _ _ (interned _ _ _ same))
  exact folded (ofVariables []) (ofVariables []) rfl

end Qubo

/-! ## Writing a problem as a reply -/

namespace Qubo

/-- The names of the two variables of a term. -/
def namesOf {R : Type} (q : Qubo R) (pair : Pair) : String × String :=
  (q.names.getD pair.low "", q.names.getD pair.high "")

/-- The reply that keeps each term under the names of its variables. -/
def toReply (q : Qubo Float) (explanation : Option Explanation) : Reply where
  coefficients :=
    Sparse.insertAll (q.terms.map fun (pair, c) => (Reply.pairKey (q.namesOf pair), c)) []
  offset := q.offset
  explanation := explanation

/-- Pairs with the exact values of their coefficients. -/
def exactPairs (pairs : List ((String × String) × Float)) : List ((String × String) × Rat) :=
  pairs.map fun (names, c) => (names, Coefficient.ofFloat c)

/-- The problem with the exact values of its coefficients. -/
def exact (q : Qubo Float) : Qubo Rat where
  names := q.names
  terms := q.terms.map fun (pair, c) => (pair, Coefficient.ofFloat c)
  offset := Coefficient.ofFloat q.offset

section

variable {q : Qubo Float} {pair other : Pair}

theorem namesOf_eq (low : pair.low < q.names.length) (high : pair.high < q.names.length) :
    q.namesOf pair = (q.names[pair.low], q.names[pair.high]) := by
  simp [namesOf, List.getD_eq_getElem?_getD, low, high]

/-- Different pairs of variables have different pairs of names. -/
theorem namesOf_injective (distinct : q.names.Nodup) (within : pair.high < q.names.length)
    (within' : other.high < q.names.length) (same : q.namesOf pair = q.namesOf other) :
    pair = other := by
  rw [namesOf_eq (lt_of_le_of_lt pair.ordered within) within,
    namesOf_eq (lt_of_le_of_lt other.ordered within') within', Prod.mk.injEq,
    List.Nodup.getElem_inj_iff distinct, List.Nodup.getElem_inj_iff distinct] at same
  cases pair
  cases other
  simpa using same

theorem pair?_namesOf (identifiers : ∀ name ∈ q.names, IsIdentifier name)
    (within : pair.high < q.names.length) :
    Reply.pair? (Reply.pairKey (q.namesOf pair)) = some (q.namesOf pair) := by
  have below := lt_of_le_of_lt pair.ordered within
  rw [namesOf_eq below within]
  have first := identifiers _ (List.getElem_mem below)
  have second := identifiers _ (List.getElem_mem within)
  exact Reply.pair?_pairKey first.noComma first.ne_nil second.ne_nil

/-- No two terms have the same key. -/
theorem keys_distinct (distinct : q.names.Nodup)
    (identifiers : ∀ name ∈ q.names, IsIdentifier name) (sorted : q.terms.IsSorted)
    (within : ∀ term ∈ q.terms, term.1.high < q.names.length) :
    (q.terms.map fun term => Reply.pairKey (q.namesOf term.1)).Nodup := by
  refine List.pairwise_map.mpr (sorted.imp_of_mem ?_)
  intro term other member member' before same
  have names : q.namesOf term.1 = q.namesOf other.1 :=
    Option.some.inj ((pair?_namesOf identifiers (within term member)).symm.trans
      ((congrArg Reply.pair? same).trans (pair?_namesOf identifiers (within other member'))))
  have pairs := namesOf_injective distinct (within term member) (within other member') names
  exact irrefl_of (· < ·) other.1 (pairs ▸ before)

theorem coefficients_toReply (distinct : q.names.Nodup)
    (identifiers : ∀ name ∈ q.names, IsIdentifier name) (sorted : q.terms.IsSorted)
    (within : ∀ term ∈ q.terms, term.1.high < q.names.length)
    (explanation : Option Explanation) :
    (q.toReply explanation).coefficients.Perm
      (q.terms.map fun (pair, c) => (Reply.pairKey (q.namesOf pair), c)) := by
  let entry (term : Pair × Float) : String × Float :=
    (Reply.pairKey (q.namesOf term.1), term.2)
  have apart : ((q.terms.map entry ++ []).map Prod.fst).Nodup := by
    rw [List.append_nil, List.map_map]
    exact keys_distinct distinct identifiers sorted within
  have put := Sparse.insertAll_perm apart
  rwa [List.append_nil] at put

/-- The pairs of a reply are those of the terms, in another order. -/
theorem pairs_toReply (distinct : q.names.Nodup)
    (identifiers : ∀ name ∈ q.names, IsIdentifier name) (sorted : q.terms.IsSorted)
    (within : ∀ term ∈ q.terms, term.1.high < q.names.length)
    (explanation : Option Explanation) :
    ∃ pairs, (q.toReply explanation).pairs = .ok pairs ∧
      pairs.Perm (q.terms.map fun (pair, c) => (q.namesOf pair, c)) := by
  have kept := coefficients_toReply distinct identifiers sorted within explanation
  let named (key : String) : String × String := (Reply.pair? key).getD ("", "")
  have reads : ∀ term ∈ q.terms,
      Reply.pair? (Reply.pairKey (q.namesOf term.1)) = some (q.namesOf term.1) :=
    fun term member => pair?_namesOf identifiers (within term member)
  have read : (q.toReply explanation).pairs =
      .ok ((q.toReply explanation).coefficients.map fun entry => (named entry.1, entry.2)) := by
    refine Reply.pairsOf_eq fun entry member => ?_
    obtain ⟨term, found, rfl⟩ := List.mem_map.mp (kept.mem_iff.mp member)
    simp only [named, reads term found, Option.getD_some]
  refine ⟨_, read, (kept.map _).trans (.of_eq ?_)⟩
  rw [List.map_map]
  refine List.map_congr_left fun term member => ?_
  simp only [Function.comp_apply, named, reads term member, Option.getD_some]

theorem exact_within (within : ∀ term ∈ q.terms, term.1.high < q.names.length) :
    q.exact.Within q.exact.size := by
  intro term member
  obtain ⟨old, found, rfl⟩ := List.mem_map.mp member
  exact within old found

/-- The names of the terms are those of the variables that occur in them. -/
theorem mem_names_iff (within : ∀ term ∈ q.terms, term.1.high < q.names.length)
    (used : ∀ i < q.names.length, ∃ term ∈ q.terms, term.1.low = i ∨ term.1.high = i)
    (name : String) :
    name ∈ q.names ↔
      ∃ term ∈ q.terms, name = (q.namesOf term.1).1 ∨ name = (q.namesOf term.1).2 := by
  constructor
  · intro member
    obtain ⟨i, below, rfl⟩ := List.getElem_of_mem member
    obtain ⟨term, found, low | high⟩ := used i below
    · exact ⟨term, found, .inl (by simp [namesOf, low, below])⟩
    · exact ⟨term, found, .inr (by simp [namesOf, high, below])⟩
  · rintro ⟨term, found, either⟩
    have high := within term found
    rw [namesOf_eq (lt_of_le_of_lt term.1.ordered high) high] at either
    rcases either with rfl | rfl <;> exact List.getElem_mem _

theorem namedTotal_terms (within : ∀ term ∈ q.terms, term.1.high < q.names.length)
    (b : String → Bool) :
    namedTotal b (exactPairs (q.terms.map fun (pair, c) => (q.namesOf pair, c))) +
      q.exact.offset = q.exact.namedValue b := by
  rw [namedValue, value, namedTotal, exactPairs, exact, Sparse.total, List.map_map, List.map_map,
    List.map_map]
  refine congrArg (List.sum · + _) (List.map_congr_left fun term member => ?_)
  have high := within term member
  have low := lt_of_le_of_lt term.1.ordered high
  simp only [Function.comp_apply, Pair.value, namesOf_eq low high]
  rw [assignmentOf_names b (List.getElem?_eq_getElem low),
    assignmentOf_names b (List.getElem?_eq_getElem high)]

end

/-- A problem whose variables are different identifiers, each of them in some
    term, is read back from its reply: with the same names and the same energy
    of every assignment to them. -/
theorem toReply_reads_back {q : Qubo Float} (distinct : q.names.Nodup)
    (identifiers : ∀ name ∈ q.names, IsIdentifier name) (sorted : q.terms.IsSorted)
    (within : ∀ term ∈ q.terms, term.1.high < q.names.length)
    (used : ∀ i < q.names.length, ∃ term ∈ q.terms, term.1.low = i ∨ term.1.high = i)
    (explanation : Option Explanation) :
    ∃ pairs, (q.toReply explanation).pairs = .ok pairs ∧
      (ofPairs pairs q.offset).names.Perm q.names ∧
      (ofPairs pairs q.offset).names.Nodup ∧
      ∀ b : String → Bool, ∃ energy,
        q.exact.energy? (q.names.map b) = some energy ∧
        (ofPairs (exactPairs pairs) q.exact.offset).energy?
          ((ofPairs pairs q.offset).names.map b) = some energy := by
  obtain ⟨pairs, read, kept⟩ := pairs_toReply distinct identifiers sorted within explanation
  have names : (ofPairs (exactPairs pairs) q.exact.offset).names = (ofPairs pairs q.offset).names :=
    ofPairs_names_congr Coefficient.ofFloat pairs q.offset q.exact.offset
  have nodup : (ofPairs pairs q.offset).names.Nodup := names ▸ ofPairs_nodup _ _
  have exactKept : (exactPairs pairs).Perm
      (exactPairs (q.terms.map fun (pair, c) => (q.namesOf pair, c))) := kept.map _
  refine ⟨pairs, read, ?names, nodup, fun b => ⟨q.exact.namedValue b, ?written, ?back⟩⟩
  case names =>
    refine (List.perm_ext_iff_of_nodup nodup distinct).mpr fun name => ?_
    have members : (∃ entry ∈ exactPairs pairs, name = entry.1.1 ∨ name = entry.1.2) ↔
        ∃ term ∈ q.terms, name = (q.namesOf term.1).1 ∨ name = (q.namesOf term.1).2 := by
      simp only [exactKept.mem_iff]
      simp [exactPairs]
    rw [← names, mem_ofPairs_names, members, mem_names_iff within used]
  case written =>
    exact energy?_names (exact_within within) b
  case back =>
    rw [← names, energy?_names (ofPairs_within _ _), ofPairs_value, namedTotal,
      (exactKept.map _).sum_eq, ← namedTotal, namedTotal_terms within]

/-- The keys of this problem sort its last variable to the front. -/
def crossed : Qubo Float where
  names := ["x1", "x0", "a_"]
  terms := [(.of 0 0, -1), (.of 0 1, 2), (.of 2 2, 0)]
  offset := 3

theorem toReply_reads_back_crossed :
    ∃ pairs, (crossed.toReply none).pairs = .ok pairs ∧
      (ofPairs pairs crossed.offset).names.Perm ["x1", "x0", "a_"] ∧
      ∀ b : String → Bool, ∃ energy,
        crossed.exact.energy? [b "x1", b "x0", b "a_"] = some energy ∧
        (ofPairs (exactPairs pairs) crossed.exact.offset).energy?
          ((ofPairs pairs crossed.offset).names.map b) = some energy := by
  have identifiers : ∀ name ∈ crossed.names, IsIdentifier name := by
    intro name member
    have spelled : name = "x1" ∨ name = "x0" ∨ name = "a_" := by
      simpa [crossed] using member
    rcases spelled with rfl | rfl | rfl
    · exact ⟨'x', ['1'], by decide, by decide, List.forall_mem_singleton.mpr (by decide)⟩
    · exact ⟨'x', ['0'], by decide, by decide, List.forall_mem_singleton.mpr (by decide)⟩
    · exact ⟨'a', ['_'], by decide, by decide, List.forall_mem_singleton.mpr (by decide)⟩
  have sorted : crossed.terms.IsSorted := by
    unfold Sparse.IsSorted
    decide
  obtain ⟨pairs, read, names, -, energies⟩ := toReply_reads_back (q := crossed) (by decide)
    identifiers sorted (by decide) (by decide) none
  exact ⟨pairs, read, names, energies⟩

end Qubo

end StrategyQubo
