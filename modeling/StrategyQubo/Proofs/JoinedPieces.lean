import Mathlib.Data.List.Forall2
import StrategyQubo.Proofs.Granting
import StrategyQubo.Proofs.Unhindered
import StrategyQubo.Proofs.WholeTexts

namespace StrategyQubo.Script

/-! # The pieces of a joined array

A script joins an array in two ways.  A comma leaves it to string conversion,
which begins at the array itself; any other separator has each element converted
for itself.  The pieces are the same unless an element leads back to the array.
-/

/-! ## Joining -/

inductive Joining where
  /-- The method, with a separator first if one is given. -/
  | method (arguments : List Value)
  /-- String conversion. -/
  | conversion

namespace Joining

def separator (h : Heap) : Joining → String
  | method arguments =>
      match argument arguments 0 with
      | .undefined => ","
      | given => given.display h
  | conversion => ","

/-- The function that joins the array; a bound method has an identity. -/
def function (identity : Nat) (ref : ArrayRef) : Joining → Value
  | method _ => .bound identity (.array ref .join)
  | conversion => .builtin .toText

def arguments (ref : ArrayRef) : Joining → List Value
  | method arguments => arguments
  | conversion => [.array ref]

/-- The call succeeds with the answer on some machine that has this heap. -/
def Answers (joining : Joining) (h : Heap) (ref : ArrayRef) (answer : Value) : Prop :=
  ∃ rank identity env m after, m.heap = h ∧
    Task.evaluate rank (.call (joining.function identity ref) (joining.arguments ref)) env m =
      .ok answer after

end Joining

/-! ## Pieces -/

/-- A row can be read if each of its items can. -/
theorem mapM_eq_some_iff {α β : Type} {f : α → Option β} {items : List α} {found : List β} :
    items.mapM f = some found ↔ List.Forall₂ (fun item b => f item = some b) items found := by
  induction items generalizing found with
  | nil => cases found <;> simp
  | cons item rest ih =>
      rw [List.mapM_cons]
      cases read : f item with
      | none => cases found <;> simp [read]
      | some first => cases found <;> simp [read, ← ih, Option.bind_eq_some_iff, and_comm]

/-- An element converted for itself. -/
def pieceApart? (h : Heap) (ref : ArrayRef) (item : Value) : Option String :=
  if item.isNullish || item.strictEquals (.array ref) then some "" else item.text? h

/-- An element converted as a part of the array. -/
def pieceWithin? (h : Heap) (ref : ArrayRef) (item : Value) : Option String :=
  Display.elementText? (Display.text? h (maxDisplayDepth - 1) [.array ref]) item

section

variable {answer : (task : Task) → Action task.Answer} {env : Environment} {m after : Machine}
  {ref : ArrayRef} {separator : String}

theorem Outcome.exists_of_mapMachine_eq_ok {α : Type} {outcome : Outcome α}
    {change : Machine → Machine} {value : α} (ran : outcome.mapMachine change = .ok value after) :
    ∃ ended, outcome = .ok value ended := by
  cases outcome with
  | ok found ended =>
      cases ran
      exact ⟨ended, rfl⟩
  | error error ended => cases ran

theorem Eval.exists_of_bind_eq_ok {α β : Type} {first : Eval α} {next : α → Eval β} {value : β}
    (ran : (first >>= next).run answer env m = .ok value after) :
    ∃ found middle, first.run answer env m = .ok found middle ∧
      (next found).run answer env middle = .ok value after := by
  rw [Eval.run_bind] at ran
  exact Outcome.exists_of_andThen_eq_ok ran

theorem stringify_eq_ok {value : Value} {text : String}
    (ran : (Eval.stringify value).run answer env m = .ok text after) :
    value.text? m.heap = some text ∧ after = m := by
  rw [Eval.stringify, Eval.run_operate] at ran
  simp only [Operation.run, Action.stringify] at ran
  split at ran
  · next shown =>
    cases ran
    exact ⟨(Value.displayWithin_eq_ok_iff.mp shown).1, rfl⟩
  · cases ran
  · cases ran

theorem checkLength_eq_ok {requested : Nat} {done : Unit}
    (ran : (Eval.checkLength requested).run answer env m = .ok done after) : after = m := by
  rw [Eval.checkLength, Eval.run_operate] at ran
  simp only [Operation.run, Action.checkLength] at ran
  split at ran
  · cases ran
  · cases ran
    rfl

theorem joinPiece_eq_ok {item : Value} {text : String}
    (ran : (joinPiece (.array ref) item).run answer env m = .ok text after) :
    pieceApart? m.heap ref item = some text ∧ after = m := by
  unfold joinPiece at ran
  unfold pieceApart?
  split at ran
  · next none =>
    cases ran
    exact ⟨if_pos none, rfl⟩
  · next solid =>
    rw [if_neg solid]
    exact stringify_eq_ok ran

theorem joinLater_eq_ok {items : List Value} {before text : String}
    (ran : (joinLater (.array ref) separator items before).run answer env m = .ok text after) :
    after = m ∧ ∃ pieces, items.mapM (pieceApart? m.heap ref) = some pieces ∧
      text = before ++ String.join (pieces.map (separator ++ ·)) := by
  induction items generalizing before with
  | nil =>
      cases ran
      exact ⟨rfl, [], rfl, by simp⟩
  | cons item rest ih =>
      obtain ⟨piece, _, converted, checked⟩ := Eval.exists_of_bind_eq_ok ran
      obtain ⟨found, rfl⟩ := joinPiece_eq_ok converted
      obtain ⟨_, _, short, goneOn⟩ := Eval.exists_of_bind_eq_ok checked
      obtain rfl := checkLength_eq_ok short
      obtain ⟨rfl, pieces, later, rfl⟩ := ih goneOn
      refine ⟨rfl, piece :: pieces, ?_, ?_⟩
      · rw [List.mapM_cons, found, later]
        rfl
      · simp [String.append_assoc]

theorem joinAll_eq_ok {items : List Value} {text : String}
    (ran : (joinAll (.array ref) separator items).run answer env m = .ok text after) :
    ∃ pieces, items.mapM (pieceApart? m.heap ref) = some pieces ∧
      text = separator.intercalate pieces := by
  cases items with
  | nil =>
      cases ran
      exact ⟨[], rfl, by simp⟩
  | cons item rest =>
      obtain ⟨piece, _, converted, checked⟩ := Eval.exists_of_bind_eq_ok ran
      obtain ⟨found, rfl⟩ := joinPiece_eq_ok converted
      obtain ⟨_, _, short, goneOn⟩ := Eval.exists_of_bind_eq_ok checked
      obtain rfl := checkLength_eq_ok short
      obtain ⟨rfl, pieces, later, rfl⟩ := joinLater_eq_ok goneOn
      refine ⟨piece :: pieces, ?_, (intercalate_cons separator piece pieces).symm⟩
      rw [List.mapM_cons, found, later]
      rfl

/-- The text of an array is the texts of its elements within it. -/
theorem text?_array {h : Heap} {text : String} (found : Value.text? h (.array ref) = some text) :
    ∃ pieces, (h.arrayAt ref).toList.mapM (pieceWithin? h ref) = some pieces ∧
      text = ",".intercalate pieces := by
  obtain ⟨pieces, listed, rfl⟩ := Option.map_eq_some_iff.mp found
  exact ⟨pieces, listed, rfl⟩

/-- The pieces that a joining with this separator puts together. -/
def Heap.pieces? (h : Heap) (ref : ArrayRef) (separator : String) : Option (List String) :=
  (h.arrayAt ref).toList.mapM
    (if separator = "," then pieceWithin? h ref else pieceApart? h ref)

theorem joinWith_eq_ok {answered : Value}
    (ran : (joinWith ref separator).run answer env m = .ok answered after) :
    ∃ pieces, m.heap.pieces? ref separator = some pieces ∧
      answered = .string (separator.intercalate pieces) := by
  unfold joinWith at ran
  unfold Heap.pieces?
  split at ran
  · next comma =>
    obtain ⟨text, _, shown, rest⟩ := Eval.exists_of_bind_eq_ok ran
    cases rest
    obtain ⟨pieces, listed, rfl⟩ := text?_array (stringify_eq_ok shown).1
    exact ⟨pieces, by rw [if_pos comma, listed], by rw [comma]⟩
  · next other =>
    obtain ⟨h, _, seen, rest⟩ := Eval.exists_of_bind_eq_ok ran
    cases seen
    obtain ⟨text, _, joined, rest⟩ := Eval.exists_of_bind_eq_ok rest
    cases rest
    obtain ⟨pieces, listed, rfl⟩ := joinAll_eq_ok joined
    exact ⟨pieces, by rw [if_neg other, listed], rfl⟩

theorem joinText_eq_ok {given answered : Value}
    (ran : (joinText ref given).run answer env m = .ok answered after) :
    ∃ pieces, m.heap.pieces? ref ((Joining.method [given]).separator m.heap) = some pieces ∧
      answered = .string (((Joining.method [given]).separator m.heap).intercalate pieces) := by
  cases given with
  | undefined => exact joinWith_eq_ok ran
  | _ =>
      obtain ⟨text, _, shown, rest⟩ := Eval.exists_of_bind_eq_ok ran
      cases shown
      exact joinWith_eq_ok rest

/-- A call that the host answers is the run of its rule. -/
theorem callRule_eq_ok {function answered : Value} {arguments : List Value} {rank : Nat}
    (host : (Task.call function arguments).enter = Action.tick)
    (ran : Task.evaluate rank (.call function arguments) env m = .ok answered after) :
    ∃ rank begun ended, begun.heap = m.heap ∧
      (callRule function arguments).run (Task.evaluate rank) (rank + 1) env begun =
        .ok answered ended := by
  cases rank with
  | zero => cases ran
  | succ rank =>
      obtain ⟨_, begun, entered, ruled⟩ := Outcome.exists_of_andThen_eq_ok ran
      have same : begun.heap = m.heap := by
        rw [host] at entered
        rcases Action.tick_cases env m with ⟨ticked, -⟩ | ⟨error, -, failed⟩
        · rw [ticked] at entered
          cases entered
          rfl
        · rw [failed] at entered
          cases entered
      obtain ⟨ended, given⟩ := Outcome.exists_of_mapMachine_eq_ok ruled
      exact ⟨rank, begun, ended, same, given⟩

theorem Joining.Answers.pieces {joining : Joining} {h : Heap} {answered : Value}
    (answers : joining.Answers h ref answered) :
    ∃ pieces, h.pieces? ref (joining.separator h) = some pieces ∧
      answered = .string ((joining.separator h).intercalate pieces) := by
  obtain ⟨rank, identity, env, m, after, rfl, ran⟩ := answers
  cases joining with
  | method arguments =>
      obtain ⟨rank, begun, ended, same, ruled⟩ := callRule_eq_ok rfl ran
      rw [← same]
      exact joinText_eq_ok ruled
  | conversion =>
      obtain ⟨rank, begun, ended, same, ruled⟩ := callRule_eq_ok rfl ran
      obtain ⟨_, _, seen, converted⟩ := Eval.exists_of_bind_eq_ok ruled
      cases seen
      obtain ⟨text, _, shown, rest⟩ := Eval.exists_of_bind_eq_ok converted
      cases rest
      rw [← same]
      obtain ⟨pieces, listed, rfl⟩ := text?_array (stringify_eq_ok shown).1
      exact ⟨pieces, listed, rfl⟩

end

/-! ## Elements that lead back -/

/-- A container that is written inside another one. -/
def Heap.Holds (h : Heap) (container inner : Container) : Prop :=
  ∃ value ∈ Display.parts h container, value.container? = some inner

/-- No element but the array itself leads to the array, by way of what string
    conversion writes. -/
def Heap.Untangled (h : Heap) (ref : ArrayRef) : Prop :=
  ∀ item ∈ h.arrayAt ref, ∀ container, item.container? = some container →
    container ≠ .array ref → ¬ Relation.ReflTransGen h.Holds container (.array ref)

namespace Display

variable {h : Heap} {inner inner' : Value → Option String}

theorem mapM_mono {α β : Type} {f g : α → Option β} {items : List α} {found : List β}
    (agree : ∀ item ∈ items, ∀ b, f item = some b → g item = some b)
    (listed : items.mapM f = some found) : items.mapM g = some found := by
  have both := (List.forall₂_and_left _ _).mpr ⟨agree, mapM_eq_some_iff.mp listed⟩
  exact mapM_eq_some_iff.mpr (both.imp fun item b ⟨carry, read⟩ => carry b read)

theorem elementText?_mono {value : Value}
    (agree : value.isNullish = false → ∀ text, inner value = some text → inner' value = some text)
    {text : String} (found : elementText? inner value = some text) :
    elementText? inner' value = some text := by
  unfold elementText? at found ⊢
  cases nullish : value.isNullish with
  | true => simpa [nullish] using found
  | false => exact agree nullish text (by simpa [nullish] using found)

theorem contentsText?_mono {container : Container}
    (agree : ∀ part ∈ parts h container, ∀ text, inner part = some text → inner' part = some text)
    {text : String} (found : contentsText? h inner container = some text) :
    contentsText? h inner' container = some text := by
  cases container with
  | array ref =>
      obtain ⟨texts, listed, joined⟩ := Option.map_eq_some_iff.mp found
      refine Option.map_eq_some_iff.mpr ⟨texts, mapM_mono (fun item member text => ?_) listed, joined⟩
      refine elementText?_mono fun solid => agree item (List.mem_filter.mpr ⟨member, ?_⟩)
      rw [solid]
      rfl
  | object ref =>
      unfold contentsText? at found ⊢
      unfold parts at agree
      cases described : described? (h.objectAt ref) with
      | none => simpa [described] using found
      | some entry =>
          simp only [described] at found agree ⊢
          obtain ⟨message, written, joined⟩ := Option.map_eq_some_iff.mp found
          exact Option.map_eq_some_iff.mpr
            ⟨message, agree entry.2 (by simp) message written, joined⟩

theorem valueText?_mono {opened opened' : List Container} {enter enter' : Container → Option String}
    {value : Value} (same : ∀ container, value.container? = some container →
      (container ∈ opened ↔ container ∈ opened'))
    (agree : ∀ container, value.container? = some container →
      ∀ text, enter container = some text → enter' container = some text)
    {text : String} (found : valueText? opened enter value = some text) :
    valueText? opened' enter' value = some text := by
  unfold valueText? at found ⊢
  cases held : value.container? with
  | none => simpa [held] using found
  | some container =>
      simp only [held] at found ⊢
      by_cases cyclic : container ∈ opened
      · rw [if_pos cyclic] at found
        rw [if_pos ((same container held).mp cyclic), found]
      · rw [if_neg cyclic] at found
        rw [if_neg fun member => cyclic ((same container held).mpr member)]
        exact agree container held text found

/-- More room and other open containers leave the text as it is, if none of
    those that can be reached is open on one side only. -/
theorem text?_mono {room larger : Nat} (atMost : room ≤ larger) {opened opened' : List Container}
    {value : Value} (agree : ∀ container, value.container? = some container →
      ∀ reached, Relation.ReflTransGen h.Holds container reached →
        (reached ∈ opened ↔ reached ∈ opened'))
    {text : String} (found : text? h room opened value = some text) :
    text? h larger opened' value = some text := by
  have same : ∀ container, value.container? = some container →
      (container ∈ opened ↔ container ∈ opened') :=
    fun container held => agree container held container .refl
  induction room generalizing larger opened opened' value text with
  | zero =>
      cases larger <;> exact valueText?_mono same (fun _ _ _ none => by cases none) found
  | succ room ih =>
      obtain ⟨larger, rfl⟩ : ∃ more, larger = more + 1 := ⟨larger - 1, by omega⟩
      refine valueText?_mono same (fun container held text entered => ?_) found
      refine contentsText?_mono (fun part within text written => ?_) entered
      have agree' : ∀ inner, part.container? = some inner →
          ∀ reached, Relation.ReflTransGen h.Holds inner reached →
            (reached ∈ container :: opened ↔ reached ∈ container :: opened') := by
        intro inner held' reached path
        have step : h.Holds container inner := ⟨part, within, held'⟩
        rw [List.mem_cons, List.mem_cons, agree container held reached (.head step path)]
      exact ih (Nat.le_of_succ_le_succ atMost) agree' written
        fun inner held' => agree' inner held' inner .refl

end Display

/-- An untangled array has the same pieces in both ways. -/
theorem pieceApart?_of_within {h : Heap} {ref : ArrayRef} (untangled : h.Untangled ref)
    {item : Value} (member : item ∈ h.arrayAt ref) {text : String}
    (found : pieceWithin? h ref item = some text) : pieceApart? h ref item = some text := by
  unfold pieceWithin? Display.elementText? at found
  unfold pieceApart?
  cases nullish : item.isNullish with
  | true => simpa [nullish] using found
  | false =>
      simp only [nullish, Bool.false_eq_true, if_false, Bool.false_or] at found ⊢
      by_cases own : item.strictEquals (.array ref) = true
      · obtain rfl : item = .array ref := by
          cases item <;> simp_all [Value.strictEquals]
        rw [if_pos own]
        simpa [Display.text?, Display.valueText?, Value.container?, maxDisplayDepth] using found
      · rw [if_neg own]
        refine Display.text?_mono (by decide) (fun container held reached path => ?_) found
        have other : container ≠ .array ref := by
          rintro rfl
          cases item <;> simp_all [Value.strictEquals, Value.container?]
        constructor
        · intro opened
          obtain rfl := List.mem_singleton.mp opened
          exact absurd path (untangled item member container held other)
        · exact fun none => nomatch none

namespace Heap

variable {h : Heap} {ref : ArrayRef} {pieces : List String}

theorem length_pieces {separator : String} (listed : h.pieces? ref separator = some pieces) :
    pieces.length = (h.arrayAt ref).size :=
  (mapM_eq_some_iff.mp listed).length_eq.symm.trans Array.length_toList

theorem pieces?_congr {separator separator' : String} (same : separator = "," ↔ separator' = ",") :
    h.pieces? ref separator = h.pieces? ref separator' := by
  unfold pieces?
  simp only [same]

/-- What a comma puts together, every separator does. -/
theorem Untangled.pieces? (untangled : h.Untangled ref) (listed : h.pieces? ref "," = some pieces)
    (separator : String) : h.pieces? ref separator = some pieces := by
  by_cases comma : separator = ","
  · rw [comma, listed]
  · unfold Heap.pieces? at listed ⊢
    rw [if_neg comma]
    refine Display.mapM_mono (fun item member text => ?_) listed
    exact pieceApart?_of_within untangled (Array.mem_toList_iff.mp member)

/-- Separators give the same pieces where they treat commas alike or the array
    is untangled. -/
theorem pieces?_unique {separator separator' : String} {pieces' : List String}
    (tidy : (separator = "," ↔ separator' = ",") ∨ h.Untangled ref)
    (listed : h.pieces? ref separator = some pieces)
    (listed' : h.pieces? ref separator' = some pieces') : pieces = pieces' := by
  have alike (same : separator = "," ↔ separator' = ",") : pieces = pieces' :=
    Option.some.inj ((pieces?_congr same ▸ listed).symm.trans listed')
  rcases tidy with same | untangled
  · exact alike same
  · by_cases comma : separator = ","
    · exact Option.some.inj ((untangled.pieces? (comma ▸ listed) separator').symm.trans listed')
    · by_cases comma' : separator' = ","
      · exact Option.some.inj (listed.symm.trans (untangled.pieces? (comma' ▸ listed') separator))
      · exact alike (iff_of_false comma comma')

end Heap

/-- What one joining puts together, one piece for each element, every other one
    does, unless a comma separates in one of them and not in the other and an
    element leads back to the array. -/
theorem joinings_share_pieces {h : Heap} {ref : ArrayRef} {first : Joining} {answer : Value}
    (answers : first.Answers h ref answer) :
    ∃ pieces : List String, pieces.length = (h.arrayAt ref).size ∧
      answer = .string ((first.separator h).intercalate pieces) ∧
      ∀ (second : Joining) (answer' : Value), second.Answers h ref answer' →
        (first.separator h = "," ↔ second.separator h = ",") ∨ h.Untangled ref →
        answer' = .string ((second.separator h).intercalate pieces) := by
  obtain ⟨pieces, listed, joined⟩ := answers.pieces
  refine ⟨pieces, Heap.length_pieces listed, joined, fun second answer' answers' tidy => ?_⟩
  obtain ⟨pieces', listed', joined'⟩ := answers'.pieces
  obtain rfl := Heap.pieces?_unique tidy listed listed'
  exact joined'

/-- A machine without anything but a heap. -/
def Machine.around (h : Heap) : Machine := { Machine.fresh {} with heap := h }

/-- An array of a shared array that contains itself, of nothing, and of itself. -/
def knotted : Heap :=
  ⟨#[#[.array ⟨1⟩, .array ⟨1⟩, .undefined, .array ⟨0⟩], #[.string "x", .array ⟨1⟩]], #[]⟩

theorem knotted_untangled : knotted.Untangled ⟨0⟩ := by
  intro item member container held other path
  -- The shared array leads to itself only.
  have inward : ∀ reached, Relation.ReflTransGen knotted.Holds (.array ⟨1⟩) reached →
      reached = .array ⟨1⟩ := by
    intro reached path
    induction path with
    | refl => rfl
    | tail _ step ih =>
        subst ih
        obtain ⟨part, within, held⟩ := step
        simp [Display.parts, Heap.arrayAt, knotted] at within
        rcases within with ⟨rfl | rfl, -⟩ <;> cases held
        rfl
  have shared : container = .array ⟨1⟩ := by
    simp [Heap.arrayAt, knotted] at member
    rcases member with rfl | rfl | rfl <;> cases held
    · rfl
    · exact absurd rfl other
  subst shared
  cases inward _ path

theorem joinings_share_pieces_knotted :
    ∃ pieces : List String, pieces.length = 4 ∧
      Value.string "x,-x,--" = .string ("-".intercalate pieces) ∧
      Value.string "x,,x,,," = .string (",".intercalate pieces) := by
  have dashed : (Joining.method [.string "-"]).Answers knotted ⟨0⟩ (.string "x,-x,--") :=
    ⟨1, 0, ⟨{}, fun _ => 0⟩, .around knotted, { Machine.around knotted with steps := 1 }, rfl, rfl⟩
  have written : Joining.conversion.Answers knotted ⟨0⟩ (.string "x,,x,,,") :=
    ⟨1, 0, ⟨{}, fun _ => 0⟩, .around knotted, { Machine.around knotted with steps := 1 }, rfl, rfl⟩
  obtain ⟨pieces, long, joined, share⟩ := joinings_share_pieces dashed
  exact ⟨pieces, long, joined, share .conversion _ written (.inr knotted_untangled)⟩

/-- Two arrays, each with the other one first. -/
def crossed : Heap := ⟨#[#[.array ⟨1⟩, .string "x"], #[.array ⟨0⟩, .string "y"]], #[]⟩

/-- What the first one of two such arrays has as its first piece depends on the
    separator: a comma opens the array itself, and no other one does. -/
theorem mutual_arrays_differ :
    ∃ comma dash : String,
      (Joining.method [.string ","]).Answers crossed ⟨0⟩ (.string comma) ∧
      (Joining.method [.string "-"]).Answers crossed ⟨0⟩ (.string dash) ∧
      ¬ ∃ pieces : List String, pieces.length = (crossed.arrayAt ⟨0⟩).size ∧
        comma = ",".intercalate pieces ∧ dash = "-".intercalate pieces := by
  refine ⟨",y,x", ",x,y-x",
    ⟨1, 0, ⟨{}, fun _ => 0⟩, .around crossed, { Machine.around crossed with steps := 1 }, rfl, rfl⟩,
    ⟨1, 0, ⟨{}, fun _ => 0⟩, .around crossed, { Machine.around crossed with steps := 1 }, rfl, rfl⟩, ?_⟩
  rintro ⟨pieces, long, comma, dash⟩
  obtain ⟨first, last, rfl⟩ := List.length_eq_two.mp long
  have room (separator : String) : (separator.intercalate [first, last]).length =
      first.length + separator.length + last.length := by
    simp [intercalate_cons, String.length_append, Nat.add_assoc]
  have shorter : 4 = first.length + 1 + last.length := (congrArg String.length comma).trans (room _)
  have longer : 6 = first.length + 1 + last.length := (congrArg String.length dash).trans (room _)
  omega

end StrategyQubo.Script
