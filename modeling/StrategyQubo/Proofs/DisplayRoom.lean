import StrategyQubo.Script.Display

namespace StrategyQubo.Script

/-! # Room for text

A limit on the bytes of a text stops writing or leaves it alone.  Whatever is
written under one limit is within it, and is written under every larger one;
where writing stops, the text kept is the front of what more room holds.
-/

/-- The text that there is when writing ends, in whichever way. -/
def Writing.reached (writing : Writing) (before : String) : String :=
  match writing before with
  | .ok _ text => text
  | .error _ text => text

/-- Whatever `narrow` writes to its end, `wide` writes too, and what `narrow`
    keeps where it stops, `wide` has at its front.  A text within the limit has
    stayed within it. -/
structure Writing.Widens (limit : Nat) (narrow wide : Writing) : Prop where
  written : ∀ before after, narrow before = .ok () after → wide before = .ok () after ∧
    (before.utf8ByteSize ≤ limit → after.utf8ByteSize ≤ limit)
  kept : ∀ before overflow cut, narrow before = .error overflow cut →
    cut.toList <+: (wide.reached before).toList ∧
      (before.utf8ByteSize ≤ limit → cut.utf8ByteSize ≤ limit)
  appends : ∀ before, before.toList <+: (wide.reached before).toList

namespace Writing

variable {limit : Nat} {narrow wide narrow' wide' : Writing} {before middle : String}

theorem reached_of_ok (written : wide before = .ok () middle) : wide.reached before = middle := by
  simp [reached, written]

theorem reached_of_error {overflow : Overflow} (failed : wide before = .error overflow middle) :
    wide.reached before = middle := by
  simp [reached, failed]

theorem reached_andThen_ok (written : wide before = .ok () middle) :
    reached (wide >>= fun _ => wide') before = wide'.reached middle := by
  simp [reached, bind, EStateM.bind, written]

theorem reached_andThen_error {overflow : Overflow} (failed : wide before = .error overflow middle) :
    reached (wide >>= fun _ => wide') before = middle := by
  simp [reached, bind, EStateM.bind, failed]

namespace Widens

theorem nothing : Widens limit (pure ()) (pure ()) where
  written := by
    rintro before after ⟨⟩
    exact ⟨rfl, id⟩
  kept := by
    rintro before overflow cut ⟨⟩
  appends := fun _ => List.prefix_rfl

theorem fails (overflow : Overflow) : Widens limit (throw overflow) (throw overflow) where
  written := by
    rintro before after ⟨⟩
  kept := by
    rintro before _ cut ⟨⟩
    exact ⟨List.prefix_rfl, id⟩
  appends := fun _ => List.prefix_rfl

theorem andThen (first : Widens limit narrow wide) (second : Widens limit narrow' wide') :
    Widens limit (narrow >>= fun _ => narrow') (wide >>= fun _ => wide') := by
  have goesOn (before : String) :
      (wide.reached before).toList <+: (reached (wide >>= fun _ => wide') before).toList := by
    cases head : wide before with
    | error overflow cut =>
        simp only [reached_andThen_error head, reached_of_error head, List.prefix_rfl]
    | ok _ middle =>
        rw [reached_andThen_ok head, reached_of_ok head]
        exact second.appends middle
  refine ⟨fun before after written => ?_, fun before overflow cut failed => ?_, fun before =>
    (first.appends before).trans (goesOn before)⟩
  · cases head : narrow before with
    | error overflow kept =>
        simp [bind, EStateM.bind, head] at written
    | ok _ middle =>
        have tail : narrow' middle = .ok () after := by
          simpa [bind, EStateM.bind, head] using written
        obtain ⟨wideHead, within⟩ := first.written before middle head
        obtain ⟨wideTail, within'⟩ := second.written middle after tail
        simp only [bind, EStateM.bind, wideHead]
        exact ⟨wideTail, fun small => within' (within small)⟩
  · cases head : narrow before with
    | error overflow' kept =>
        obtain ⟨-, rfl⟩ : overflow' = overflow ∧ kept = cut := by
          simpa [bind, EStateM.bind, head] using failed
        obtain ⟨front, within⟩ := first.kept before overflow' kept head
        exact ⟨front.trans (goesOn before), within⟩
    | ok _ middle =>
        have tail : narrow' middle = .error overflow cut := by
          simpa [bind, EStateM.bind, head] using failed
        obtain ⟨wideHead, within⟩ := first.written before middle head
        obtain ⟨front, within'⟩ := second.kept middle overflow cut tail
        rw [reached_andThen_ok wideHead]
        exact ⟨front, fun small => within' (within small)⟩

end Widens

end Writing

open Writing

variable {limit larger : Nat}

theorem writePiece_widens (atMost : limit ≤ larger) (piece : String) :
    Widens limit (writePiece limit piece) (writePiece larger piece) := by
  have appends (before : String) :
      before.toList <+: ((writePiece larger piece).reached before).toList := by
    by_cases fits : larger < before.utf8ByteSize + piece.utf8ByteSize
    · have stays : (writePiece larger piece).reached before = before :=
        reached_of_error (if_pos fits)
      simp only [stays, List.prefix_rfl]
    · rw [reached_of_ok (if_neg fits), String.toList_append]
      exact List.prefix_append _ _
  refine ⟨fun before after written => ?_, fun before overflow cut failed => ?_, appends⟩
  · simp only [writePiece] at written ⊢
    split at written
    · cases written
    · rename_i fits
      rw [if_neg (by omega)]
      cases written
      rw [String.utf8ByteSize_append]
      exact ⟨rfl, fun _ => Nat.le_of_not_lt fits⟩
  · simp only [writePiece] at failed
    split at failed
    · cases failed
      exact ⟨appends before, id⟩
    · cases failed

namespace Display

section

variable {write write' : Value → Writing} (atMost : limit ≤ larger)
  (widens : ∀ value, Widens limit (write value) (write' value))

include atMost widens

theorem element_widens (style : Style) (value : Value) :
    Widens limit (element style limit write value) (element style larger write' value) := by
  cases style with
  | plain =>
      cases nullish : value.isNullish with
      | true => simpa [element, nullish] using Widens.nothing
      | false => simpa [element, nullish] using widens value
  | inspect =>
      cases value with
      | string text => exact writePiece_widens atMost _
      | _ => exact widens _

theorem laterElements_widens (style : Style) (items : List Value) :
    Widens limit (laterElements style limit write items)
      (laterElements style larger write' items) := by
  induction items with
  | nil => exact Widens.nothing
  | cons value rest ih =>
      exact (writePiece_widens atMost _).andThen
        ((element_widens atMost widens style value).andThen ih)

theorem elements_widens (style : Style) (items : List Value) :
    Widens limit (elements style limit write items) (elements style larger write' items) := by
  cases items with
  | nil => exact Widens.nothing
  | cons value rest =>
      exact (element_widens atMost widens style value).andThen
        (laterElements_widens atMost widens style rest)

theorem array_widens (style : Style) (items : List Value) :
    Widens limit (array style limit write items) (array style larger write' items) := by
  cases style with
  | plain => exact elements_widens atMost widens .plain items
  | inspect =>
      exact (writePiece_widens atMost _).andThen
        ((elements_widens atMost widens .inspect items).andThen (writePiece_widens atMost _))

theorem property_widens (lead key : String) (value : Value) :
    Widens limit (property limit write lead key value) (property larger write' lead key value) := by
  refine (writePiece_widens atMost _).andThen ((writePiece_widens atMost _).andThen ?_)
  cases value with
  | string text => exact writePiece_widens atMost _
  | _ => exact widens _

theorem laterProperties_widens (properties : Record) :
    Widens limit (laterProperties limit write properties)
      (laterProperties larger write' properties) := by
  induction properties with
  | nil => exact Widens.nothing
  | cons entry rest ih =>
      exact (property_widens atMost widens ", " entry.1 entry.2).andThen ih

theorem object_widens (style : Style) (properties : Record) :
    Widens limit (object style limit write properties) (object style larger write' properties) := by
  cases style with
  | plain =>
      simp only [object]
      split
      · exact (writePiece_widens atMost _).andThen (widens _)
      · exact writePiece_widens atMost _
  | inspect =>
      have opening := writePiece_widens atMost "\x7b"
      have closing := writePiece_widens atMost "\x7d"
      cases properties with
      | nil => exact opening.andThen closing
      | cons entry rest =>
          have first := property_widens atMost widens " " entry.1 entry.2
          have later := laterProperties_widens atMost widens rest
          exact opening.andThen (first.andThen
            (later.andThen ((writePiece_widens atMost " ").andThen closing)))

theorem contents_widens (h : Heap) (style : Style) (container : Container) :
    Widens limit (contents h style limit write container)
      (contents h style larger write' container) := by
  cases container with
  | array ref => exact array_widens atMost widens style _
  | object ref => exact object_widens atMost widens style _

end

theorem valueWith_widens {enter enter' : Container → Writing} (atMost : limit ≤ larger)
    (widens : ∀ container, Widens limit (enter container) (enter' container)) (style : Style)
    (opened : List Container) (value : Value) :
    Widens limit (valueWith style limit opened enter value)
      (valueWith style larger opened enter' value) := by
  unfold valueWith
  split
  · exact writePiece_widens atMost _
  · split
    · cases style with
      | plain => exact Widens.nothing
      | inspect => exact writePiece_widens atMost _
    · exact widens _

/-- The room for open containers is the same on both sides. -/
theorem value_widens (h : Heap) (style : Style) (atMost : limit ≤ larger) (room : Nat)
    (opened : List Container) (v : Value) :
    Widens limit (value h style limit room opened v) (value h style larger room opened v) := by
  induction room generalizing opened v with
  | zero => exact valueWith_widens atMost (fun _ => Widens.fails _) style opened v
  | succ room ih =>
      refine valueWith_widens atMost (fun container => ?_) style opened v
      exact contents_widens atMost (ih (container :: opened)) h style container

end Display

/-- A text that is written within a limit is no longer than that. -/
theorem Value.displayWithin_le {h : Heap} {value : Value} {text : String}
    (within : value.displayWithin h limit = .ok text) : text.utf8ByteSize ≤ limit := by
  unfold Value.displayWithin Value.write at within
  cases written : Display.value h .plain limit maxDisplayDepth [] value "" with
  | error overflow kept => simp [written] at within
  | ok _ after =>
      have wide := Display.value_widens h .plain (Nat.le_refl limit) maxDisplayDepth [] value
      obtain rfl : after = text := by simpa [written] using within
      exact (wide.written _ _ written).2 (Nat.zero_le _)

/-- A text within a limit is the text under every larger limit. -/
theorem Value.displayWithin_mono {h : Heap} {value : Value} {text : String}
    (atMost : limit ≤ larger) (within : value.displayWithin h limit = .ok text) :
    value.displayWithin h larger = .ok text := by
  unfold Value.displayWithin Value.write at within ⊢
  cases written : Display.value h .plain limit maxDisplayDepth [] value "" with
  | error overflow kept => simp [written] at within
  | ok _ after =>
      have wide := Display.value_widens h .plain atMost maxDisplayDepth [] value
      simpa [written, (wide.written _ _ written).1] using within

/-- The text of a value as far as it fits into the limit. -/
def Value.front (h : Heap) (style : Style) (limit : Nat) (value : Value) : String :=
  (Display.value h style limit maxDisplayDepth [] value).reached ""

/-- Where writing stops, the text kept is within the limit, and every larger
    limit has it at the front of its text. -/
theorem Value.write_cut {h : Heap} {style : Style} {value : Value} {overflow : Overflow}
    {cut : String} (failed : value.write h style limit = .error overflow cut) :
    cut.utf8ByteSize ≤ limit ∧
      ∀ larger, limit ≤ larger → cut.toList <+: (value.front h style larger).toList := by
  have room (larger : Nat) (atMost : limit ≤ larger) :=
    (Display.value_widens h style atMost maxDisplayDepth [] value).kept "" overflow cut failed
  exact ⟨(room limit (Nat.le_refl limit)).2 (Nat.zero_le _), fun larger atMost => (room larger atMost).1⟩

/-- With more room the same text goes on. -/
theorem Value.front_prefix (h : Heap) (style : Style) (value : Value) (atMost : limit ≤ larger) :
    (value.front h style limit).toList <+: (value.front h style larger).toList := by
  cases written : value.write h style limit with
  | error overflow cut =>
      rw [front, reached_of_error written]
      exact (write_cut written).2 larger atMost
  | ok _ text =>
      have wide := Display.value_widens h style atMost maxDisplayDepth [] value
      have wideToo := (wide.written "" text written).1
      simp only [front, reached_of_ok written, reached_of_ok wideToo, List.prefix_rfl]

theorem Value.front_le (h : Heap) (style : Style) (limit : Nat) (value : Value) :
    (value.front h style limit).utf8ByteSize ≤ limit := by
  cases written : value.write h style limit with
  | error overflow cut =>
      rw [front, reached_of_error written]
      exact (write_cut written).1
  | ok _ text =>
      have wide := Display.value_widens h style (Nat.le_refl limit) maxDisplayDepth [] value
      rw [front, reached_of_ok written]
      exact (wide.written "" text written).2 (Nat.zero_le _)

end StrategyQubo.Script
