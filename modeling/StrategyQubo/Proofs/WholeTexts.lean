import Mathlib.Data.List.Basic
import Mathlib.Logic.Relation
import StrategyQubo.Proofs.DisplayRoom

namespace StrategyQubo.Script

/-! # Whole texts

What string conversion makes of a value when nothing limits the length.  Under
a limit the same text is made, or none where it would be longer.
-/

namespace Display

/-! ## Texts without a limit -/

/-- An element of an array; nothing stands for `undefined` and `null`. -/
def elementText? (inner : Value → Option String) (value : Value) : Option String :=
  if value.isNullish then some "" else inner value

/-- The name and the message of an object that looks like an error. -/
def described? (properties : Record) : Option (String × Value) :=
  match properties.get? "name", properties.get? "message" with
  | some (.string name), some message => some (name, message)
  | _, _ => none

/-- An array is the texts of its elements with commas between them.  An object
    is opaque, unless it looks like an error. -/
def contentsText? (h : Heap) (inner : Value → Option String) : Container → Option String
  | .array ref =>
      ((h.arrayAt ref).toList.mapM (elementText? inner)).map fun texts => ",".intercalate texts
  | .object ref =>
      match described? (h.objectAt ref) with
      | some (name, message) => (inner message).map (name ++ ": " ++ ·)
      | none => some "[object Object]"

/-- A container that is open already leaves nothing. -/
def valueText? (opened : List Container) (enter : Container → Option String) (value : Value) :
    Option String :=
  match value.container? with
  | none => some value.scalarText
  | some container => if container ∈ opened then some "" else enter container

/-- The text of a value inside some open containers, if those in it are nested
    no deeper than there is room for. -/
def text? (h : Heap) : Nat → List Container → Value → Option String
  | 0, opened => valueText? opened fun _ => none
  | room + 1, opened => valueText? opened fun container =>
      contentsText? h (text? h room (container :: opened)) container

end Display

/-- The text of a value; there is none if containers are nested too deeply. -/
def Value.text? (h : Heap) (value : Value) : Option String :=
  Display.text? h maxDisplayDepth [] value

/-! ## Writing a text -/

/-- Under the limit, the text is what gets written.  It is written to its end if
    it fits, and a length that is reported does not fit. -/
structure Writing.Spells (limit : Nat) (text? : Option String) (writing : Writing) : Prop where
  written : ∀ before after, writing before = .ok () after →
    ∃ text, text? = some text ∧ after = before ++ text
  fits : ∀ before text, text? = some text →
    before.utf8ByteSize + text.utf8ByteSize ≤ limit → writing before = .ok () (before ++ text)
  exceeds : ∀ before bytes cut, writing before = .error (.length bytes) cut → limit < bytes

namespace Writing.Spells

variable {limit : Nat} {text? text?' : Option String} {writing writing' : Writing}

theorem nothing : Spells limit (some "") (pure ()) where
  written := by
    rintro before after ⟨⟩
    exact ⟨"", rfl, String.append_empty.symm⟩
  fits := by
    rintro before text ⟨⟩ -
    rw [String.append_empty]
    rfl
  exceeds := by
    rintro before bytes cut ⟨⟩

theorem tooDeep : Spells limit none (throw .depth) where
  written := by
    rintro before after ⟨⟩
  fits := by
    rintro before text ⟨⟩
  exceeds := by
    rintro before bytes cut ⟨⟩

theorem piece (piece : String) : Spells limit (some piece) (writePiece limit piece) where
  written := by
    intro before after written
    simp only [writePiece] at written
    split at written
    · cases written
    · cases written
      exact ⟨piece, rfl, rfl⟩
  fits := by
    rintro before text ⟨⟩ small
    exact if_neg (Nat.not_lt.mpr small)
  exceeds := by
    intro before bytes cut failed
    simp only [writePiece] at failed
    split at failed
    · next long =>
      cases failed
      exact long
    · cases failed

/-- One text behind another. -/
theorem andThen (first : Spells limit text? writing) (second : Spells limit text?' writing') :
    Spells limit (text?.bind fun text => text?'.map (text ++ ·))
      (writing >>= fun _ => writing') where
  written := by
    intro before after written
    cases head : writing before with
    | error overflow cut => simp [bind, EStateM.bind, head] at written
    | ok _ middle =>
        have tail : writing' middle = .ok () after := by
          simpa [bind, EStateM.bind, head] using written
        obtain ⟨text, rfl, rfl⟩ := first.written before middle head
        obtain ⟨text', rfl, rfl⟩ := second.written _ after tail
        exact ⟨text ++ text', rfl, String.append_assoc⟩
  fits := by
    intro before whole split small
    obtain ⟨text, rfl, rest⟩ := Option.bind_eq_some_iff.mp split
    obtain ⟨text', rfl, rfl⟩ := Option.map_eq_some_iff.mp rest
    rw [String.utf8ByteSize_append] at small
    have head := first.fits before text rfl (by omega)
    have tail := second.fits (before ++ text) text' rfl (by rw [String.utf8ByteSize_append]; omega)
    simp only [bind, EStateM.bind, head]
    rw [tail, String.append_assoc]
  exceeds := by
    intro before bytes cut failed
    cases head : writing before with
    | error overflow kept =>
        obtain ⟨rfl, -⟩ : overflow = .length bytes ∧ kept = cut := by
          simpa [bind, EStateM.bind, head] using failed
        exact first.exceeds before bytes kept head
    | ok _ middle =>
        have tail : writing' middle = .error (.length bytes) cut := by
          simpa [bind, EStateM.bind, head] using failed
        exact second.exceeds middle bytes cut tail

end Writing.Spells

theorem intercalate_cons (separator first : String) (rest : List String) :
    separator.intercalate (first :: rest) = first ++ String.join (rest.map (separator ++ ·)) := by
  induction rest generalizing first with
  | nil => simp
  | cons second rest ih =>
      rw [String.intercalate_cons_cons, ih, List.map_cons, String.join_cons]
      simp only [String.append_assoc]

namespace Display

open Writing

variable {limit : Nat} {inner : Value → Option String} {write : Value → Writing}
  {enter : Container → Option String} {go : Container → Writing}

section

variable (spells : ∀ value, Spells limit (inner value) (write value))

include spells

theorem element_spells (value : Value) :
    Spells limit (elementText? inner value) (element .plain limit write value) := by
  cases nullish : value.isNullish with
  | true => simpa [element, elementText?, nullish] using Spells.nothing
  | false => simpa [element, elementText?, nullish] using spells value

theorem laterElements_spells (items : List Value) :
    Spells limit ((items.mapM (elementText? inner)).map fun texts => String.join (texts.map ("," ++ ·)))
      (laterElements .plain limit write items) := by
  induction items with
  | nil => exact Spells.nothing
  | cons value rest ih =>
      have whole := (Spells.piece ",").andThen ((element_spells spells value).andThen ih)
      have text : (((value :: rest).mapM (elementText? inner)).map fun texts =>
          String.join (texts.map ("," ++ ·))) =
          (some ",").bind fun comma => ((elementText? inner value).bind fun text =>
            ((rest.mapM (elementText? inner)).map fun texts =>
              String.join (texts.map ("," ++ ·))).map (text ++ ·)).map (comma ++ ·) := by
        rw [List.mapM_cons]
        cases elementText? inner value <;> cases rest.mapM (elementText? inner) <;>
          simp [String.append_assoc]
      rw [text]
      exact whole

theorem elements_spells (items : List Value) :
    Spells limit ((items.mapM (elementText? inner)).map fun texts => ",".intercalate texts)
      (elements .plain limit write items) := by
  cases items with
  | nil => exact Spells.nothing
  | cons value rest =>
      have whole := (element_spells spells value).andThen (laterElements_spells spells rest)
      have text : (((value :: rest).mapM (elementText? inner)).map fun texts =>
          ",".intercalate texts) =
          (elementText? inner value).bind fun text => ((rest.mapM (elementText? inner)).map
            fun texts => String.join (texts.map ("," ++ ·))).map (text ++ ·) := by
        rw [List.mapM_cons]
        cases elementText? inner value <;> cases rest.mapM (elementText? inner) <;>
          simp [intercalate_cons]
      rw [text]
      exact whole

omit spells in
theorem object_plain (properties : Record) :
    object .plain limit write properties = match described? properties with
      | some (name, message) => do
          writePiece limit (name ++ ": ")
          write message
      | none => writePiece limit "[object Object]" := by
  unfold object described?
  generalize properties.get? "name" = name
  generalize properties.get? "message" = message
  cases name with
  | none => rfl
  | some name => cases name <;> cases message <;> rfl

theorem contents_spells (h : Heap) (container : Container) :
    Spells limit (contentsText? h inner container) (contents h .plain limit write container) := by
  cases container with
  | array ref => exact elements_spells spells _
  | object ref =>
      rw [contents, contentsText?, object_plain]
      cases described? (h.objectAt ref) with
      | none => exact Spells.piece _
      | some found => exact (Spells.piece (found.1 ++ ": ")).andThen (spells found.2)

end

theorem valueWith_spells (spells : ∀ container, Spells limit (enter container) (go container))
    (opened : List Container) (value : Value) :
    Spells limit (valueText? opened enter value) (valueWith .plain limit opened go value) := by
  unfold valueText? valueWith
  cases value.container? with
  | none => exact Spells.piece _
  | some container =>
      by_cases cyclic : container ∈ opened
      · simpa only [if_pos cyclic] using Spells.nothing
      · simpa only [if_neg cyclic] using spells container

theorem value_spells (h : Heap) (limit room : Nat) (opened : List Container) (v : Value) :
    Spells limit (text? h room opened v) (value h .plain limit room opened v) := by
  induction room generalizing opened v with
  | zero => exact valueWith_spells (fun _ => Spells.tooDeep) opened v
  | succ room ih =>
      refine valueWith_spells (fun container => ?_) opened v
      exact contents_spells (ih (container :: opened)) h container

end Display

namespace Display

/-! ## Nested conversions -/

/-- The values whose texts make the text of a container. -/
def parts (h : Heap) : Container → List Value
  | .array ref => (h.arrayAt ref).toList.filter fun value => !value.isNullish
  | .object ref => ((described? (h.objectAt ref)).map (·.2)).toList

/-- Writing a value while some containers are open. -/
def inside (h : Heap) (limit : Nat) (opened : List Container) (v : Value) : Writing :=
  value h .plain limit (maxDisplayDepth - opened.length) opened v

/-- While a container is written, its parts are, with that container open too. -/
inductive Nests (h : Heap) : List Container × Value → List Container × Value → Prop where
  | part {opened : List Container} {v inner : Value} {container : Container}
      (held : v.container? = some container) (fresh : container ∉ opened)
      (room : opened.length < maxDisplayDepth) (within : inner ∈ parts h container) :
      Nests h (container :: opened, inner) (opened, v)

theorem nests_wellFounded (h : Heap) : WellFounded (Nests h) := by
  refine Subrelation.wf ?_ (measure fun at' : List Container × Value =>
    maxDisplayDepth - at'.1.length).wf
  rintro _ _ ⟨-, -, room, -⟩
  exact Nat.sub_lt_sub_left room (Nat.lt_succ_self _)

section

variable {limit : Nat} {write write' : Value → Writing}

theorem element_congr {value : Value} (same : value.isNullish = false → write value = write' value) :
    element .plain limit write value = element .plain limit write' value := by
  cases nullish : value.isNullish with
  | true => simp [element, nullish]
  | false => simp [element, nullish, same nullish]

theorem laterElements_congr {items : List Value}
    (same : ∀ value ∈ items, value.isNullish = false → write value = write' value) :
    laterElements .plain limit write items = laterElements .plain limit write' items := by
  induction items with
  | nil => rfl
  | cons value rest ih =>
      rw [laterElements, laterElements, element_congr (same value List.mem_cons_self),
        ih fun other found => same other (List.mem_cons_of_mem _ found)]

/-- To write a container is to write its parts. -/
theorem contents_congr {h : Heap} {container : Container}
    (same : ∀ inner ∈ parts h container, write inner = write' inner) :
    contents h .plain limit write container = contents h .plain limit write' container := by
  cases container with
  | array ref =>
      have solid : ∀ value ∈ (h.arrayAt ref).toList, value.isNullish = false →
          write value = write' value := by
        intro value member nullish
        exact same value (List.mem_filter.mpr ⟨member, by rw [nullish]; rfl⟩)
      simp only [contents, array]
      cases items : (h.arrayAt ref).toList with
      | nil => rfl
      | cons value rest =>
          rw [items] at solid
          rw [elements, elements, element_congr (solid value List.mem_cons_self),
            laterElements_congr fun other found => solid other (List.mem_cons_of_mem _ found)]
  | object ref =>
      rw [contents, contents, object_plain, object_plain]
      simp only [parts] at same
      cases found : described? (h.objectAt ref) with
      | none => rfl
      | some entry => simp only [same entry.2 (by simp [found])]

end

/-- The containers that are open tell how much deeper writing may go. -/
theorem inside_eq (h : Heap) (limit : Nat) (opened : List Container) (v : Value) :
    inside h limit opened v = valueWith .plain limit opened (fun container =>
      if opened.length < maxDisplayDepth then
        contents h .plain limit (inside h limit (container :: opened)) container
      else throw .depth) v := by
  unfold inside
  by_cases room : opened.length < maxDisplayDepth
  · obtain ⟨left, same⟩ : ∃ left, maxDisplayDepth - opened.length = left + 1 :=
      ⟨maxDisplayDepth - opened.length - 1, by omega⟩
    have next : maxDisplayDepth - (opened.length + 1) = left := by omega
    simp only [same, value, if_pos room, List.length_cons, next]
  · have full : maxDisplayDepth - opened.length = 0 := by omega
    simp only [full, value, if_neg room]

end Display

namespace Value

variable {h : Heap} {value : Value} {limit : Nat} {text : String}

/-- A limit leaves the text as it is, or there is none. -/
theorem displayWithin_eq_ok_iff :
    value.displayWithin h limit = .ok text ↔
      value.text? h = some text ∧ text.utf8ByteSize ≤ limit := by
  have spells := Display.value_spells h limit maxDisplayDepth [] value
  constructor
  · intro shown
    refine ⟨?_, displayWithin_le shown⟩
    unfold displayWithin write at shown
    cases written : Display.value h .plain limit maxDisplayDepth [] value "" with
    | error overflow cut => simp [written] at shown
    | ok _ after =>
        obtain ⟨whole, found, joined⟩ := spells.written "" after written
        obtain rfl : after = text := by simpa [written] using shown
        rw [text?, found, joined, String.empty_append]
  · rintro ⟨found, small⟩
    have written := spells.fits "" text found (by simpa using small)
    simp [displayWithin, write, written]

theorem lt_of_displayWithin_eq_length {bytes : Nat}
    (failed : value.displayWithin h limit = .error (.length bytes)) : limit < bytes := by
  unfold displayWithin write at failed
  cases written : Display.value h .plain limit maxDisplayDepth [] value "" with
  | ok _ after => simp [written] at failed
  | error overflow cut =>
      obtain rfl : overflow = .length bytes := by simpa [written] using failed
      exact (Display.value_spells h limit maxDisplayDepth [] value).exceeds "" bytes cut written

theorem display_eq_front (h : Heap) (value : Value) :
    value.display h = value.front h .plain displayLimit :=
  rfl

/-- String conversion comes to an end in every heap, since only a part of a
    container that was not open is written inside of it.  Under a limit it gives
    the text that it has without one, if that fits; the length that it reports
    does not fit; and where it stops, it keeps a front of what every larger
    limit gives, which is within the limit. -/
theorem displayWithin_exact (h : Heap) (value : Value) :
    (∀ limit, value.write h .plain limit = Display.inside h limit [] value "") ∧
    (∀ limit opened v, Display.inside h limit opened v =
      Display.valueWith .plain limit opened (fun container =>
        if opened.length < maxDisplayDepth then
          Display.contents h .plain limit (Display.inside h limit (container :: opened)) container
        else throw .depth) v) ∧
    (∀ limit container write write', (∀ inner ∈ Display.parts h container, write inner = write' inner) →
      Display.contents h .plain limit write container =
        Display.contents h .plain limit write' container) ∧
    WellFounded (Display.Nests h) ∧
    (∀ limit text, value.displayWithin h limit = .ok text ↔
      value.text? h = some text ∧ text.utf8ByteSize ≤ limit) ∧
    (∀ limit bytes, value.displayWithin h limit = .error (.length bytes) → limit < bytes) ∧
    (∀ limit overflow cut, value.write h .plain limit = .error overflow cut →
      cut.utf8ByteSize ≤ limit ∧
      ∀ larger, limit ≤ larger → cut.toList <+: (value.front h .plain larger).toList) ∧
    (value.display h).utf8ByteSize ≤ displayLimit ∧
    (∀ larger, displayLimit ≤ larger →
      (value.display h).toList <+: (value.front h .plain larger).toList) ∧
    ∀ text, value.text? h = some text → (value.display h).toList <+: text.toList := by
  refine ⟨fun _ => rfl, Display.inside_eq h, fun _ _ _ _ => Display.contents_congr,
    Display.nests_wellFounded h, fun _ _ => displayWithin_eq_ok_iff,
    fun _ _ => lt_of_displayWithin_eq_length, fun _ _ _ => write_cut, ?_, ?_, fun text found => ?_⟩
  · exact front_le h .plain displayLimit value
  · intro larger atMost
    exact front_prefix h .plain value atMost
  · have whole : value.front h .plain (max displayLimit text.utf8ByteSize) = text := by
      have spells := Display.value_spells h (max displayLimit text.utf8ByteSize) maxDisplayDepth [] value
      have written := spells.fits "" text found (by
        rw [String.utf8ByteSize_empty, Nat.zero_add]
        exact Nat.le_max_right _ _)
      rw [front, Writing.reached_of_ok written, String.empty_append]
    rw [display_eq_front, ← whole]
    exact front_prefix h .plain value (Nat.le_max_left _ _)

end Value

end StrategyQubo.Script
