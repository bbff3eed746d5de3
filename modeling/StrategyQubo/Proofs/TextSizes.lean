import Mathlib.Data.String.Basic
import Mathlib.Data.Nat.Digits.Defs
import StrategyQubo.Script.Property
import StrategyQubo.Script.Builtin

namespace StrategyQubo.Script

/-! # Sizes of texts

What the string methods take out of a text is no larger than the text, and the
names that the functions of the host have are short.
-/

theorem utf8ByteSize_ofList_le {chars : List Char} {text : String}
    (part : chars.Sublist text.toList) :
    (String.ofList chars).utf8ByteSize ≤ text.utf8ByteSize := by
  rw [String.utf8ByteSize_ofList, ← String.utf8Len_toList text]
  exact String.utf8Len_le_of_sublist part

theorem length_le_utf8Len (chars : List Char) : chars.length ≤ String.utf8Len chars := by
  induction chars with
  | nil => exact Nat.le_refl 0
  | cons c rest ih =>
      have positive := c.utf8Size_pos
      rw [List.length_cons, String.utf8Len_cons]
      omega

theorem length_le_utf8ByteSize (text : String) : text.length ≤ text.utf8ByteSize := by
  rw [← String.utf8Len_toList, ← String.length_toList]
  exact length_le_utf8Len text.toList

theorem utf8ByteSize_char_le (c : Char) : c.toString.utf8ByteSize ≤ 4 := by
  rw [Char.toString_eq_singleton, String.utf8ByteSize_singleton]
  exact c.utf8Size_le_four

/-- A character of a text, on its own. -/
theorem utf8ByteSize_charAt_le {text : String} {index : Nat} {c : Char}
    (found : text.toList[index]? = some c) : c.toString.utf8ByteSize ≤ text.utf8ByteSize := by
  have part : [c].Sublist text.toList := List.singleton_sublist.mpr (List.mem_of_getElem? found)
  simpa using utf8ByteSize_ofList_le part

/-! ## Pieces -/

theorem utf8ByteSize_trim_le (text : String) :
    (Text.trim text).utf8ByteSize ≤ text.utf8ByteSize := by
  refine utf8ByteSize_ofList_le ?_
  have front : (Text.trimStart text.toList).Sublist text.toList := List.dropWhile_sublist _
  have back : (Text.trimEnd (Text.trimStart text.toList)).Sublist (Text.trimStart text.toList) := by
    rw [← List.reverse_sublist, Text.trimEnd, List.reverse_reverse]
    exact List.dropWhile_sublist _
  exact back.trans front

theorem utf8ByteSize_between_le (start stop : Nat) (text : String) :
    (String.ofList (between start stop text.toList)).utf8ByteSize ≤ text.utf8ByteSize :=
  utf8ByteSize_ofList_le ((List.drop_sublist _ _).trans (List.take_sublist _ _))

theorem utf8ByteSize_charAtText_le (h : Heap) (text : String) (index : Value) :
    (charAtText h text index).utf8ByteSize ≤ text.utf8ByteSize := by
  unfold charAtText
  dsimp only
  split
  · exact Nat.zero_le _
  · generalize (Number.toIntWithin (-1) (Number.pow2 62) (index.toNumber h)).toNat = place
    cases found : text.toList[place]? with
    | none => exact Nat.zero_le _
    | some c => exact utf8ByteSize_charAt_le found

/-- The piece at hand goes on in what is not cut yet; the pieces before it are
    finished. -/
theorem cut_sublist {separator whole : List Char} (skip : Nat) (rest piece : List Char)
    (found : List (List Char)) (current : (piece.reverse ++ rest).Sublist whole)
    (finished : ∀ part ∈ found, part.Sublist whole) :
    ∀ part ∈ cut separator skip rest piece found, part.Sublist whole := by
  induction rest generalizing skip piece found with
  | nil =>
      have all : ∀ part ∈ (piece.reverse :: found).reverse, part.Sublist whole := by
        intro part member
        rcases List.mem_cons.mp (List.mem_reverse.mp member) with rfl | earlier
        · simpa using current
        · exact finished part earlier
      cases skip <;> exact all
  | cons c rest ih =>
      have shorter : (piece.reverse ++ rest).Sublist whole :=
        ((List.sublist_cons_self c rest).append_left _).trans current
      cases skip with
      | succ skip => exact ih skip piece found shorter finished
      | zero =>
          unfold cut
          split
          · refine ih _ [] _ ?_ ?_
            · exact (List.sublist_append_right _ _).trans shorter
            · exact List.forall_mem_cons.mpr
                ⟨(List.sublist_append_left _ _).trans current, finished⟩
          · exact ih 0 (c :: piece) found (by simpa using current) finished

theorem utf8ByteSize_splitText_le {text separator piece : String}
    (member : piece ∈ splitText text separator) : piece.utf8ByteSize ≤ text.utf8ByteSize := by
  unfold splitText at member
  split at member
  · obtain ⟨c, found, rfl⟩ := List.mem_map.mp member
    obtain ⟨index, found⟩ := List.mem_iff_getElem?.mp found
    exact utf8ByteSize_charAt_le found
  · obtain ⟨chars, found, rfl⟩ := List.mem_map.mp member
    exact utf8ByteSize_ofList_le (cut_sublist 0 text.toList [] [] (by simp) (by simp) chars found)

/-! ## Names -/

theorem Builtin.utf8ByteSize_name_le (b : Builtin) : b.name.utf8ByteSize ≤ 1024 := by
  cases b with
  | list listing => cases listing <;> decide
  | number function => cases function <;> decide
  | console level => cases level <;> decide
  | _ => decide

theorem ArrayMethod.utf8ByteSize_name_le (method : ArrayMethod) :
    method.name.utf8ByteSize ≤ 1024 := by
  cases method <;> decide

theorem StringMethod.utf8ByteSize_name_le (method : StringMethod) :
    method.name.utf8ByteSize ≤ 1024 := by
  cases method <;> decide

theorem NumberMethod.utf8ByteSize_name_le (method : NumberMethod) :
    method.name.utf8ByteSize ≤ 1024 := by
  cases method <;> decide

theorem Bound.utf8ByteSize_name_le (b : Bound) : b.name.utf8ByteSize ≤ 1024 := by
  cases b with
  | array ref method => exact method.utf8ByteSize_name_le
  | string text method => exact method.utf8ByteSize_name_le
  | number value method => exact method.utf8ByteSize_name_le

theorem Value.utf8ByteSize_typeName_le (v : Value) : v.typeName.utf8ByteSize ≤ 1024 := by
  cases v <;> exact Nat.le_of_ble_eq_true rfl

end StrategyQubo.Script
