import StrategyQubo.Json
import StrategyQubo.Proofs.TokenTexts

namespace StrategyQubo

open StrategyQubo.Script

/-! # Quoted texts as string literals

A text that is quoted for JSON is a string literal of the strategy language,
and the text is its content.
-/

namespace Script.Scan

variable {lexemes : List Lexeme} {bound : Nat}

/-! ## Hexadecimal escapes -/

theorem hexDigits_control : ∀ n < 32,
    Number.isHexDigit (Json.hexDigit (n / 16)) = true ∧
      Number.isHexDigit (Json.hexDigit (n % 16)) = true ∧
      (Number.hexNumber? (Number.pow2 32)
        ['0', '0', Json.hexDigit (n / 16), Json.hexDigit (n % 16)]).bind charOfCode? =
          some (Char.ofNat n) := by
  decide

theorem takeHexDigits_step {c : Char} (hex : Number.isHexDigit c = true) (width : Nat)
    (digits rest : List Char) (position : Position) :
    takeHexDigits (width + 1) digits ⟨c :: rest, position⟩ =
      takeHexDigits width (c :: digits) ⟨rest, position.step c⟩ := by
  have taken : take? ⟨c :: rest, position⟩ = .ok (some c, ⟨rest, position.step c⟩) := rfl
  rw [takeHexDigits, StateT.bind_ok taken]
  simp only [hex, if_true]

theorem fixedEscape_control {c : Char} (control : c.toNat < 32) (rest : List Char)
    (position : Position) :
    ∃ position', fixedEscape 4
      ⟨'0' :: '0' :: Json.hexDigit (c.toNat / 16) :: Json.hexDigit (c.toNat % 16) :: rest,
        position⟩ = .ok (c, ⟨rest, position'⟩) := by
  obtain ⟨high, low, decoded⟩ := hexDigits_control c.toNat control
  rw [Char.ofNat_toNat] at decoded
  have zero : Number.isHexDigit '0' = true := by decide
  have digits := (takeHexDigits_step zero 3 [] _ position).trans
    ((takeHexDigits_step zero 2 _ _ _).trans
      ((takeHexDigits_step high 1 _ _ _).trans (takeHexDigits_step low 0 _ rest _)))
  have taken := digits.trans (show _ = Except.ok _ from rfl)
  refine ⟨position.after
    ['0', '0', Json.hexDigit (c.toNat / 16), Json.hexDigit (c.toNat % 16)], ?_⟩
  unfold fixedEscape
  rw [StateT.bind_ok taken]
  simp only [List.reverse_cons, List.reverse_nil, List.nil_append, List.cons_append, decoded]
  rfl

/-! ## Characters -/

theorem stringBody_control {c : Char} (control : c.toNat < 32) (bound : Nat) (text : String)
    (rest : List Char) (position : Position) :
    ∃ position', stringBody '\x22' (bound + 1) text
      ⟨'\\' :: 'u' :: '0' :: '0' :: Json.hexDigit (c.toNat / 16) ::
        Json.hexDigit (c.toNat % 16) :: rest, position⟩ =
      stringBody '\x22' bound (text.push c) ⟨rest, position'⟩ := by
  obtain ⟨position', decoded⟩ :=
    fixedEscape_control control rest ((position.step '\\').step 'u')
  refine ⟨position', ?_⟩
  change (fixedEscape 4 >>= fun decoded => stringBody '\x22' bound (text.push decoded)) _ = _
  exact StateT.bind_ok decoded

theorem stringBody_plain {c : Char} (noQuote : c ≠ '\x22') (noEscape : c ≠ '\\')
    (noLineEnd : c ≠ '\n') (bound : Nat) (text : String) (rest : List Char)
    (position : Position) :
    stringBody '\x22' (bound + 1) text ⟨c :: rest, position⟩ =
      stringBody '\x22' bound (text.push c) ⟨rest, position.step c⟩ := by
  have taken : take? ⟨c :: rest, position⟩ = .ok (some c, ⟨rest, position.step c⟩) := rfl
  rw [stringBody, StateT.bind_ok taken]
  dsimp only
  rw [if_neg noQuote, if_neg noEscape, if_neg noLineEnd]

/-- An escaped character is read back in one turn. -/
theorem stringBody_escapeChar (c : Char) (bound : Nat) (text : String) (rest : List Char)
    (position : Position) :
    ∃ position', stringBody '\x22' (bound + 1) text ⟨(Json.escapeChar c).toList ++ rest, position⟩ =
      stringBody '\x22' bound (text.push c) ⟨rest, position'⟩ := by
  unfold Json.escapeChar
  split_ifs with quote backslash lineEnd lineStart tab back feed control
  · subst quote
    exact ⟨_, rfl⟩
  · subst backslash
    exact ⟨_, rfl⟩
  · subst lineEnd
    exact ⟨_, rfl⟩
  · subst lineStart
    exact ⟨_, rfl⟩
  · subst tab
    exact ⟨_, rfl⟩
  · subst back
    exact ⟨_, rfl⟩
  · subst feed
    exact ⟨_, rfl⟩
  · rw [String.toList_append, String.toList_ofList, String.toList_ofList]
    exact stringBody_control control bound text rest position
  · have alone : c.toString.toList = [c] := by simp [Char.toString]
    rw [alone]
    exact ⟨_, stringBody_plain quote backslash lineEnd bound text rest position⟩

theorem escapeChar_ne_nil (c : Char) : (Json.escapeChar c).toList ≠ [] := by
  unfold Json.escapeChar
  split_ifs <;> simp

/-! ## Texts -/

/-- The characters of a text between its quotes. -/
def escaped (chars : List Char) : List Char :=
  chars.flatMap fun c => (Json.escapeChar c).toList

theorem toList_quoted (text : String) :
    (Json.quoted text).toList = '\x22' :: (escaped text.toList ++ ['\x22']) := by
  rw [Json.quoted, String.toList_append, String.toList_append, String.toList_join,
    List.flatMap_map]
  rfl

theorem stringBody_escaped (chars : List Char) (enough : chars.length < bound) (text : String)
    (rest : List Char) (position : Position) :
    ∃ position', stringBody '\x22' bound text ⟨escaped chars ++ '\x22' :: rest, position⟩ =
      .ok (String.ofList (text.toList ++ chars), ⟨rest, position'⟩) := by
  induction chars generalizing bound text position with
  | nil =>
      obtain ⟨bound, rfl⟩ := Nat.exists_eq_add_one_of_ne_zero (Nat.ne_zero_of_lt enough)
      refine ⟨position.step '\x22', ?_⟩
      rw [List.append_nil, String.ofList_toList]
      rfl
  | cons c chars ih =>
      obtain ⟨bound, rfl⟩ := Nat.exists_eq_add_one_of_ne_zero (Nat.ne_zero_of_lt enough)
      obtain ⟨between, turned⟩ :=
        stringBody_escapeChar c bound text (escaped chars ++ '\x22' :: rest) position
      obtain ⟨position', finished⟩ := ih (Nat.lt_of_succ_lt_succ enough) (text.push c) between
      refine ⟨position', ?_⟩
      rw [escaped, List.flatMap_cons, List.append_assoc]
      refine turned.trans (finished.trans ?_)
      rw [String.toList_push, List.append_assoc]
      rfl

theorem length_le_escaped (chars : List Char) : chars.length ≤ (escaped chars).length := by
  induction chars with
  | nil => exact le_rfl
  | cons c chars ih =>
      have some := List.length_pos_iff.mpr (escapeChar_ne_nil c)
      rw [escaped, List.flatMap_cons, List.length_append, List.length_cons]
      rw [escaped] at ih
      omega

theorem Cuts.quoted {rest : List Char} (text : String) (cuts : Cuts rest lexemes) :
    Cuts ((Json.quoted text).toList ++ rest) (.string text :: lexemes) := by
  rw [toList_quoted, List.cons_append, List.append_assoc, List.singleton_append]
  refine .lexeme ⟨solid_cons (by decide) (by decide) (by decide) _, ?_, ?_⟩ cuts
  · simp only [List.length_cons, List.length_append]
    omega
  · rintro d ⟨⟩ bound position enough
    have room := length_le_escaped text.toList
    have long : text.toList.length < bound := by
      simp only [List.length_cons, List.length_append] at enough
      omega
    obtain ⟨position', read⟩ :=
      stringBody_escaped text.toList long "" rest (position.step '\x22')
    refine ⟨position', ?_⟩
    have skipped : skip ⟨'\x22' :: (escaped text.toList ++ '\x22' :: rest), position⟩ =
        .ok ((), ⟨escaped text.toList ++ '\x22' :: rest, position.step '\x22'⟩) := rfl
    have content : String.ofList ("".toList ++ text.toList) = text := String.ofList_toList
    rw [content] at read
    have looked : ahead ⟨'\x22' :: (escaped text.toList ++ '\x22' :: rest), position⟩ =
        .ok ('\x22' :: (escaped text.toList ++ '\x22' :: rest),
          ⟨'\x22' :: (escaped text.toList ++ '\x22' :: rest), position⟩) := rfl
    have noNumber : ¬ startsNumber ('\x22' :: (escaped text.toList ++ '\x22' :: rest)) = true := by
      simp [startsNumber]
    unfold Scan.lexeme
    rw [StateT.bind_ok looked, if_neg noNumber, if_pos (.inl rfl), StateT.bind_ok skipped]
    exact StateT.bind_ok read

end Script.Scan

end StrategyQubo
