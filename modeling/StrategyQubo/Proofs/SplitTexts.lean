import StrategyQubo.Proofs.JoinedPieces
import StrategyQubo.Proofs.TextSizes

namespace StrategyQubo.Script

/-! # Split texts

A text that is split at a separator is joined by the same separator again, and no
piece has the separator in it.  Joining needs no more room than the text itself.
-/

/-! ## Cutting -/

section

variable {separator : List Char}

theorem intercalate_last (separator : List Char) (before : List (List Char))
    (first second : List Char) :
    separator.intercalate (before ++ [first, second]) =
      separator.intercalate (before ++ [first ++ separator ++ second]) := by
  induction before with
  | nil => simp
  | cons head rest ih =>
      cases rest with
      | nil => simp
      | cons next rest => simpa using ih

/-- Together with the separators the pieces are the text that there was to cut. -/
theorem intercalate_cut (nonempty : separator ≠ []) {skip : Nat} {rest piece : List Char}
    {found : List (List Char)} (ahead : skip ≤ rest.length) :
    separator.intercalate (cut separator skip rest piece found) =
      separator.intercalate (found.reverse ++ [piece.reverse ++ rest.drop skip]) := by
  fun_induction cut separator skip rest piece found with
  | case1 skip piece found =>
      simp at ahead
      simp [ahead]
  | case2 skip c rest piece found ih => simpa using ih (by simpa using ahead)
  | case3 c rest piece found occurs ih =>
      obtain ⟨behind, split⟩ := List.isPrefixOf_iff_prefix.mp occurs
      have long : 0 < separator.length := List.length_pos_iff.mpr nonempty
      have left : rest.drop (separator.length - 1) = behind := by
        have dropped := congrArg (List.drop separator.length) split
        rw [List.drop_left, ← Nat.sub_add_cancel long, List.drop_succ_cons] at dropped
        exact dropped.symm
      have room : separator.length - 1 ≤ rest.length := by
        have sizes := congrArg List.length split
        simp at sizes
        omega
      rw [ih room, left, List.drop_zero, ← split]
      simpa using intercalate_last separator found.reverse piece.reverse behind
  | case4 c rest piece found other ih => simpa using ih (Nat.zero_le _)

/-- A piece ends where the separator is met for the first time.  So it does not
    begin in the piece at hand, as long as no other piece has been begun. -/
theorem not_infix_of_mem_cut {skip : Nat} {rest piece : List Char}
    {found : List (List Char)} (nonempty : separator ≠ [])
    (unmet : ∀ i < piece.length, ¬ separator <+: (piece.reverse ++ rest.drop skip).drop i)
    (earlier : ∀ done ∈ found, ¬ separator <:+: done) :
    ∀ done ∈ cut separator skip rest piece found, ¬ separator <:+: done := by
  have whole {piece behind : List Char}
      (unmet : ∀ i < piece.length, ¬ separator <+: (piece.reverse ++ behind).drop i) :
      ¬ separator <:+: piece.reverse := by
    rintro ⟨before, after, same⟩
    have long : 0 < separator.length := List.length_pos_iff.mpr nonempty
    have sizes := congrArg List.length same
    simp at sizes
    apply unmet before.length (by omega)
    exact ⟨after ++ behind, by simp [← same]⟩
  fun_induction cut separator skip rest piece found with
  | case1 skip piece found =>
      simp only [List.mem_reverse, List.mem_cons, forall_eq_or_imp]
      exact ⟨whole unmet, earlier⟩
  | case2 skip c rest piece found ih => exact ih (by simpa using unmet) earlier
  | case3 c rest piece found occurs ih =>
      apply ih (by simp)
      simp only [List.mem_cons, forall_eq_or_imp]
      exact ⟨whole unmet, earlier⟩
  | case4 c rest piece found other ih =>
      apply ih _ earlier
      intro i below
      by_cases old : i < piece.length
      · simpa using unmet i old
      · have last : i = piece.reverse.length := by
          simp at below ⊢
          omega
        rw [last]
        simpa [List.isPrefixOf_iff_prefix] using other

end

theorem intercalate_singles (cs : List Char) :
    ([] : List Char).intercalate (cs.map fun c => [c]) = cs := by
  induction cs with
  | nil => rfl
  | cons c rest ih => cases rest <;> simp_all

/-! ## Texts -/

theorem intercalate_splitText (text separator : String) :
    separator.intercalate (splitText text separator) = text := by
  rw [← String.toList_inj, String.toList_intercalate, splitText]
  split
  · next empty =>
    have none : separator.toList = [] := by simpa using empty
    simpa [none, Function.comp_def] using intercalate_singles text.toList
  · next other =>
    have nonempty : separator.toList ≠ [] := by simpa using other
    have pieces : separator.toList.intercalate (cut separator.toList 0 text.toList [] []) =
        separator.toList.intercalate [text.toList] := intercalate_cut nonempty (Nat.zero_le _)
    simpa [Function.comp_def] using pieces

theorem not_infix_of_mem_splitText {text separator : String} (nonempty : separator ≠ "") :
    ∀ piece ∈ splitText text separator, ¬ separator.toList <:+: piece.toList := by
  have other : separator.toList ≠ [] := by simpa using nonempty
  rw [splitText, if_neg (by simpa using nonempty)]
  have apart : ∀ piece ∈ cut separator.toList 0 text.toList [] [],
      ¬ separator.toList <:+: piece :=
    not_infix_of_mem_cut other (by simp) (by simp)
  simpa using apart

/-- A separator that is too long to be converted separates nothing. -/
theorem display_string (h : Heap) (text : String) :
    (Value.string text).display h = if displayLimit < text.utf8ByteSize then "" else text := by
  have written : (Value.string text).write h .plain displayLimit = writePiece displayLimit text "" := rfl
  rw [Value.display, written]
  simp only [writePiece, String.utf8ByteSize_empty, Nat.zero_add, String.empty_append]
  by_cases long : displayLimit < text.utf8ByteSize
  · rw [if_pos long, if_pos long]
  · rw [if_neg long, if_neg long]

theorem display_piece_free {h : Heap} {text separator : String} (nonempty : separator ≠ "") :
    ∀ piece ∈ splitText text ((Value.string separator).display h),
      ¬ separator.toList <:+: piece.toList := by
  rw [display_string]
  split
  · next long =>
    intro piece member part
    obtain ⟨c, -, rfl⟩ := List.mem_map.mp member
    have small : (String.ofList separator.toList).utf8ByteSize ≤ 4 :=
      Nat.le_trans (utf8ByteSize_ofList_le part.sublist) (utf8ByteSize_char_le c)
    have room : 4 < displayLimit := by decide
    rw [String.ofList_toList] at small
    omega
  · exact not_infix_of_mem_splitText nonempty

/-! ## Joining strings -/

section

variable {answer : (task : Task) → Action task.Answer} {env : Environment} {m : Machine}
  {ref : ArrayRef} {separator : String}

theorem stringify_run {value : Value} {text : String} (found : value.text? m.heap = some text)
    (fits : text.utf8ByteSize ≤ env.limits.maxCollectionLen) :
    (Eval.stringify value).run answer env m = .ok text m := by
  rw [Eval.stringify, Eval.run_operate]
  simp only [Operation.run, Action.stringify]
  rw [Value.displayWithin_eq_ok_iff.mpr ⟨found, fits⟩]

theorem checkLength_run {requested : Nat} (fits : requested ≤ env.limits.maxCollectionLen) :
    (Eval.checkLength requested).run answer env m = .ok () m := by
  rw [Eval.checkLength, Eval.run_operate]
  exact if_neg (Nat.not_lt.mpr fits)

theorem joinPiece_run {piece : String} (fits : piece.utf8ByteSize ≤ env.limits.maxCollectionLen) :
    (joinPiece (.array ref) (.string piece)).run answer env m = .ok piece m :=
  stringify_run rfl fits

/-- What is joined so far is never longer than all that is joined. -/
theorem joinLater_run {pieces : List String} {before : String}
    (fits : (before ++ String.join (pieces.map (separator ++ ·))).utf8ByteSize ≤
      env.limits.maxCollectionLen) :
    (joinLater (.array ref) separator (pieces.map .string) before).run answer env m =
      .ok (before ++ String.join (pieces.map (separator ++ ·))) m := by
  induction pieces generalizing before with
  | nil => simp [joinLater, Eval.run, pure]
  | cons piece rest ih =>
      have parts : before ++ String.join ((piece :: rest).map (separator ++ ·)) =
          before ++ separator ++ piece ++ String.join (rest.map (separator ++ ·)) := by
        simp [String.append_assoc]
      rw [parts] at fits ⊢
      have sizes := fits
      simp only [String.utf8ByteSize_append] at sizes
      simp only [List.map_cons, joinLater, Eval.run_bind]
      rw [joinPiece_run (by omega), Outcome.andThen_ok, checkLength_run, Outcome.andThen_ok,
        ih fits]
      simp only [String.utf8ByteSize_append]
      omega

theorem joinAll_run {pieces : List String}
    (fits : (separator.intercalate pieces).utf8ByteSize ≤ env.limits.maxCollectionLen) :
    (joinAll (.array ref) separator (pieces.map .string)).run answer env m =
      .ok (separator.intercalate pieces) m := by
  cases pieces with
  | nil => simp [joinAll, Eval.run, pure]
  | cons piece rest =>
      rw [intercalate_cons] at fits ⊢
      have sizes := fits
      simp only [String.utf8ByteSize_append] at sizes
      simp only [List.map_cons, joinAll, Eval.run_bind]
      rw [joinPiece_run (by omega), Outcome.andThen_ok, checkLength_run (by omega),
        Outcome.andThen_ok, joinLater_run fits]

theorem mapM_strings {read : Value → Option String} (pieces : List String)
    (reads : ∀ text, read (.string text) = some text) :
    (pieces.map Value.string).mapM read = some pieces := by
  induction pieces with
  | nil => rfl
  | cons piece rest ih => simp [reads, ih]

theorem joinWith_run {pieces : List String}
    (held : (m.heap.arrayAt ref).toList = pieces.map .string)
    (fits : (separator.intercalate pieces).utf8ByteSize ≤ env.limits.maxCollectionLen) :
    (joinWith ref separator).run answer env m =
      .ok (.string (separator.intercalate pieces)) m := by
  unfold joinWith
  split
  · next comma =>
    have found : Value.text? m.heap (.array ref) = some (",".intercalate pieces) := by
      change Option.map _ ((m.heap.arrayAt ref).toList.mapM _) = _
      rw [held, mapM_strings pieces fun _ => rfl]
      rfl
    rw [Eval.run_bind, stringify_run found (comma ▸ fits), comma]
    rfl
  · rw [Eval.run_bind, Eval.heap, Eval.run_operate]
    simp only [Operation.run, Outcome.andThen_ok]
    rw [Eval.run_bind, held, joinAll_run fits]
    rfl

end

/-! ## Calls -/

section

variable {env : Environment} {m after : Machine} {identity rank : Nat}

theorem Outcome.mapMachine_id {α : Type} (outcome : Outcome α) :
    outcome.mapMachine id = outcome := by
  cases outcome <;> rfl

/-- A bound method takes one step. -/
theorem Task.evaluate_bound (rank identity : Nat) (method : Bound) (arguments : List Value)
    (env : Environment) (m : Machine) :
    Task.evaluate (rank + 1) (.call (.bound identity method) arguments) env m =
      (Action.tick env m).andThen fun _ begun =>
        (method.rule arguments).run (Task.evaluate rank) (rank + 1) env begun := by
  change (Action.tick env m).andThen _ = _
  congr 1
  funext _ begun
  exact Outcome.mapMachine_id _

theorem split_eq_ok {text separator : String} {more : List Value} {answer : Value}
    (ran : Task.evaluate rank (.call (.bound identity (.string text .split))
      (.string separator :: more)) env m = .ok answer after) :
    ∃ ref, answer = .array ref ∧ (after.heap.arrayAt ref).toList =
      (splitText text ((Value.string separator).display m.heap)).map .string := by
  cases rank with
  | zero => cases ran
  | succ rank =>
      rw [Task.evaluate_bound] at ran
      obtain ⟨_, begun, _, ran⟩ := Outcome.exists_of_andThen_eq_ok ran
      obtain ⟨h, _, seen, ran⟩ := Eval.exists_of_bind_eq_ok ran
      cases seen
      obtain ⟨_, _, short, made⟩ := Eval.exists_of_bind_eq_ok ran
      obtain rfl := checkLength_eq_ok short
      cases made
      refine ⟨_, rfl, ?_⟩
      simp [Heap.arrayAt, argument, display_string]

theorem join_run {ref : ArrayRef} {text separator : String} {pieces : List String}
    {more : List Value} (held : (m.heap.arrayAt ref).toList = pieces.map .string)
    (joined : ((Value.string separator).display m.heap).intercalate pieces = text)
    (fits : text.utf8ByteSize ≤ env.limits.maxCollectionLen)
    (ticked : Action.tick env m = .ok () after) :
    Task.evaluate (rank + 1) (.call (.bound identity (.array ref .join))
      (.string separator :: more)) env m = .ok (.string text) after := by
  have heap : after.heap = m.heap := by
    rcases Action.tick_cases env m with ⟨done, -⟩ | ⟨error, -, failed⟩
    · rw [done] at ticked
      cases ticked
      rfl
    · rw [failed] at ticked
      cases ticked
  subst joined
  rw [Task.evaluate_bound, ticked, Outcome.andThen_ok]
  change (Eval.display (.string separator) >>= joinWith ref).run _ env after = _
  rw [Eval.run_bind]
  change (joinWith ref ((Value.string separator).display after.heap)).run _ env after = _
  rw [← heap] at held fits ⊢
  exact joinWith_run held fits

/-- What a text is split into is joined to the text by the same separator, from any
    machine that still has the array, whenever joining succeeds; and where the text
    is within the limit, it does succeed with the one step that it takes.  No piece
    has a separator in it that is not empty. -/
theorem split_joins_back {text separator : String} {more : List Value} {answer : Value}
    (ran : Task.evaluate rank (.call (.bound identity (.string text .split))
      (.string separator :: more)) env m = .ok answer after) :
    ∃ (ref : ArrayRef) (pieces : List String), answer = .array ref ∧
      (after.heap.arrayAt ref).toList = pieces.map .string ∧
      (separator ≠ "" → ∀ piece ∈ pieces, ¬ separator.toList <:+: piece.toList) ∧
      ∀ (rank' identity' : Nat) (more' : List Value) (env' : Environment) (m' : Machine),
        m'.heap.arrayAt ref = after.heap.arrayAt ref →
        let join := Task.evaluate rank' (.call (.bound identity' (.array ref .join))
          (.string separator :: more')) env' m'
        (∀ joined last, join = .ok joined last → joined = .string text) ∧
        ∀ begun, 0 < rank' → Action.tick env' m' = .ok () begun →
          text.utf8ByteSize ≤ env'.limits.maxCollectionLen → join = .ok (.string text) begun := by
  obtain ⟨ref, rfl, held⟩ := split_eq_ok ran
  have display (h : Heap) : (Value.string separator).display m.heap =
      (Value.string separator).display h := by
    rw [display_string, display_string]
  have whole := intercalate_splitText text ((Value.string separator).display m.heap)
  refine ⟨ref, _, rfl, held, display_piece_free, ?_⟩
  intro rank' identity' more' env' m' kept
  rw [← kept] at held
  rw [display m'.heap] at held whole
  refine ⟨?_, ?_⟩
  · intro joined last done
    have answers : (Joining.method (.string separator :: more')).Answers m'.heap ref joined :=
      ⟨rank', identity', env', m', last, rfl, done⟩
    obtain ⟨pieces, listed, rfl⟩ := answers.pieces
    change Heap.pieces? m'.heap ref ((Value.string separator).display m'.heap) = _ at listed
    change Value.string (((Value.string separator).display m'.heap).intercalate pieces) = _
    rw [Heap.pieces?, held, mapM_strings _ (fun _ => by split <;> rfl)] at listed
    rw [← Option.some.inj listed, whole]
  · intro begun positive ticked fits
    obtain ⟨rank', rfl⟩ := Nat.exists_eq_add_one.mpr positive
    exact join_run held whole fits ticked

end

/-- A limit that a text of three characters just meets. -/
def tightSettings : Environment :=
  ⟨{ maxCollectionLen := 3 }, fun _ => 0⟩

def overlapping : Machine :=
  { Machine.around ⟨#[#[.string "", .string "a"]], #[]⟩ with steps := 1 }

/-- The separator overlaps itself in the text. -/
theorem split_joins_back_overlapping :
    ∃ ref : ArrayRef,
      Task.evaluate 1 (.call (.bound 0 (.string "aaa" .split)) [.string "aa"]) tightSettings
        (.around .empty) = .ok (.array ref) overlapping ∧
      Task.evaluate 1 (.call (.bound 1 (.array ref .join)) [.string "aa"]) tightSettings
        overlapping = .ok (.string "aaa") { overlapping with steps := 2 } := by
  have split : Task.evaluate 1 (.call (.bound 0 (.string "aaa" .split)) [.string "aa"])
      tightSettings (.around .empty) = .ok (.array ⟨0⟩) overlapping := rfl
  obtain ⟨ref, pieces, same, held, free, joins⟩ := split_joins_back split
  refine ⟨ref, same ▸ split, ?_⟩
  have ticked : Action.tick tightSettings overlapping = .ok () { overlapping with steps := 2 } := rfl
  exact (joins 1 1 [] tightSettings overlapping rfl).2 _ Nat.one_pos ticked (by decide)

end StrategyQubo.Script
