import StrategyQubo.Proofs.Sessions
import StrategyQubo.Proofs.SpelledPrograms
import StrategyQubo.Proofs.TokenSizes

namespace StrategyQubo

open StrategyQubo.Script

/-! # Sizes of collections

A strategy whose source is within the collection limit builds no array and no
string beyond it, as long as nothing does that evaluation leaves unchecked:
objects of any size can be listed, and error messages and a change of case make
texts of any length.
-/

namespace Script

/-- What counts against the collection limit. -/
structure Machine.WithinLimit (m : Machine) (limit : Nat) : Prop where
  arrays : ∀ items ∈ m.heap.arrays, items.size ≤ limit
  strings : ∀ text, m.Holds (.string text) → text.utf8ByteSize ≤ limit

variable {env : Environment} {m : Machine} {source : String} {shown : List Value}

theorem Machine.Sound.keepsLimit {room : 1024 ≤ env.limits.maxCollectionLen}
    (sound : m.Sound (.limited env.limits room)) : m.WithinLimit env.limits.maxCollectionLen :=
  ⟨fun items member => (sound.heap.arrays items member).size,
    fun _ held => Machine.Holds.sound held sound⟩

/-! ## Sources -/

theorem Keyword.spelling_short (word : Keyword) : word.spelling.utf8ByteSize ≤ 1024 := by
  cases word <;> decide

theorem Ration.limited_closed (limits : Limits) (room : 1024 ≤ limits.maxCollectionLen) :
    (limited limits room).spelling.Closed where
  keywords word := (limited limits room).text_of_short word.spelling_short
  numbers value := (limited limits room).text_of_short (Number.utf8ByteSize_scriptText_le value)
  holes _ _ _ small cut :=
    tokenizeAt_within (fun _ => trivial) (fun _ part => Nat.le_trans part small)
      (fun _ _ part => Nat.le_trans part small) cut

/-- A program has no texts that are larger than its source. -/
theorem Program.parse_limited {limits : Limits} {room : 1024 ≤ limits.maxCollectionLen}
    {program : Program} (small : source.utf8ByteSize ≤ limits.maxCollectionLen)
    (parsed : Program.parse source = .ok program) :
    ∀ statement ∈ program.body, statement.Spelled (Ration.limited limits room).spelling := by
  cases cut : tokenize source with
  | error error =>
      rw [Program.parse, cut] at parsed
      cases parsed
  | ok tokens =>
      have within := tokenizeAt_within (s := (Ration.limited limits room).spelling)
        (fun _ => trivial) (fun _ part => Nat.le_trans part small)
        (fun _ _ part => Nat.le_trans part small) cut
      exact Program.parse_spelled (Ration.limited_closed limits room) cut within parsed

/-! ## Strategies -/

/-- Whoever runs a strategy and plays on boards with it. -/
def Host.player (source : String) (allows : Event → Prop) : Host where
  runs program := Program.parse source = .ok program
  gives value := ∃ cell : Cell, value = .string cell.mark
  makes items := ∃ board : Board, items = (board.marks.map Value.string).toArray
  allows := allows

variable {allows : Event → Prop}

theorem Host.player_respects (room : 1024 ≤ env.limits.maxCollectionLen)
    (small : source.utf8ByteSize ≤ env.limits.maxCollectionLen)
    (spares : ∀ event, allows event → event.Spares (.limited env.limits room)) :
    (player source allows).Respects (.limited env.limits room) where
  runs _ parsed := Program.parse_limited small parsed
  gives := by
    rintro _ ⟨cell, rfl⟩ scopes
    exact Ration.text_of_short _ (by cases cell <;> decide)
  makes := by
    rintro _ ⟨board, rfl⟩
    have cells : (board.marks.map Value.string).toArray.size = boardCells := by
      simp [Board.marks, Board.toList]
    exact cells ▸ Nat.le_trans (by decide) room
  allows := spares

/-- The limit holds all the time, also between two steps. -/
theorem Session.withinLimit (room : 1024 ≤ env.limits.maxCollectionLen)
    (small : source.utf8ByteSize ≤ env.limits.maxCollectionLen)
    (spares : ∀ event, allows event → event.Spares (.limited env.limits room))
    (session : Session env (.player source allows) m shown) :
    m.WithinLimit env.limits.maxCollectionLen ∧
    ∀ errand : Errand, errand.Permitted (.player source allows) shown →
      (∀ event ∈ errand.events env m, allows event) →
      m.replay (errand.events env m) = errand.machine env m ∧
      ∀ before later, errand.events env m = before ++ later →
        (m.replay before).WithinLimit env.limits.maxCollectionLen := by
  have respects := Host.player_respects room small spares
  obtain ⟨sound, given⟩ := session.sound respects
  refine ⟨sound.keepsLimit, fun errand permitted allowed => ?_⟩
  have done := Errand.sound respects sound given permitted
    fun event member => spares event (allowed event member)
  refine ⟨done.replayed, fun before later split => ?_⟩
  have passage := done.passage
  rw [split] at passage
  exact (passage.left.leads sound).sound.keepsLimit

/-- Such events are spared whatever the limit is. -/
def Event.isPlain : Event → Bool
  | .performed (.newObject _) _ _ => false
  | .performed (.setProperty (.object _) _ _) _ _ => false
  | .entered (.call (.bound _ (.string _ .toUpperCase)) _) _ => false
  | .entered (.call (.bound _ (.string _ .toLowerCase)) _) _ => false
  | .caught _ _ _ _ => false
  | _ => true

theorem Event.spares_of_isPlain {limits : Limits} (r : Ration limits) {event : Event}
    (plain : event.isPlain = true) : event.Spares r := by
  unfold Event.Spares
  split <;> trivial

def collectionSettings : Environment :=
  ⟨{ stepBudget := 100, maxCollectionLen := 1024 }, fun _ => 0⟩

def joining : String :=
  "var row = ['X', 'O'].concat(['X']); var line = row.join('-');"

theorem joining_withinLimit :
    ∃ program, Program.parse joining = .ok program ∧
      ((Errand.run program).machine collectionSettings
        (.fresh collectionSettings.limits)).WithinLimit 1024 := by
  have plain : (Program.parse joining).toOption.any (fun program =>
      ((Errand.run program).events collectionSettings
        (.fresh collectionSettings.limits)).all Event.isPlain) = true := by decide +kernel
  cases parsed : Program.parse joining with
  | error error =>
      rw [parsed] at plain
      cases plain
  | ok program =>
      rw [parsed] at plain
      have room : 1024 ≤ collectionSettings.limits.maxCollectionLen := Nat.le_refl _
      have session : Session collectionSettings (.player joining fun event => event.isPlain)
          (.fresh collectionSettings.limits) [] := .fresh
      obtain ⟨-, errands⟩ := Session.withinLimit room (by decide)
        (fun _ => Event.spares_of_isPlain (.limited collectionSettings.limits room)) session
      obtain ⟨replayed, within⟩ := errands (.run program) parsed (List.all_eq_true.mp plain)
      exact ⟨program, rfl, replayed ▸ within _ [] (List.append_nil _).symm⟩

def Value.isLongerThan (limit : Nat) : Value → Bool
  | .string text => decide (limit < text.utf8ByteSize)
  | _ => false

theorem Machine.not_withinLimit {limit : Nat}
    (longer : m.scopes.any (·.bindings.any (·.2.value.isLongerThan limit)) = true) :
    ¬ m.WithinLimit limit := by
  intro within
  obtain ⟨scope, made, longer⟩ := Array.any_eq_true'.mp longer
  obtain ⟨entry, bound, longer⟩ := List.any_eq_true.mp longer
  have held := Machine.Holds.binding made bound
  generalize entry.2.value = value at held longer
  cases value with
  | string text =>
      have size := within.strings text held
      exact absurd (of_decide_eq_true longer) (Nat.not_lt_of_le size)
  | _ => cases longer

/-- The message of the error is a text of 16 bytes, 64 times. -/
def describing : String :=
  "var s='0123456789ABCDEF';var t=[s,s,s,s,s,s,s,s];var m=Error([t,t,t,t,t,t,t,t]).message;"

/-- Nothing checks the message of an error. -/
theorem describing_exceeds_limit :
    describing.utf8ByteSize ≤ collectionSettings.limits.maxCollectionLen ∧
    ∃ program, Program.parse describing = .ok program ∧
      ¬ ((Errand.run program).machine collectionSettings
        (.fresh collectionSettings.limits)).WithinLimit
          collectionSettings.limits.maxCollectionLen := by
  have longer : (Program.parse describing).toOption.any (fun program =>
      ((Errand.run program).machine collectionSettings
        (.fresh collectionSettings.limits)).scopes.any
          (·.bindings.any (·.2.value.isLongerThan 1024))) = true := by decide +kernel
  refine ⟨by decide, ?_⟩
  cases parsed : Program.parse describing with
  | error error =>
      rw [parsed] at longer
      cases longer
  | ok program =>
      rw [parsed] at longer
      exact ⟨program, rfl, Machine.not_withinLimit longer⟩

end Script

/-! ## Entry points -/

namespace Strategy

variable {source : String} {allows : Event → Prop} {m : Machine} {shown : List Value}

theorem holds_global {name : String} {value : Value} (bound : m.global? name = some value) :
    m.Holds value := by
  obtain ⟨binding, found, rfl⟩ := Option.map_eq_some_iff.mp bound
  obtain ⟨s, made, entry, member, rfl⟩ := Machine.mem_of_find? found
  exact .binding made member

namespace EntryPoint

/-- Loading a strategy is the beginning of a session, in which its function has
    been looked at. -/
theorem load_session {env : Environment} {entry : EntryPoint} {log : Array LogEntry}
    (loaded : load source env = (.ok entry, log))
    (allowed : ∀ program, Program.parse source = .ok program →
      ∀ event ∈ (Errand.run program).events env (.fresh env.limits), allows event) :
    entry.environment = env ∧
      Session env (.player source allows) entry.machine [entry.function] := by
  unfold load at loaded
  cases parsed : Program.parse source with
  | error error => simp [parsed] at loaded
  | ok program =>
      cases ran : runProgram program env (.fresh env.limits) with
      | error error after => simp [parsed, ran] at loaded
      | ok done after =>
          cases found : after.global? entryName with
          | none => simp [parsed, ran, found] at loaded
          | some function =>
              cases callable : function.isCallable with
              | false => simp [parsed, ran, found, callable] at loaded
              | true =>
                  simp only [parsed, ran, found, callable, if_true, Prod.mk.injEq,
                    Except.ok.injEq] at loaded
                  obtain ⟨rfl, -⟩ := loaded
                  have session : Session env (.player source allows)
                      ((Errand.run program).machine env (.fresh env.limits)) [] :=
                    .errand .fresh parsed (allowed program parsed)
                  simp only [Errand.machine, ran, Outcome.machine_ok] at session
                  exact ⟨rfl, .logRead (.look session (holds_global found))⟩

/-- The machine with an array of the board's marks, and that array. -/
def seat (entry : EntryPoint) (board : Board) : Machine × Value :=
  let (ref, heap) := entry.machine.heap.newArray (board.marks.map Value.string).toArray
  ({ entry.machine with heap := heap }, .array ref)

/-- A call with a board goes on with the session. -/
theorem call_session {entry : EntryPoint} (board : Board)
    (session : Session entry.environment (.player source allows) entry.machine shown)
    (known : entry.function ∈ shown)
    (allowed : ∀ event ∈ (Errand.call entry.function [(entry.seat board).2]).events
      entry.environment (entry.seat board).1, allows event) :
    ∃ more, Session entry.environment (.player source allows) (entry.call board).2.1.machine
      (more ++ shown) := by
  have marks : ∀ item ∈ (board.marks.map Value.string).toArray,
      (Host.player source allows).Knows shown item := by
    intro item member
    simp only [Board.marks, List.map_map, List.mem_toArray, List.mem_map] at member
    obtain ⟨cell, -, rfl⟩ := member
    exact .inr ⟨cell, rfl⟩
  have seated : Session entry.environment (.player source allows) (entry.seat board).1
      ((entry.seat board).2 :: shown) := .array session ⟨board, rfl⟩ marks
  have permitted : (Errand.call entry.function [(entry.seat board).2]).Permitted
      (.player source allows) ((entry.seat board).2 :: shown) :=
    List.forall_mem_cons.mpr ⟨.inl (List.mem_cons_of_mem _ known),
      List.forall_mem_singleton.mpr (.inl List.mem_cons_self)⟩
  have called := Session.logRead (.errand seated permitted allowed)
  have same : (entry.call board).2.1.machine = readLog
      ((Errand.call entry.function [(entry.seat board).2]).machine entry.environment
        (entry.seat board).1) := by
    unfold call seat Errand.machine
    dsimp only
    cases callFunction entry.function _ entry.environment _ <;> rfl
  rw [same]
  exact ⟨_ ++ [_], by simpa using called⟩

end EntryPoint

end Strategy

end StrategyQubo
