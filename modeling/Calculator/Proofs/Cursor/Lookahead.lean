import Calculator.Cursor.Replay

/-!
A cursor that looks ahead into a buffer.

Lexemes that come from a stream cannot be seen without taking them from there. So what is shown of
the next one is kept until it is asked for, and a copy of the cursor has a copy of it. Nothing of
this can be told from the answers: looking ahead moves a lexeme from the stream into the buffer, and
together they hold what is still to be read.

Main statement: a replay with a buffer gives the same answers as one without (`Buffered.run_eq`).
-/
namespace Calculator.Cursor

/-- A cursor over a stream, with what looking ahead has found there. -/
structure Lookahead where
  /-- The next lexeme, or that there is none, if it was looked for. -/
  ahead : Option (Option Lexeme)
  stream : Cursor
  ended : ahead = some none → stream.rest = []

namespace Lookahead

/-- Nothing was looked for yet. -/
def ofCursor (cursor : Cursor) : Lookahead := ⟨none, cursor, nofun⟩

/-- The cursor with the lexeme from the buffer back in front. -/
def cursor (buffered : Lookahead) : Cursor :=
  { buffered.stream with rest := buffered.ahead.join.toList ++ buffered.stream.rest }

/-- Takes the next lexeme from the stream, unless that was done before. -/
def look (buffered : Lookahead) : Option Lexeme × Lookahead :=
  match buffered.ahead with
  | some found => (found, buffered)
  | none =>
    (buffered.stream.peek?, {
      ahead := some buffered.stream.peek?
      stream := buffered.stream.skip
      ended := fun none => by
        have nothing := (peek?_eq_none_iff _).mp (Option.some.inj none)
        rw [rest_skip, nothing, List.tail_nil] })

/-- Takes the next lexeme from the buffer, or from the stream if it is not there. -/
def take (buffered : Lookahead) : Option Lexeme × Lookahead :=
  match buffered.ahead with
  | some found => (found, ofCursor buffered.stream)
  | none => (buffered.stream.peek?, ofCursor buffered.stream.skip)

def withDepth (depth : Nat) (buffered : Lookahead) : Lookahead :=
  { buffered with stream := { buffered.stream with depth := depth } }

theorem look_eq (buffered : Lookahead) : buffered.look.1 = buffered.cursor.peek? ∧
    buffered.look.2.cursor = buffered.cursor := by
  obtain ⟨_ | _ | lexeme, ⟨rest, stop, depth⟩, ended⟩ := buffered
  · cases rest <;> exact ⟨rfl, rfl⟩
  · obtain rfl : rest = [] := ended rfl
    exact ⟨rfl, rfl⟩
  · exact ⟨rfl, rfl⟩

theorem take_eq (buffered : Lookahead) : buffered.take.1 = buffered.cursor.peek? ∧
    buffered.take.2.cursor = buffered.cursor.skip := by
  obtain ⟨_ | _ | lexeme, ⟨rest, stop, depth⟩, ended⟩ := buffered
  · exact ⟨rfl, rfl⟩
  · obtain rfl : rest = [] := ended rfl
    exact ⟨rfl, rfl⟩
  · exact ⟨rfl, rfl⟩

end Lookahead

/-- A replay whose cursors look ahead into buffers. -/
structure Buffered where
  current : Lookahead
  saved : Nat → Lookahead

namespace Buffered

def start (cursor : Cursor) : Buffered := ⟨.ofCursor cursor, fun _ => .ofCursor cursor⟩

/-- One step. Those that have to do with neither lexemes nor copies leave the buffer alone. -/
def step (buffered : Buffered) : Step → Answer × Buffered
  | .peek => (.next buffered.current.look.1, { buffered with current := buffered.current.look.2 })
  | .advance =>
    (.next buffered.current.take.1, { buffered with current := buffered.current.take.2 })
  | .save slot =>
    (.done, { buffered with
      saved := fun other => if other = slot then buffered.current else buffered.saved other })
  | .restore slot => (.done, { buffered with current := buffered.saved slot })
  | other =>
    let (answer, moved) := (Replay.start buffered.current.stream).step other
    (answer, { buffered with current := buffered.current.withDepth moved.current.depth })

def run (buffered : Buffered) : List Step → List Answer
  | [] => []
  | next :: steps => (buffered.step next).1 :: run (buffered.step next).2 steps

/-- The replay with all lexemes back from the buffers. -/
def replay (buffered : Buffered) : Replay :=
  ⟨buffered.current.cursor, fun slot => (buffered.saved slot).cursor⟩

theorem step_eq (buffered : Buffered) (step : Step) :
    (buffered.step step).1 = (buffered.replay.step step).1 ∧
      (buffered.step step).2.replay = (buffered.replay.step step).2 := by
  cases step with
  | peek =>
    obtain ⟨shown, same⟩ := buffered.current.look_eq
    exact ⟨congrArg Answer.next shown, congrArg (Replay.mk · _) same⟩
  | advance =>
    obtain ⟨shown, same⟩ := buffered.current.take_eq
    exact ⟨congrArg Answer.next shown, congrArg (Replay.mk · _) same⟩
  | enter position =>
    -- Whether there is room for a level does not depend on what was taken from the stream.
    have level : buffered.replay.current.depth = buffered.current.stream.depth := rfl
    have alone : (Replay.start buffered.current.stream).current = buffered.current.stream := rfl
    simp only [step, Replay.step_enter, level, alone]
    by_cases room : buffered.current.stream.depth < depthLimit
    · rw [if_pos room, if_pos room]
      exact ⟨rfl, rfl⟩
    · rw [if_neg room, if_neg room]
      exact ⟨rfl, rfl⟩
  | save slot =>
    -- The copy has a copy of the buffer.
    refine ⟨rfl, congrArg (Replay.mk _) (funext fun other => ?_)⟩
    exact apply_ite Lookahead.cursor (other = slot) _ _
  | stop | leave | restore => exact ⟨rfl, rfl⟩

theorem run_eq (buffered : Buffered) (steps : List Step) :
    buffered.run steps = buffered.replay.run steps := by
  induction steps generalizing buffered with
  | nil => rfl
  | cons next steps ih =>
    obtain ⟨answer, moved⟩ := buffered.step_eq next
    rw [run, Replay.run, answer, ih, moved]

end Buffered
end Calculator.Cursor
