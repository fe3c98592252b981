import Calculator.Cursor.Basic

/-!
Replaying steps on a cursor: every step gives an answer and moves the cursor on.

Copies of the cursor can be kept in any number of slots, and each can be gone back to, in any order
and as often as wanted. A slot that nothing was kept in holds the cursor that the replay began with.
-/
namespace Calculator.Cursor

inductive Step where
  | peek
  | advance
  | stop
  | enter (position : Nat)
  | leave
  | save (slot : Nat)
  | restore (slot : Nat)
  deriving DecidableEq

/-- What a step shows. -/
inductive Answer where
  /-- The next lexeme, if there is one. -/
  | next (lexeme : Option Lexeme)
  | offset (position : Nat)
  | done
  | refused (error : ParseError)
  deriving DecidableEq

/-- The cursor in use, and the one in every slot. -/
structure Replay where
  current : Cursor
  saved : Nat → Cursor

namespace Replay

def start (cursor : Cursor) : Replay := ⟨cursor, fun _ => cursor⟩

def moveTo (replay : Replay) (cursor : Cursor) : Replay := { replay with current := cursor }

/-- Keeps a copy of the cursor in a slot, in place of the one there. -/
def keep (replay : Replay) (slot : Nat) : Replay :=
  { replay with
    saved := fun other => if other = slot then replay.current else replay.saved other }

def step (replay : Replay) : Step → Answer × Replay
  | .peek => (.next replay.current.peek?, replay)
  | .advance => (.next replay.current.peek?, replay.moveTo replay.current.skip)
  | .stop => (.offset replay.current.stop, replay)
  | .enter position =>
    match replay.current.enter position with
    | .ok entered => (.done, replay.moveTo entered)
    | .error error => (.refused error, replay)
  | .leave => (.done, replay.moveTo replay.current.leave)
  | .save slot => (.done, replay.keep slot)
  | .restore slot => (.done, replay.moveTo (replay.saved slot))

/-- The answers to steps. -/
def run (replay : Replay) : List Step → List Answer
  | [] => []
  | next :: steps => (replay.step next).1 :: run (replay.step next).2 steps

/-- The replay after some steps. -/
def after (replay : Replay) (steps : List Step) : Replay :=
  steps.foldl (fun replay next => (replay.step next).2) replay

theorem step_enter (replay : Replay) (position : Nat) :
    replay.step (.enter position) =
      if replay.current.depth < depthLimit then
        (.done, replay.moveTo { replay.current with depth := replay.current.depth + 1 })
      else (.refused (.tooDeep depthLimit position), replay) := by
  rw [step, enter]
  by_cases room : replay.current.depth < depthLimit
  · rw [if_pos room, if_pos room]
  · rw [if_neg room, if_neg room]

end Replay
end Calculator.Cursor
