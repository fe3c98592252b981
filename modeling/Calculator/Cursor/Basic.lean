import Calculator.Failure

/-!
A cursor over lexemes: what is left to read, and how many levels are open.

The two parts do not touch each other. Reading moves forward through the lexemes and never back;
entering and leaving count the open levels, which never exceed the limit. The end of the last
lexeme is kept from the start, so that an error at the end of the input still has a position.

Main statement: `enter` succeeds exactly while fewer levels than the limit are open
(`enter_eq_ok_iff`).
-/
namespace Calculator

/-- How many levels may be open at once, and how high a tree may be. -/
def depthLimit : Nat := 512

/-- A position among lexemes, with the count of the levels open there. -/
structure Cursor where
  /-- The lexemes not read yet. -/
  rest : List Lexeme
  /-- The end of the last of all lexemes, read or not. -/
  stop : Nat
  depth : Nat
  deriving DecidableEq

namespace Cursor

/-- A cursor in front of all the lexemes, with no level open. -/
def ofLexemes (lexemes : List Lexeme) : Cursor :=
  ⟨lexemes, (lexemes.getLast?.map (·.span.stop)).getD 0, 0⟩

def peek? (cursor : Cursor) : Option Lexeme := cursor.rest.head?

/-- The cursor behind the next lexeme, or where it is when there is none. -/
def skip (cursor : Cursor) : Cursor := { cursor with rest := cursor.rest.tail }

/-- Opens a level for the lexeme at a position, unless the limit is reached. -/
def enter (cursor : Cursor) (position : Nat) : Except ParseError Cursor :=
  if cursor.depth < depthLimit then .ok { cursor with depth := cursor.depth + 1 }
  else .error (.tooDeep depthLimit position)

/-- Closes a level, if one is open. -/
def leave (cursor : Cursor) : Cursor := { cursor with depth := cursor.depth - 1 }

@[simp]
theorem rest_skip (cursor : Cursor) : cursor.skip.rest = cursor.rest.tail := rfl

@[simp]
theorem depth_leave (cursor : Cursor) : cursor.leave.depth = cursor.depth - 1 := rfl

theorem peek?_eq_none_iff (cursor : Cursor) : cursor.peek? = none ↔ cursor.rest = [] := by
  simp [peek?]

theorem enter_eq_ok_iff (cursor entered : Cursor) (position : Nat) :
    cursor.enter position = .ok entered ↔
      cursor.depth < depthLimit ∧ entered = { cursor with depth := cursor.depth + 1 } := by
  unfold enter
  split
  next room => simp [room, eq_comm]
  next full => simp [full]

end Cursor
end Calculator
