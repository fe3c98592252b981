/-!
Lines of a text or of a row of bytes.

A line ends at a line feed, which does not belong to it, and neither does a carriage return
directly before the line feed. What follows the last line feed is a line too, unless it is empty,
and keeps a carriage return at its end. Characters and bytes are divided by the same rule.

Main statements: the first line is what stands before the first line feed, and the other lines are
those of what stands behind it (`linesOf_append_cons`); without a line feed there is one line, or
none (`linesOf_of_not_mem`).
-/
namespace Calculator.Text

variable {α : Type} [DecidableEq α]

/-- A line without the mark at its end, if it has one. -/
def dropFinal (mark : α) (line : List α) : List α :=
  if line.getLast? = some mark then line.dropLast else line

/-- What follows the last line feed. -/
def remainder (lineFeed : α) (symbols : List α) : List α :=
  (symbols.splitOn lineFeed).getLast (List.splitOn_ne_nil lineFeed symbols)

/-- The lines of a row of symbols. -/
def linesOf (lineFeed carriageReturn : α) (symbols : List α) : List (List α) :=
  (symbols.splitOn lineFeed).dropLast.map (dropFinal carriageReturn) ++
    if (remainder lineFeed symbols).isEmpty then [] else [remainder lineFeed symbols]

theorem remainder_of_not_mem {lineFeed : α} {symbols : List α} (absent : lineFeed ∉ symbols) :
    remainder lineFeed symbols = symbols := by
  simp only [remainder, List.splitOn_eq_singleton absent, List.getLast_singleton]

theorem remainder_append_cons (lineFeed : α) (line rest : List α) :
    remainder lineFeed (line ++ lineFeed :: rest) = remainder lineFeed rest := by
  simp only [remainder, List.splitOn_append_cons_self]
  exact List.getLast_append_of_ne_nil _ (List.splitOn_ne_nil lineFeed rest)

theorem linesOf_of_not_mem {lineFeed : α} (carriageReturn : α) {symbols : List α}
    (absent : lineFeed ∉ symbols) :
    linesOf lineFeed carriageReturn symbols = if symbols.isEmpty then [] else [symbols] := by
  rw [linesOf, remainder_of_not_mem absent, List.splitOn_eq_singleton absent]
  rfl

theorem linesOf_append_cons {lineFeed : α} (carriageReturn : α) {line : List α} (rest : List α)
    (absent : lineFeed ∉ line) :
    linesOf lineFeed carriageReturn (line ++ lineFeed :: rest) =
      dropFinal carriageReturn line :: linesOf lineFeed carriageReturn rest := by
  rw [linesOf, remainder_append_cons, List.splitOn_append_cons_self,
    List.splitOn_eq_singleton absent, List.dropLast_append_of_ne_nil (List.splitOn_ne_nil _ _)]
  rfl

def lines (text : String) : List String := (linesOf '\n' '\r' text.toList).map String.ofList

/-- The lines of a row of bytes, each decoded on its own if it can be. -/
def decodedLines (bytes : ByteArray) : List (Option String) :=
  (linesOf 10 13 bytes.data.toList).map fun line => String.fromUTF8? line.toByteArray

end Calculator.Text
