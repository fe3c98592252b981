import Calculator.Proofs.Grammar.Derivation

/-!
What the places of tokens matter for.

A rule decides by the tokens in front of it and by the number of open levels. The places of lexemes
are passed on to errors and used for nothing else, so lexemes may be moved to any other places: the
same tree is read, or the same error, moved along with them.

Main statements: a row of lexemes is read as if its tokens stood at their numbers, and the number
that an error is at tells its position (`ofLexemes_eq_numbered`), so rows with the same tokens form
the same tree or fail at the same number (`ofLexemes_of_same_tokens`).
-/
namespace Calculator

/-- The same lexeme at another place. -/
def Lexeme.relocate (spans : Span → Span) (lexeme : Lexeme) : Lexeme :=
  ⟨lexeme.token, spans lexeme.span⟩

/-- The same error at another position. -/
def ParseError.relocate (positions : Nat → Nat) : ParseError → ParseError
  | missingOperand found position => missingOperand found (positions position)
  | unexpected found expected position => unexpected found expected (positions position)
  | tooDeep limit position => tooDeep limit (positions position)

namespace Grammar

section

variable {spans : Span → Span} {positions : Nat → Nat}

theorem front_relocate (rest : List Lexeme) :
    front (rest.map (Lexeme.relocate spans)) = front rest := by
  cases rest <;> rfl

theorem ofNode_relocate (expr : Expr) (height position : Nat) :
    Subtree.ofNode expr height (positions position) =
      (Subtree.ofNode expr height position).mapError (ParseError.relocate positions) := by
  unfold Subtree.ofNode
  split <;> rfl

variable (starts : ∀ span, (spans span).start = positions span.start)
include starts

theorem place_relocate (rest : List Lexeme) (stop : Nat) :
    place (rest.map (Lexeme.relocate spans)) (positions stop) = positions (place rest stop) := by
  cases rest with
  | nil => rfl
  | cons lexeme rest => exact starts lexeme.span

/-- What is read does not depend on places, and an error is moved with the lexemes. -/
theorem Reads.relocate {stop depth : Nat} {goal : Goal} {rest stopped : List Lexeme}
    {outcome : Except ParseError Subtree} (reads : Reads stop goal depth rest outcome stopped) :
    Reads (positions stop) goal depth (rest.map (Lexeme.relocate spans))
      (outcome.mapError (ParseError.relocate positions))
      (stopped.map (Lexeme.relocate spans)) := by
  -- The same rule applies to the lexemes that were moved. Only an error or a node that is refused
  -- takes a place along, of the lexeme in front of what is left or of the operator.
  induction reads with
  | literal value span rest => exact .literal value _ _
  | noOperand rest misfit =>
    have sameFront : front (rest.map (Lexeme.relocate spans)) = front rest := front_relocate rest
    simp only [Except.mapError, ParseError.relocate, ← place_relocate starts, ← sameFront]
    exact .noOperand _ (sameFront ▸ misfit)
  | groupTooDeep span rest full =>
    simp only [Except.mapError, ParseError.relocate, ← starts]
    exact .groupTooDeep _ _ full
  | groupFails span room inner ih => exact .groupFails _ room ih
  | @groupUnclosed depth rest stopped subtree span room inner unclosed ih =>
    have sameFront : front (stopped.map (Lexeme.relocate spans)) = front stopped :=
      front_relocate stopped
    simp only [Except.mapError, ParseError.relocate, ← place_relocate starts, ← sameFront]
    exact .groupUnclosed _ room ih (sameFront ▸ unclosed)
  | group span last room inner ih => exact .group _ _ room ih
  | primary unsigned inner ih => exact .primary (by rwa [front_relocate]) ih
  | minusTooDeep span rest full =>
    simp only [Except.mapError, ParseError.relocate, ← starts]
    exact .minusTooDeep _ _ full
  | minusFails span room inner ih => exact .minusFails _ room ih
  | minus span room inner ih =>
    have reads := Reads.minus (spans span) room ih
    rw [starts, Subtree.negated, ofNode_relocate] at reads
    exact reads
  | firstFails precedence first ih => exact .firstFails precedence ih
  | row precedence first others ihFirst ih => exact .row precedence ihFirst ih
  | ended precedence left rest no => exact .ended precedence left _ (by rwa [front_relocate])
  | nextFails left span known next ih => exact .nextFails left _ known ih
  | nextTooHigh known next high ih =>
    refine .nextTooHigh known ih ?_
    rw [starts, Subtree.joined, ofNode_relocate, ← Subtree.joined, high]
    rfl
  | next known next made others ihNext ih =>
    refine .next known ihNext ?_ ih
    rw [starts, Subtree.joined, ofNode_relocate, ← Subtree.joined, made]
    rfl

variable (spans positions) in
theorem ofLexemes_relocate (lexemes : List Lexeme)
    (stops : (Cursor.ofLexemes (lexemes.map (Lexeme.relocate spans))).stop =
      positions (Cursor.ofLexemes lexemes).stop) :
    Expr.ofLexemes (lexemes.map (Lexeme.relocate spans)) =
      (Expr.ofLexemes lexemes).mapError (ParseError.relocate positions) := by
  obtain ⟨outcome, stopped, reads⟩ := exists_readsExpression lexemes
  have moved := reads.relocate starts
  rw [← stops] at moved
  rw [ofLexemes_of_reads reads, ofLexemes_of_reads moved]
  cases outcome with
  | error error => rfl
  | ok subtree =>
    cases stopped with
    | nil => rfl
    | cons extra stopped =>
      simp only [Except.mapError, ParseError.relocate, ← starts]
      rfl

end

/-- Tokens in a row, each standing at its own number. -/
def numbered (row : List Token) : List Lexeme :=
  row.mapIdx fun index token => ⟨token, index, index + 1⟩

/-- Where the lexeme with a number stands, or the end of the last one where there is none. -/
def spanAt (lexemes : List Lexeme) (index : Nat) : Span :=
  (lexemes[index]?.map (·.span)).getD
    ⟨(Cursor.ofLexemes lexemes).stop, (Cursor.ofLexemes lexemes).stop⟩

theorem relocate_numbered (lexemes : List Lexeme) :
    (numbered (tokens lexemes)).map (Lexeme.relocate fun span => spanAt lexemes span.start) =
      lexemes := by
  apply List.ext_getElem?
  intro index
  rw [List.getElem?_map, numbered, List.getElem?_mapIdx, tokens, List.getElem?_map]
  cases found : lexemes[index]? with
  | none => rfl
  | some lexeme => simp [Lexeme.relocate, spanAt, found]

theorem stop_numbered (row : List Token) : (Cursor.ofLexemes (numbered row)).stop = row.length := by
  rcases List.eq_nil_or_concat row with rfl | ⟨earlier, last, rfl⟩
  · rfl
  · simp [Cursor.ofLexemes, numbered, List.mapIdx_append]

/-- A row of lexemes is read as if its tokens stood at their numbers. Where an error is at a number,
it is at the start of the lexeme with this number, or at the end of the last one. -/
theorem ofLexemes_eq_numbered (lexemes : List Lexeme) :
    Expr.ofLexemes lexemes = (Expr.ofLexemes (numbered (tokens lexemes))).mapError
      (ParseError.relocate fun index => (spanAt lexemes index).start) := by
  have relocated := ofLexemes_relocate (fun span => spanAt lexemes span.start)
    (fun index => (spanAt lexemes index).start) (fun _ => rfl) (numbered (tokens lexemes))
  rw [relocate_numbered, stop_numbered, tokens, List.length_map] at relocated
  exact relocated (by simp [spanAt])

theorem relocate_position (positions : Nat → Nat) (error : ParseError) :
    error.relocate positions = error.relocate fun _ => positions error.position := by
  cases error <;> rfl

/-- Rows with the same tokens form the same tree, or fail alike, at lexemes with the same number or
both at the end. -/
theorem ofLexemes_of_same_tokens {lexemes others : List Lexeme}
    (same : tokens lexemes = tokens others) :
    (∃ e, Expr.ofLexemes lexemes = .ok e ∧ Expr.ofLexemes others = .ok e) ∨
      ∃ (error : ParseError) (index : Nat),
        Expr.ofLexemes lexemes = .error (error.relocate fun _ => (spanAt lexemes index).start) ∧
          Expr.ofLexemes others = .error (error.relocate fun _ => (spanAt others index).start) := by
  rw [ofLexemes_eq_numbered lexemes, ofLexemes_eq_numbered others, same]
  cases Expr.ofLexemes (numbered (tokens others)) with
  | ok e => exact Or.inl ⟨e, rfl, rfl⟩
  | error error =>
    exact Or.inr ⟨error, error.position, congrArg Except.error (relocate_position _ error),
      congrArg Except.error (relocate_position _ error)⟩

end Grammar
end Calculator
