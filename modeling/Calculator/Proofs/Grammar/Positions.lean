import Calculator.Proofs.Grammar.Derivation
import Calculator.Proofs.Grammar.Misfit

/-!
What the position of an error belongs to.

Reading never goes back, so what a rule leaves is the end of what was in front of it. An error about
a token that is missing or does not fit is about the first lexeme that is left, or about the end if
none is. An error about a limit is about a lexeme that was passed, and this one opens a level or
makes a node.

Main statement: an error of a row of lexemes is about one of them, or about their end
(`concerns_of_error`).
-/
namespace Calculator

open Grammar in
/-- What an error is about, where some of these lexemes are left unread. -/
def ParseError.Concerns (stop : Nat) (all unread : List Lexeme) : ParseError → Prop
  | missingOperand found position => found = front unread ∧ position = place unread stop
  | unexpected found _ position => found = front unread ∧ position = place unread stop
  | tooDeep _ position => ∃ lexeme ∈ all, position = lexeme.span.start ∧
      lexeme.token ∈ [Token.minus, .leftParen, .plus, .star, .slash]

namespace Grammar

theorem concerns_mono {stop : Nat} {some all unread : List Lexeme} {error : ParseError}
    (part : some ⊆ all) (concerns : error.Concerns stop some unread) :
    error.Concerns stop all unread := by
  cases error with
  | missingOperand | unexpected => exact concerns
  | tooDeep limit position =>
    obtain ⟨lexeme, member, about⟩ := concerns
    exact ⟨lexeme, part member, about⟩

variable {stop depth : Nat} {goal : Goal} {rest stopped : List Lexeme}
variable {outcome : Except ParseError Subtree}

theorem Reads.suffix (reads : Reads stop goal depth rest outcome stopped) : stopped <:+ rest := by
  induction reads with
  | literal | groupTooDeep | minusTooDeep => exact List.suffix_cons _ _
  | noOperand | ended => exact List.suffix_rfl
  | groupFails span room inner ih | groupUnclosed span room inner unclosed ih
  | minusFails span room inner ih | minus span room inner ih | nextFails left span known next ih
  | nextTooHigh known next high ih => exact ih.trans (List.suffix_cons _ _)
  | group span last room inner ih =>
    exact ((List.suffix_cons _ _).trans ih).trans (List.suffix_cons _ _)
  | primary unsigned inner ih => exact ih
  | firstFails precedence first ih => exact ih
  | row precedence first others ihFirst ih => exact ih.trans ihFirst
  | next known next made others ihNext ih =>
    exact (ih.trans ihNext).trans (List.suffix_cons _ _)

/-- An error of a rule is about a lexeme that it was given. -/
theorem Reads.concerns (reads : Reads stop goal depth rest outcome stopped) (error : ParseError)
    (returned : outcome = .error error) : error.Concerns stop rest stopped := by
  induction reads generalizing error with
  | noOperand | groupUnclosed =>
    cases returned
    exact ⟨rfl, rfl⟩
  | groupTooDeep span rest full | minusTooDeep span rest full =>
    cases returned
    exact ⟨_, List.mem_cons_self, rfl, by simp⟩
  | groupFails span room inner ih | minusFails span room inner ih
  | nextFails left span known next ih =>
    exact concerns_mono (List.subset_cons_self _ _) (ih error returned)
  | minus span room inner ih =>
    obtain rfl := Subtree.error_of_ofNode returned
    exact ⟨_, List.mem_cons_self, rfl, by simp⟩
  | @nextTooHigh depth precedence token operator rest stopped left right error span known next high
      ih =>
    cases returned
    obtain rfl := Subtree.error_of_ofNode high
    obtain ⟨rfl, _⟩ := (operators_eq_some_iff _ _ _).mp known
    exact ⟨_, List.mem_cons_self, rfl, by cases operator <;> simp [Operator.token]⟩
  | primary unsigned inner ih => exact ih error returned
  | firstFails precedence first ih => exact ih error returned
  | row precedence first others ihFirst ih =>
    exact concerns_mono first.suffix.subset (ih error returned)
  | next known next made others ihNext ih =>
    exact concerns_mono (List.subset_cons_of_subset _ next.suffix.subset) (ih error returned)
  | literal | group | ended => cases returned

/-- An error of a row of lexemes is about one of them, or about their end. -/
theorem concerns_of_error {lexemes : List Lexeme} {error : ParseError}
    (returned : Expr.ofLexemes lexemes = .error error) :
    ∃ unread, unread <:+ lexemes ∧
      error.Concerns (Cursor.ofLexemes lexemes).stop lexemes unread := by
  obtain ⟨outcome, stopped, reads⟩ := exists_readsExpression lexemes
  refine ⟨stopped, reads.suffix, ?_⟩
  rw [ofLexemes_of_reads reads] at returned
  cases outcome with
  | error other =>
    cases returned
    exact reads.concerns _ rfl
  | ok subtree =>
    -- A tree was read, and the error is about the lexeme that is left behind it.
    cases stopped with
    | nil => cases returned
    | cons extra stopped =>
      cases returned
      exact ⟨rfl, rfl⟩

end Grammar
end Calculator
