import Calculator.Proofs.Grammar.Reading

/-!
Where a row of tokens stops being the beginning of an expression.

A row is read from the left with no more in mind than whether an operand is needed next and how many
parentheses are open. The first token that does not fit, or the end of a row that may not end yet,
is what an error is about, however deep in the rules it is noticed.

The rules read what they accept as this reading does, with any number of parentheses open around
it, and an error is raised exactly where this reading stops. Both are shown by one induction over
what the rules read.

Main statement: unless a limit is exceeded, a row forms a tree exactly if it can be read to its end
and may end there, and otherwise the error is the one that the reading names
(`ofLexemes_of_walk`).
-/
namespace Calculator.Grammar

/-- What is known between two tokens of a row that is read from the left. -/
structure Situation where
  needsOperand : Bool
  unclosed : Nat
  deriving DecidableEq

namespace Situation

def start : Situation := ⟨true, 0⟩

/-- A row may end where an operand is present and every parenthesis is closed. -/
def complete : Situation := ⟨false, 0⟩

/-- The situation behind a token, if the token fits. -/
def after? : Situation → Token → Option Situation
  -- An operand may begin with minuses and parentheses.
  | ⟨true, unclosed⟩, .minus => some ⟨true, unclosed⟩
  | ⟨true, unclosed⟩, .leftParen => some ⟨true, unclosed + 1⟩
  | ⟨true, unclosed⟩, .literal _ => some ⟨false, unclosed⟩
  -- Behind an operand the minus is an operator.
  | ⟨false, unclosed⟩, .plus => some ⟨true, unclosed⟩
  | ⟨false, unclosed⟩, .minus => some ⟨true, unclosed⟩
  | ⟨false, unclosed⟩, .star => some ⟨true, unclosed⟩
  | ⟨false, unclosed⟩, .slash => some ⟨true, unclosed⟩
  | ⟨false, unclosed + 1⟩, .rightParen => some ⟨false, unclosed⟩
  | _, _ => none

/-- The error that is due when reading stops in a situation at a token, or at the end. -/
def complaint (situation : Situation) (found : Option Token) (position : Nat) : ParseError :=
  if situation.needsOperand then .missingOperand found position
  else .unexpected found (if situation.unclosed = 0 then none else some .rightParen) position

end Situation

/-- Reads from the left for as long as the tokens fit: where reading stops, and what is left. -/
def walk (situation : Situation) : List Lexeme → Situation × List Lexeme
  | [] => (situation, [])
  | lexeme :: rest =>
    match situation.after? lexeme.token with
    | some next => walk next rest
    | none => (situation, lexeme :: rest)

theorem walk_of_fits {situation next : Situation} {lexeme : Lexeme}
    (fits : situation.after? lexeme.token = some next) (rest : List Lexeme) :
    walk situation (lexeme :: rest) = walk next rest := by
  rw [walk, fits]

theorem walk_of_misfits {situation : Situation} {rest : List Lexeme}
    (misfits : (front rest).bind situation.after? = none) :
    walk situation rest = (situation, rest) := by
  cases rest with
  | nil => rfl
  | cons lexeme rest =>
    have stuck : situation.after? lexeme.token = none := misfits
    rw [walk, stuck]

theorem needed_misfits {next : Option Token} (misfit : opensPrimary next = false)
    (unsigned : next ≠ some .minus) (unclosed : Nat) :
    next.bind (Situation.after? ⟨true, unclosed⟩) = none := by
  rcases next with _ | token
  · rfl
  · cases token <;> first | rfl | exact absurd rfl unsigned | cases misfit

theorem present_fits {precedence : Precedence} {token : Token} {operator : Operator}
    (known : precedence.operators token = some operator) (unclosed : Nat) :
    Situation.after? ⟨false, unclosed⟩ token = some ⟨true, unclosed⟩ := by
  cases precedence <;> cases token <;> first | rfl | cases known

theorem present_misfits {next : Option Token} (ends : Category.Ends (.row .additive) next)
    (unclosed : Nat) (closed : next = some .rightParen → unclosed = 0) :
    next.bind (Situation.after? ⟨false, unclosed⟩) = none := by
  -- Behind an operand only operators and a parenthesis that closes one could fit.
  rcases next with _ | token
  · rfl
  · cases token with
    | rightParen =>
      obtain rfl := closed rfl
      rfl
    | leftParen | literal => rfl
    | star | slash => cases ends.1
    | plus | minus => cases ends.2 rfl

theorem Subtree.error_of_ofNode {expr : Expr} {height position : Nat} {error : ParseError}
    (refused : ofNode expr height position = .error error) :
    error = .tooDeep depthLimit position := by
  unfold ofNode at refused
  split at refused
  · cases refused
  · cases refused
    rfl

def Goal.needsOperand : Goal → Bool
  | .whole _ => true
  | .more _ _ => false

/-- What a rule reads is read token by token as well, however many parentheses are open. -/
theorem Reads.walk_eq {stop depth : Nat} {goal : Goal} {rest stopped : List Lexeme}
    {outcome : Except ParseError Subtree} (reads : Reads stop goal depth rest outcome stopped)
    (subtree : Subtree) (returned : outcome = .ok subtree) (unclosed : Nat) :
    walk ⟨goal.needsOperand, unclosed⟩ rest = walk ⟨false, unclosed⟩ stopped := by
  induction reads generalizing subtree unclosed with
  | literal value span rest => exact walk_of_fits rfl rest
  | @group depth rest stopped subtree span last room inner ih =>
    calc walk ⟨true, unclosed⟩ (⟨.leftParen, span⟩ :: rest)
        = walk ⟨true, unclosed + 1⟩ rest := walk_of_fits rfl rest
      _ = walk ⟨false, unclosed + 1⟩ (⟨.rightParen, last⟩ :: stopped) := ih _ rfl (unclosed + 1)
      _ = walk ⟨false, unclosed⟩ stopped := walk_of_fits rfl stopped
  | primary unsigned inner ih => exact ih subtree returned unclosed
  | @minus depth rest stopped operand span room inner ih =>
    exact (walk_of_fits rfl rest).trans (ih _ rfl unclosed)
  | row precedence first others ihFirst ih =>
    exact (ihFirst _ rfl unclosed).trans (ih subtree returned unclosed)
  | ended precedence left rest no => rfl
  | @next depth precedence token operator rest middle stopped left right higher outcome span known
      next made others ihNext ih =>
    calc walk ⟨false, unclosed⟩ (⟨token, span⟩ :: rest)
        = walk ⟨true, unclosed⟩ rest := walk_of_fits (present_fits known unclosed) rest
      _ = walk ⟨false, unclosed⟩ middle := ihNext _ rfl unclosed
      _ = walk ⟨false, unclosed⟩ stopped := ih subtree returned unclosed
  | noOperand | groupTooDeep | groupFails | groupUnclosed | minusTooDeep | minusFails | firstFails
  | nextFails | nextTooHigh => cases returned

/-- Reading a row from a situation stops before the row is complete, and this error is due. -/
def Blames (stop : Nat) (situation : Situation) (rest : List Lexeme) (error : ParseError) : Prop :=
  ∃ final unread, walk situation rest = (final, unread) ∧ final ≠ .complete ∧
    error = final.complaint (front unread) (place unread stop)

theorem Blames.of_walk {stop : Nat} {earlier later : Situation} {rest unread : List Lexeme}
    {error : ParseError} (same : walk earlier rest = walk later unread)
    (blames : Blames stop later unread error) : Blames stop earlier rest error := by
  rw [Blames, same]
  exact blames

/-- An error of a rule is due where reading token by token stops, unless a limit is exceeded. -/
theorem Reads.blames {stop depth : Nat} {goal : Goal} {rest stopped : List Lexeme}
    {outcome : Except ParseError Subtree} (reads : Reads stop goal depth rest outcome stopped)
    (unsigned : goal = .whole .primary → front rest ≠ some .minus) (error : ParseError)
    (returned : outcome = .error error)
    (shallow : ∀ limit position, error ≠ .tooDeep limit position) (unclosed : Nat) :
    Blames stop ⟨goal.needsOperand, unclosed⟩ rest error := by
  induction reads generalizing error unclosed with
  | noOperand rest misfit =>
    cases returned
    exact ⟨_, _, walk_of_misfits (needed_misfits misfit (unsigned rfl) unclosed), nofun, rfl⟩
  | groupFails span room inner ih =>
    exact (ih nofun error returned shallow (unclosed + 1)).of_walk (walk_of_fits rfl _)
  | @groupUnclosed depth rest stopped subtree span room inner other ih =>
    cases returned
    -- The group was read as far as it goes, so what follows fits neither in it nor behind it.
    have stuck := present_misfits (inner.ends trivial subtree rfl) (unclosed + 1)
      fun closed => absurd closed other
    have blames : Blames stop ⟨true, unclosed + 1⟩ rest _ := Blames.of_walk
      (inner.walk_eq subtree rfl (unclosed + 1)) ⟨_, _, walk_of_misfits stuck, nofun, rfl⟩
    exact blames.of_walk (walk_of_fits rfl _)
  | primary other inner ih => exact ih (fun _ => other) error returned shallow unclosed
  | minusFails span room inner ih =>
    exact (ih nofun error returned shallow unclosed).of_walk (walk_of_fits rfl _)
  | firstFails precedence first ih =>
    exact ih (by cases precedence <;> nofun) error returned shallow unclosed
  | row precedence first others ihFirst ih =>
    exact (ih nofun error returned shallow unclosed).of_walk (first.walk_eq _ rfl unclosed)
  | @nextFails depth precedence token operator rest stopped error left span known next ih =>
    have blames := ih (by cases precedence <;> nofun) _ returned shallow unclosed
    exact blames.of_walk (walk_of_fits (present_fits known unclosed) rest)
  | @next depth precedence token operator rest middle stopped left right higher outcome span known
      next made others ihNext ih =>
    have blames := ih nofun error returned shallow unclosed
    exact (blames.of_walk (next.walk_eq right rfl unclosed)).of_walk
      (walk_of_fits (present_fits known unclosed) rest)
  -- The limits raise errors of their own, wherever they are noticed.
  | groupTooDeep | minusTooDeep =>
    cases returned
    exact absurd rfl (shallow _ _)
  | minus =>
    obtain rfl := Subtree.error_of_ofNode returned
    exact absurd rfl (shallow _ _)
  | nextTooHigh known next high ih =>
    cases returned
    obtain rfl := Subtree.error_of_ofNode high
    exact absurd rfl (shallow _ _)
  | literal | group | ended => cases returned

/-- Where reading a row from the left stops decides about it, unless a limit is exceeded: it forms a
tree exactly if nothing is left and an expression may end there, and otherwise the error is the one
due there, at the first token that does not fit, or at the end of the last one. -/
theorem ofLexemes_of_walk (lexemes unread : List Lexeme) (final : Situation)
    (walked : walk .start lexemes = (final, unread))
    (shallow : ∀ limit position, Expr.ofLexemes lexemes ≠ .error (.tooDeep limit position)) :
    ((∃ e, Expr.ofLexemes lexemes = .ok e) ↔ unread = [] ∧ final = .complete) ∧
      (¬ (unread = [] ∧ final = .complete) →
        Expr.ofLexemes lexemes = .error (final.complaint (front unread)
          (place unread ((lexemes.getLast?.map (·.span.stop)).getD 0)))) := by
  obtain ⟨outcome, stopped, reads⟩ := exists_readsExpression lexemes
  have formed := ofLexemes_of_reads reads
  rw [formed] at shallow ⊢
  cases outcome with
  | error error =>
    obtain ⟨_, _, same, incomplete, due⟩ := reads.blames nofun error rfl
      (fun limit position deep => shallow limit position (congrArg Except.error deep)) 0
    obtain ⟨rfl, rfl⟩ := Prod.mk.inj (walked.symm.trans same)
    exact ⟨⟨nofun, fun ⟨_, done⟩ => absurd done incomplete⟩, fun _ => congrArg Except.error due⟩
  | ok subtree =>
    -- A tree was formed from the front of the row, and reading stops at the same place.
    have stuck := walk_of_misfits (present_misfits (reads.ends trivial subtree rfl) 0 fun _ => rfl)
    have same := (reads.walk_eq subtree rfl 0).trans stuck
    obtain ⟨rfl, rfl⟩ := Prod.mk.inj (walked.symm.trans same)
    cases unread with
    | nil => exact ⟨⟨fun _ => ⟨rfl, rfl⟩, fun _ => ⟨_, rfl⟩⟩, fun more => absurd ⟨rfl, rfl⟩ more⟩
    | cons extra unread => exact ⟨⟨nofun, nofun⟩, fun _ => rfl⟩

/-- In "(0 0" the second number is where a parenthesis is missing. -/
theorem ofLexemes_of_walk_unclosed :
    let second : Lexeme := ⟨.literal (.zero false), 3, 4⟩
    let lexemes : List Lexeme := [⟨.leftParen, 0, 1⟩, ⟨.literal (.zero false), 1, 2⟩, second]
    walk .start lexemes = (⟨false, 1⟩, [second]) ∧
      Expr.ofLexemes lexemes =
        .error (.unexpected (some (.literal (.zero false))) (some .rightParen) 3) :=
  ⟨rfl, (ofLexemes_of_walk _ _ _ rfl fun _ _ deep => by cases deep).2 nofun⟩

end Calculator.Grammar
