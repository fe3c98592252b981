import Calculator.CommandLine.Block
import Calculator.Proofs.Binary64.Text

/-!
Texts of printable ASCII.

Whatever is told about a source is one line: numbers, tokens and trees are written in printable
ASCII, and so is a failure's message, where the character that could not be read is escaped.

Main statements: a row of tokens, a tree and a failure's message are printable
(`printable_tokensLine`, `Expr.printable_text`, `Failure.printable_message`).
-/
namespace Calculator

/-- A text has printable ASCII only, and so no line break. -/
def Printable (text : String) : Prop := ∀ c ∈ text.toList, isPrintable c = true

instance (text : String) : Decidable (Printable text) :=
  decidable_of_iff (text.toList.all isPrintable = true) List.all_eq_true

theorem Printable.append {text other : String} (first : Printable text)
    (second : Printable other) : Printable (text ++ other) := by
  intro c member
  rw [String.toList_append, List.mem_append] at member
  exact member.elim (first c) (second c)

theorem Printable.intercalate {separator : String} {texts : List String}
    (between : Printable separator) (printable : ∀ text ∈ texts, Printable text) :
    Printable (separator.intercalate texts) := by
  induction texts with
  | nil =>
    rw [String.intercalate_nil]
    decide
  | cons text others ih =>
    obtain ⟨first, rest⟩ := List.forall_mem_cons.mp printable
    cases others with
    | nil => rwa [String.intercalate_singleton]
    | cons next others =>
      rw [String.intercalate_cons_cons]
      exact (first.append between).append (ih rest)

theorem isPrintable_digitChar (digit : Nat) : isPrintable digit.digitChar = true := by
  by_cases small : digit < 16
  · have all : ∀ digit < 16, isPrintable (Nat.digitChar digit) = true := by decide
    exact all digit small
  · rw [Nat.digitChar_eq_star.mpr (Nat.le_of_not_lt small)]
    decide

/-- Digits are gathered from the last one on, in front of those that are there already. -/
theorem isPrintable_of_mem_toDigitsCore (base fuel n : Nat) {behind : List Char}
    (printable : ∀ c ∈ behind, isPrintable c = true) :
    ∀ c ∈ Nat.toDigitsCore base fuel n behind, isPrintable c = true := by
  induction fuel generalizing n behind with
  | zero => exact printable
  | succ fuel ih =>
    have more : ∀ c ∈ (n % base).digitChar :: behind, isPrintable c = true :=
      List.forall_mem_cons.mpr ⟨isPrintable_digitChar (n % base), printable⟩
    simp only [Nat.toDigitsCore]
    split
    · exact more
    · exact ih _ more

theorem isPrintable_of_mem_toDigits {base n : Nat} {c : Char} (member : c ∈ Nat.toDigits base n) :
    isPrintable c = true :=
  isPrintable_of_mem_toDigitsCore base (n + 1) n (by simp) c member

theorem printable_repr (n : Nat) : Printable (Nat.repr n) := by
  intro c member
  rw [Nat.repr, String.toList_ofList] at member
  exact isPrintable_of_mem_toDigits member

theorem printable_escape (c : Char) : Printable (escape c) := by
  unfold escape
  split
  -- Six characters have an escape of their own, the others are written as they are or in digits.
  iterate 6 decide
  split
  next printable => simpa [Printable] using printable
  next =>
    have number : Printable (String.ofList (Nat.toDigits 16 c.toNat)) := by
      intro digit member
      rw [String.toList_ofList] at member
      exact isPrintable_of_mem_toDigits member
    exact (Printable.append (by decide) number).append (by decide)

theorem Binary64.printable_text (x : Binary64) : Printable x.text := by
  intro c member
  have all : textChars.all isPrintable = true := by decide
  exact List.all_eq_true.mp all c (mem_text x member)

theorem Token.printable_text (token : Token) : Printable token.text := by
  cases token with
  | literal value => exact value.printable_text
  | leftParen | rightParen | minus | plus | slash | star => decide

theorem Operator.printable_symbol (operator : Operator) : Printable operator.symbol := by
  cases operator <;> decide

theorem Expr.printable_text (e : Expr) : Printable e.text := by
  induction e with
  | number x => exact x.printable_text
  | negate operand ih => exact (Printable.append (by decide) ih).append (by decide)
  | binary operator left right ihLeft ihRight =>
    have front : Printable ("(" ++ operator.symbol ++ " ") :=
      (Printable.append (by decide) operator.printable_symbol).append (by decide)
    exact (((front.append ihLeft).append (by decide)).append ihRight).append (by decide)

theorem CommandLine.printable_tokensLine (lexemes : List Lexeme) :
    Printable (tokensLine lexemes) := by
  apply Printable.intercalate (by decide)
  intro text member
  obtain ⟨lexeme, -, rfl⟩ := List.mem_map.mp member
  exact lexeme.token.printable_text

theorem ParseError.printable_description (error : ParseError) : Printable error.description := by
  -- Fixed text stands in front of each token that is told, and the last one is quoted.
  have quoted : ∀ front : String, Printable front → ∀ token : Token,
      Printable (front ++ token.text ++ "'.") :=
    fun front printable token => (printable.append token.printable_text).append (by decide)
  rcases error with ⟨_ | found, _⟩ | ⟨_ | found, _ | expected, _⟩ | ⟨limit, _⟩
  · exact (by decide : Printable "Expected a number but the input ended.")
  · exact quoted _ (by decide) found
  · exact (by decide : Printable "Unexpected token.")
  · exact (Printable.append (by decide) expected.printable_text).append (by decide)
  · exact quoted _ (by decide) found
  · exact quoted _ ((Printable.append (by decide) expected.printable_text).append (by decide)) found
  · exact (Printable.append (by decide) (printable_repr limit)).append (by decide)

theorem printable_messageAt (position : Nat) {description : String}
    (printable : Printable description) : Printable (messageAt position description) :=
  ((Printable.append (by decide) (printable_repr position)).append (by decide)).append printable

theorem Failure.printable_message (failure : Failure) : Printable failure.message := by
  cases failure with
  | scan error =>
    exact printable_messageAt error.position
      ((Printable.append (by decide) (printable_escape error.character)).append (by decide))
  | parse error => exact printable_messageAt error.position error.printable_description

end Calculator
