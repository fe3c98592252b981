import Calculator.Proofs.Grammar.Reading

/-!
The grammar as a relation between rows of tokens and trees, and the rules' agreement with it.

    expression     := multiplicative (("+" | "-") multiplicative)*
    multiplicative := unary (("*" | "/") unary)*
    unary          := "-" unary | primary
    primary        := number | "(" expression ")"

A repetition that groups to the left is a rule that refers to its own category on the left. A
derivation records how many leading minuses and parentheses enclose one another in it.

Rows are read from the left, while the left operand of an operation may itself be a row. So what is
shown by induction on a derivation is that its tokens can be passed over with its tree in hand,
whatever the rest of the row then makes of that tree.

Main statement: a row of lexemes forms exactly the tree that its tokens derive, if both limits are
met (`ofLexemes_eq_ok_iff`).
-/
namespace Calculator

/-- The token that an operator is written as. -/
def Operator.token : Operator → Token
  | add => .plus
  | subtract => .minus
  | multiply => .star
  | divide => .slash

def Operator.precedence : Operator → Grammar.Precedence
  | add => .additive
  | subtract => .additive
  | multiply => .multiplicative
  | divide => .multiplicative

/-- The operator that is written as a token. -/
def Operator.ofToken? (token : Token) : Option Operator :=
  [add, subtract, multiply, divide].find? fun operator => operator.token == token

theorem Operator.ofToken?_eq_some_iff (token : Token) (operator : Operator) :
    ofToken? token = some operator ↔ operator.token = token := by
  constructor
  · intro found
    simpa using List.find?_some found
  · rintro rfl
    cases operator <;> rfl

namespace Grammar

/-- The trees that rows of tokens derive, with the greatest number of leading minuses and
parentheses that are nested within one another. -/
inductive Derives : Category → List Token → Nat → Expr → Prop
  | number (value : Binary64) : Derives .primary [.literal value] 0 (.number value)
  | group {row : List Token} {nesting : Nat} {e : Expr}
      (inner : Derives (.row .additive) row nesting e) :
      Derives .primary (.leftParen :: row ++ [.rightParen]) (nesting + 1) e
  | primary {row : List Token} {nesting : Nat} {e : Expr} (inner : Derives .primary row nesting e) :
      Derives .unary row nesting e
  | negation {row : List Token} {nesting : Nat} {e : Expr}
      (operand : Derives .unary row nesting e) :
      Derives .unary (.minus :: row) (nesting + 1) (.negate e)
  | operand {row : List Token} {nesting : Nat} {e : Expr} (precedence : Precedence)
      (single : Derives precedence.operand row nesting e) :
      Derives (.row precedence) row nesting e
  | operation {before after : List Token} {nestingLeft nestingRight : Nat} {left right : Expr}
      (operator : Operator)
      (first : Derives (.row operator.precedence) before nestingLeft left)
      (second : Derives operator.precedence.operand after nestingRight right) :
      Derives (.row operator.precedence) (before ++ operator.token :: after)
        (max nestingLeft nestingRight) (.binary operator left right)

theorem operators_eq_some_iff (precedence : Precedence) (token : Token) (operator : Operator) :
    precedence.operators token = some operator ↔
      operator.token = token ∧ operator.precedence = precedence := by
  cases precedence <;> cases token <;> cases operator <;>
    simp [Precedence.operators, additiveOperator, multiplicativeOperator, Operator.token,
      Operator.precedence]

def tokens (lexemes : List Lexeme) : List Token := lexemes.map (·.token)

/-- What is derived once a goal is met: a category from the tokens read, or a longer row from one
that the subtree before them derives from. -/
def Goal.Forms : Goal → Nat → List Token → Expr → Prop
  | .whole category, nesting, read, e => Derives category read nesting e
  | .more precedence left, nesting, read, e =>
    ∀ before nestingLeft, Derives (.row precedence) before nestingLeft left.expr →
      Derives (.row precedence) (before ++ read) (max nestingLeft nesting) e

/-- Of these lexemes, those in front of the last ones form a tree. -/
def Goal.FormsFrom (goal : Goal) (nesting : Nat) (rest stopped : List Lexeme) (e : Expr) : Prop :=
  ∃ read, rest = read ++ stopped ∧ goal.Forms nesting (tokens read) e

section FormsFrom

variable {nesting nestingLeft : Nat} {rest middle stopped : List Lexeme} {e : Expr}

theorem formsFrom_literal (value : Binary64) (span : Span) (rest : List Lexeme) :
    Goal.FormsFrom (.whole .primary) 0 (⟨.literal value, span⟩ :: rest) rest (.number value) :=
  ⟨[⟨.literal value, span⟩], rfl, .number value⟩

theorem formsFrom_ended (precedence : Precedence) (left : Subtree) (rest : List Lexeme) :
    Goal.FormsFrom (.more precedence left) 0 rest rest left.expr :=
  ⟨[], rfl, fun _ _ derives => by simpa [tokens] using derives⟩

namespace Goal.FormsFrom

theorem group {last : Span}
    (inner : FormsFrom (.whole (.row .additive)) nesting rest (⟨.rightParen, last⟩ :: stopped) e)
    (span : Span) :
    FormsFrom (.whole .primary) (nesting + 1) (⟨.leftParen, span⟩ :: rest) stopped e := by
  obtain ⟨read, same, derives⟩ := inner
  refine ⟨⟨.leftParen, span⟩ :: read ++ [⟨.rightParen, last⟩], by simp [same], ?_⟩
  simpa [Forms, tokens] using Derives.group derives

theorem primary (inner : FormsFrom (.whole .primary) nesting rest stopped e) :
    FormsFrom (.whole .unary) nesting rest stopped e := by
  obtain ⟨read, same, derives⟩ := inner
  exact ⟨read, same, Derives.primary derives⟩

theorem minus (operand : FormsFrom (.whole .unary) nesting rest stopped e) (span : Span) :
    FormsFrom (.whole .unary) (nesting + 1) (⟨.minus, span⟩ :: rest) stopped (.negate e) := by
  obtain ⟨read, same, derives⟩ := operand
  exact ⟨⟨.minus, span⟩ :: read, by simp [same], Derives.negation derives⟩

theorem row {precedence : Precedence} {left : Subtree}
    (first : FormsFrom (.whole precedence.operand) nestingLeft rest middle left.expr)
    (others : FormsFrom (.more precedence left) nesting middle stopped e) :
    FormsFrom (.whole (.row precedence)) (max nestingLeft nesting) rest stopped e := by
  obtain ⟨read, same, derives⟩ := first
  obtain ⟨more, sameMore, longer⟩ := others
  refine ⟨read ++ more, by simp [same, sameMore], ?_⟩
  simpa [Forms, tokens] using longer _ nestingLeft (.operand precedence derives)

/-- What stands to the left becomes the left operand of a longer row, and the rest goes on there. -/
theorem next {operator : Operator} {left right higher : Subtree} {nestingRight : Nat}
    (operand : FormsFrom (.whole operator.precedence.operand) nestingRight rest middle right.expr)
    (others : FormsFrom (.more operator.precedence higher) nesting middle stopped e)
    (made : higher.expr = .binary operator left.expr right.expr) (span : Span) :
    FormsFrom (.more operator.precedence left) (max nestingRight nesting)
      (⟨operator.token, span⟩ :: rest) stopped e := by
  obtain ⟨read, same, derives⟩ := operand
  obtain ⟨more, sameMore, longer⟩ := others
  refine ⟨⟨operator.token, span⟩ :: read ++ more, by simp [same, sameMore], ?_⟩
  intro before nestingLeft derivesLeft
  have operation := Derives.operation operator derivesLeft derives
  rw [← made] at operation
  rw [← Nat.max_assoc]
  simpa [tokens] using longer _ _ operation

end Goal.FormsFrom
end FormsFrom

theorem Reads.forms {stop depth : Nat} {goal : Goal} {rest stopped : List Lexeme}
    {outcome : Except ParseError Subtree} (reads : Reads stop goal depth rest outcome stopped)
    (bounded : depth ≤ depthLimit) (subtree : Subtree) (returned : outcome = .ok subtree) :
    ∃ nesting, depth + nesting ≤ depthLimit ∧
      goal.FormsFrom nesting rest stopped subtree.expr := by
  induction reads generalizing subtree with
  | literal value span rest =>
    cases returned
    exact ⟨0, bounded, formsFrom_literal value span rest⟩
  | group span last room inner ih =>
    obtain ⟨nesting, within, forms⟩ := ih room subtree returned
    exact ⟨nesting + 1, by omega, forms.group span⟩
  | primary unsigned inner ih =>
    obtain ⟨nesting, within, forms⟩ := ih bounded subtree returned
    exact ⟨nesting, within, forms.primary⟩
  | minus span room inner ih =>
    obtain ⟨nesting, within, forms⟩ := ih room _ rfl
    obtain ⟨_, rfl⟩ := (Subtree.ofNode_eq_ok_iff _ _ _ _).mp returned
    exact ⟨nesting + 1, by omega, forms.minus span⟩
  | row precedence first others ihFirst ih =>
    obtain ⟨nestingLeft, withinLeft, forms⟩ := ihFirst bounded _ rfl
    obtain ⟨nesting, within, more⟩ := ih bounded subtree returned
    exact ⟨max nestingLeft nesting, by omega, forms.row more⟩
  | ended precedence left rest no =>
    cases returned
    exact ⟨0, bounded, formsFrom_ended precedence left rest⟩
  | next known next made others ihNext ih =>
    obtain ⟨nestingRight, withinRight, forms⟩ := ihNext bounded _ rfl
    obtain ⟨nesting, within, more⟩ := ih bounded subtree returned
    obtain ⟨rfl, rfl⟩ := (operators_eq_some_iff _ _ _).mp known
    obtain ⟨_, rfl⟩ := (Subtree.ofNode_eq_ok_iff _ _ _ _).mp made
    exact ⟨max nestingRight nesting, by omega, forms.next more rfl _⟩
  | noOperand | groupTooDeep | groupFails | groupUnclosed | minusTooDeep | minusFails | firstFails
  | nextFails | nextTooHigh => cases returned

theorem tokens_eq_cons {lexemes : List Lexeme} {token : Token} {row : List Token}
    (same : tokens lexemes = token :: row) :
    ∃ span behind, lexemes = ⟨token, span⟩ :: behind ∧ tokens behind = row := by
  obtain ⟨⟨first, span⟩, behind, rfl, rfl, rfl⟩ := List.map_eq_cons_iff.mp same
  exact ⟨span, behind, rfl, rfl⟩

theorem tokens_eq_append {lexemes : List Lexeme} {before after : List Token}
    (same : tokens lexemes = before ++ after) :
    ∃ first second, lexemes = first ++ second ∧ tokens first = before ∧ tokens second = after := by
  obtain ⟨first, second, rfl, rfl, rfl⟩ := List.map_eq_append_iff.mp same
  exact ⟨first, second, rfl, rfl, rfl⟩

/-- A tree with its true height. -/
def Subtree.ofExpr (e : Expr) : Subtree := ⟨e, e.height⟩

/-- What may stand behind the operands of a category that is read up to there. -/
def Category.Allows : Category → Option Token → Prop
  | .row precedence, next => precedence.operand.Ends next
  | .unary, _ => True
  | .primary, _ => True

/-- These lexemes are read as this tree. In a row this is said of what may yet follow there. -/
def Accepts (stop : Nat) : Category → Nat → List Lexeme → Expr → Prop
  | .row precedence, depth, read, e =>
    ∀ rest outcome stopped, precedence.operand.Ends (front rest) →
      Reads stop (.more precedence (.ofExpr e)) depth rest outcome stopped →
      Reads stop (.whole (.row precedence)) depth (read ++ rest) outcome stopped
  | category, depth, read, e =>
    ∀ rest, Reads stop (.whole category) depth (read ++ rest) (.ok (.ofExpr e)) rest

/-- These lexemes are too deep for a category, whatever follows them. -/
def Refuses (stop : Nat) (category : Category) (depth : Nat) (read : List Lexeme) : Prop :=
  ∀ rest, category.Allows (front rest) → ∃ position stopped,
    Reads stop (.whole category) depth (read ++ rest)
      (.error (.tooDeep depthLimit position)) stopped

theorem Category.allows_of_ends {category : Category} {next : Option Token}
    (ends : category.Ends next) : category.Allows next := by
  cases category with
  | row precedence => exact ((precedence.ends_row_iff next).mp ends).1
  | unary => trivial
  | primary => trivial

theorem Accepts.whole {stop depth : Nat} {category : Category} {read rest : List Lexeme} {e : Expr}
    (accepts : Accepts stop category depth read e) (ends : category.Ends (front rest)) :
    Reads stop (.whole category) depth (read ++ rest) (.ok (.ofExpr e)) rest := by
  cases category with
  | row precedence =>
    obtain ⟨operandEnds, last⟩ := (precedence.ends_row_iff _).mp ends
    exact accepts rest _ rest operandEnds (.ended precedence _ rest last)
  | unary => exact accepts rest
  | primary => exact accepts rest

theorem Derives.unsigned {row : List Token} {nesting : Nat} {e : Expr}
    (derives : Derives .primary row nesting e) {lexemes : List Lexeme} (same : tokens lexemes = row)
    (rest : List Lexeme) : front (lexemes ++ rest) ≠ some .minus := by
  cases derives with
  | number value =>
    obtain ⟨span, behind, rfl, _⟩ := tokens_eq_cons same
    exact nofun
  | group inner =>
    obtain ⟨span, behind, rfl, _⟩ := tokens_eq_cons same
    exact nofun

/-- Both limits are met by a tree and the nesting of its derivation, at a depth. -/
def Within (depth nesting : Nat) (e : Expr) : Prop :=
  depth + nesting ≤ depthLimit ∧ e.height ≤ depthLimit

/-- These lexemes are read as a tree if both limits are met, and are too deep otherwise. -/
def Decided (stop : Nat) (category : Category) (depth nesting : Nat) (read : List Lexeme)
    (e : Expr) : Prop :=
  (Within depth nesting e → Accepts stop category depth read e) ∧
    (¬ Within depth nesting e → Refuses stop category depth read)

section Decided

variable {stop depth nesting nestingLeft nestingRight : Nat} {read readLeft readRight : List Lexeme}
variable {e left right : Expr}

theorem decided_literal (bounded : depth ≤ depthLimit) (value : Binary64) (span : Span) :
    Decided stop .primary depth 0 [⟨.literal value, span⟩] (.number value) := by
  constructor
  · intro within rest
    exact .literal value span rest
  · intro beyond
    exact absurd ⟨bounded, show 1 ≤ depthLimit by decide⟩ beyond

theorem Decided.group (span last : Span)
    (inner : depth < depthLimit → Decided stop (.row .additive) (depth + 1) nesting read e) :
    Decided stop .primary depth (nesting + 1)
      (⟨.leftParen, span⟩ :: read ++ [⟨.rightParen, last⟩]) e := by
  constructor
  · rintro ⟨shallow, low⟩ rest
    have room : depth < depthLimit := by omega
    have accepts := (inner room).1 ⟨by omega, low⟩
    rw [List.append_assoc]
    exact .group span last room (accepts.whole ⟨rfl, fun _ => rfl⟩)
  · intro beyond rest _
    rcases Nat.lt_or_ge depth depthLimit with room | full
    · have refuses := (inner room).2 fun ⟨shallow, low⟩ => beyond ⟨by omega, low⟩
      obtain ⟨position, stopped, reads⟩ := refuses (⟨.rightParen, last⟩ :: rest) ⟨rfl, nofun⟩
      rw [List.append_assoc]
      exact ⟨position, stopped, .groupFails span room reads⟩
    · exact ⟨span.start, _, .groupTooDeep span _ full⟩

theorem Decided.primary (unsigned : ∀ rest, front (read ++ rest) ≠ some .minus)
    (inner : Decided stop .primary depth nesting read e) :
    Decided stop .unary depth nesting read e := by
  obtain ⟨accepts, refuses⟩ := inner
  constructor
  · intro within rest
    exact .primary (unsigned rest) (accepts within rest)
  · intro beyond rest _
    obtain ⟨position, stopped, reads⟩ := refuses beyond rest trivial
    exact ⟨position, stopped, .primary (unsigned rest) reads⟩

theorem Decided.negation (span : Span)
    (inner : depth < depthLimit → Decided stop .unary (depth + 1) nesting read e) :
    Decided stop .unary depth (nesting + 1) (⟨.minus, span⟩ :: read) (.negate e) := by
  constructor
  · rintro ⟨shallow, low⟩ rest
    have room : depth < depthLimit := by omega
    have lower : e.height ≤ depthLimit := Nat.le_of_succ_le low
    have made : (Subtree.ofExpr e).negated span.start = .ok (.ofExpr (.negate e)) :=
      (Subtree.ofNode_eq_ok_iff _ _ _ _).mpr ⟨low, rfl⟩
    exact made ▸ .minus span room ((inner room).1 ⟨by omega, lower⟩ rest)
  · intro beyond rest _
    rcases Nat.lt_or_ge depth depthLimit with room | full
    · obtain ⟨accepts, refuses⟩ := inner room
      by_cases within : Within (depth + 1) nesting e
      · -- The operand is as high as a tree may be, so the minus itself is too much.
        have high : ¬ e.height + 1 ≤ depthLimit := fun low =>
          beyond ⟨by have := within.1; omega, low⟩
        have refused : (Subtree.ofExpr e).negated span.start =
            .error (.tooDeep depthLimit span.start) := if_neg high
        exact ⟨span.start, rest, refused ▸ .minus span room (accepts within rest)⟩
      · obtain ⟨position, stopped, reads⟩ := refuses within rest trivial
        exact ⟨position, stopped, .minusFails span room reads⟩
    · exact ⟨span.start, _, .minusTooDeep span _ full⟩

theorem Decided.operand (precedence : Precedence)
    (single : Decided stop precedence.operand depth nesting read e) :
    Decided stop (.row precedence) depth nesting read e := by
  obtain ⟨accepts, refuses⟩ := single
  constructor
  · intro within rest outcome stopped ends others
    exact .row precedence ((accepts within).whole ends) others
  · intro beyond rest ends
    obtain ⟨position, stopped, reads⟩ := refuses beyond rest (Category.allows_of_ends ends)
    exact ⟨position, stopped, .firstFails precedence reads⟩

theorem Decided.operation (operator : Operator) (span : Span)
    (first : Decided stop (.row operator.precedence) depth nestingLeft readLeft left)
    (second : Decided stop operator.precedence.operand depth nestingRight readRight right) :
    Decided stop (.row operator.precedence) depth (max nestingLeft nestingRight)
      (readLeft ++ ⟨operator.token, span⟩ :: readRight) (.binary operator left right) := by
  obtain ⟨acceptsLeft, refusesLeft⟩ := first
  obtain ⟨acceptsRight, refusesRight⟩ := second
  have known : operator.precedence.operators operator.token = some operator :=
    (operators_eq_some_iff _ _ _).mpr ⟨rfl, rfl⟩
  have ended (behind : List Lexeme) : operator.precedence.operand.Ends
      (front (⟨operator.token, span⟩ :: behind)) := Precedence.ends_operand known
  constructor
  · rintro ⟨shallow, low⟩ rest outcome stopped ends others
    have lower : max left.height right.height + 1 ≤ depthLimit := low
    have made : Subtree.joined operator (.ofExpr left) (.ofExpr right) span.start =
        .ok (.ofExpr (.binary operator left right)) :=
      (Subtree.ofNode_eq_ok_iff _ _ _ _).mpr ⟨low, rfl⟩
    rw [List.append_assoc]
    apply acceptsLeft ⟨by omega, by omega⟩ _ _ _ (ended _)
    exact .next known ((acceptsRight ⟨by omega, by omega⟩).whole ends) made others
  · intro beyond rest ends
    rw [List.append_assoc]
    by_cases withinLeft : Within depth nestingLeft left
    · by_cases withinRight : Within depth nestingRight right
      · -- Both operands are within the limits, so only the height above them can be too much.
        have reads := (acceptsRight withinRight).whole ends
        have high : ¬ max left.height right.height + 1 ≤ depthLimit := fun low =>
          beyond ⟨by have := withinLeft.1; have := withinRight.1; omega, low⟩
        have refused : Subtree.joined operator (.ofExpr left) (.ofExpr right) span.start =
            .error (.tooDeep depthLimit span.start) := if_neg high
        exact ⟨span.start, rest, acceptsLeft withinLeft _ _ _ (ended _)
          (.nextTooHigh known reads refused)⟩
      · obtain ⟨position, stopped, reads⟩ :=
          refusesRight withinRight rest (Category.allows_of_ends ends)
        exact ⟨position, stopped, acceptsLeft withinLeft _ _ _ (ended _)
          (.nextFails _ span known reads)⟩
    · exact refusesLeft withinLeft _ (ended _)

end Decided

theorem Derives.decided {category : Category} {row : List Token} {nesting : Nat} {e : Expr}
    (derives : Derives category row nesting e) (stop depth : Nat) (bounded : depth ≤ depthLimit)
    (lexemes : List Lexeme) (same : tokens lexemes = row) :
    Decided stop category depth nesting lexemes e := by
  -- The spans are arbitrary, so every case first cuts the lexemes as the derivation cuts tokens.
  induction derives generalizing depth lexemes with
  | number value =>
    obtain ⟨span, behind, rfl, nothing⟩ := tokens_eq_cons same
    obtain rfl := List.map_eq_nil_iff.mp nothing
    exact decided_literal bounded value span
  | group inner ih =>
    obtain ⟨first, second, rfl, sameFirst, sameSecond⟩ := tokens_eq_append same
    obtain ⟨span, inside, rfl, sameInside⟩ := tokens_eq_cons sameFirst
    obtain ⟨last, behind, rfl, nothing⟩ := tokens_eq_cons sameSecond
    obtain rfl := List.map_eq_nil_iff.mp nothing
    exact .group span last fun room => ih (depth + 1) room inside sameInside
  | primary inner ih => exact .primary (inner.unsigned same) (ih depth bounded lexemes same)
  | negation operand ih =>
    obtain ⟨span, behind, rfl, sameBehind⟩ := tokens_eq_cons same
    exact .negation span fun room => ih (depth + 1) room behind sameBehind
  | operand precedence single ih => exact .operand precedence (ih depth bounded lexemes same)
  | operation operator first second ihFirst ihSecond =>
    obtain ⟨lexemesLeft, behind, rfl, sameLeft, sameBehind⟩ := tokens_eq_append same
    obtain ⟨span, lexemesRight, rfl, sameRight⟩ := tokens_eq_cons sameBehind
    exact .operation operator span (ihFirst depth bounded lexemesLeft sameLeft)
      (ihSecond depth bounded lexemesRight sameRight)

theorem ofLexemes_of_derives {lexemes : List Lexeme} {nesting : Nat} {e : Expr}
    (derives : Derives (.row .additive) (tokens lexemes) nesting e) (within : Within 0 nesting e) :
    Expr.ofLexemes lexemes = .ok e := by
  have accepts := (derives.decided (Cursor.ofLexemes lexemes).stop 0 (Nat.zero_le _) lexemes
    rfl).1 within
  have ends : Category.Ends (.row .additive) (front []) := ⟨rfl, fun _ => rfl⟩
  have reads := accepts.whole ends
  rw [List.append_nil] at reads
  exact ofLexemes_of_reads reads

theorem ofLexemes_of_beyond {lexemes : List Lexeme} {nesting : Nat} {e : Expr}
    (derives : Derives (.row .additive) (tokens lexemes) nesting e)
    (beyond : ¬ Within 0 nesting e) :
    ∃ position, Expr.ofLexemes lexemes = .error (.tooDeep depthLimit position) := by
  have refuses := (derives.decided (Cursor.ofLexemes lexemes).stop 0 (Nat.zero_le _) lexemes
    rfl).2 beyond
  obtain ⟨position, stopped, reads⟩ := refuses [] ⟨rfl, nofun⟩
  rw [List.append_nil] at reads
  exact ⟨position, ofLexemes_of_reads reads⟩

theorem derives_of_ofLexemes {lexemes : List Lexeme} {e : Expr}
    (returned : Expr.ofLexemes lexemes = .ok e) :
    ∃ nesting, Derives (.row .additive) (tokens lexemes) nesting e ∧ Within 0 nesting e := by
  obtain ⟨outcome, stopped, reads⟩ := exists_readsExpression lexemes
  obtain ⟨subtree, rfl, rfl, rfl⟩ := exists_reads_of_ofLexemes returned reads
  obtain ⟨nesting, shallow, read, same, derives⟩ := reads.forms (Nat.zero_le _) subtree rfl
  obtain rfl : lexemes = read := same.trans (List.append_nil read)
  have sound := reads.sound trivial subtree rfl
  exact ⟨nesting, derives, shallow, sound.height_eq ▸ sound.height_le⟩

/-- A row of lexemes forms exactly the tree that its tokens derive with at most as many levels
nested as the limit says, and of at most that height. No other tree is derived from the tokens of
such a row, and the spans of the lexemes do not matter. -/
theorem ofLexemes_eq_ok_iff (lexemes : List Lexeme) (e : Expr) :
    (Expr.ofLexemes lexemes = .ok e ↔
      ∃ nesting, Derives (.row .additive) (tokens lexemes) nesting e ∧
        nesting ≤ depthLimit ∧ e.height ≤ depthLimit) ∧
    (Expr.ofLexemes lexemes = .ok e →
      (∀ nesting other, Derives (.row .additive) (tokens lexemes) nesting other → other = e) ∧
      ∀ moved, tokens moved = tokens lexemes → Expr.ofLexemes moved = .ok e) := by
  have within_iff (nesting : Nat) (e : Expr) :
      Within 0 nesting e ↔ nesting ≤ depthLimit ∧ e.height ≤ depthLimit := by
    rw [Within, Nat.zero_add]
  refine ⟨⟨fun returned => ?_, fun ⟨nesting, derives, limits⟩ => ?_⟩, fun returned => ⟨?_, ?_⟩⟩
  · obtain ⟨nesting, derives, within⟩ := derives_of_ofLexemes returned
    exact ⟨nesting, derives, (within_iff nesting e).mp within⟩
  · exact ofLexemes_of_derives derives ((within_iff nesting e).mpr limits)
  · -- A second tree would have to be returned as well, or be beyond a limit.
    intro nesting other derives
    by_cases within : Within 0 nesting other
    · rw [ofLexemes_of_derives derives within] at returned
      exact Except.ok.inj returned
    · obtain ⟨position, refused⟩ := ofLexemes_of_beyond derives within
      rw [refused] at returned
      cases returned
  · intro moved same
    obtain ⟨nesting, derives, within⟩ := derives_of_ofLexemes returned
    exact ofLexemes_of_derives (same ▸ derives) within

end Grammar
end Calculator
