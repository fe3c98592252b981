import Calculator.Grammar.Rules
import Mathlib.Data.Nat.Basic

/-!
What the rules of the grammar read, as a relation.

`Reads` relates the lexemes in front of a rule, and the number of levels open there, to the outcome
and to the lexemes left behind it. It has one constructor for each way that a rule can go, and
counts neither rounds nor levels of rules, so it shows that those bounds cut nothing short. What
holds of all rules at once is proved by one induction over it.

Main statements: a rule does exactly what is related to it (`rule_eq_iff`); a subtree that is read
has the height recorded for it, within the limit (`Reads.sound`), and no operator follows it that
would still belong to it (`Reads.ends`).
-/
namespace Calculator.Grammar

/-- The levels of precedence of the binary operators. -/
inductive Precedence where
  | additive
  | multiplicative
  deriving DecidableEq

/-- The rules of the grammar. A row is made of operands with operators of one precedence between
them, so an expression is an additive row. -/
inductive Category where
  | row (precedence : Precedence)
  | unary
  | primary

/-- What is being read: all of a category, or what may still follow a subtree in a row. -/
inductive Goal where
  | whole (category : Category)
  | more (precedence : Precedence) (left : Subtree)

namespace Precedence

def operators : Precedence → Operators
  | additive => additiveOperator
  | multiplicative => multiplicativeOperator

def operand : Precedence → Category
  | additive => .row multiplicative
  | multiplicative => .unary

@[simp]
theorem operand_ne_primary (precedence : Precedence) : precedence.operand ≠ .primary := by
  cases precedence <;> simp [operand]

end Precedence

/-- The token at the front of some lexemes. -/
def front (rest : List Lexeme) : Option Token := rest.head?.map (·.token)

/-- Where the next lexeme starts, or where the last of all lexemes ends. -/
def place (rest : List Lexeme) (stop : Nat) : Nat := (rest.head?.map (·.span.start)).getD stop

theorem cons_of_front {token : Token} {rest : List Lexeme} (found : front rest = some token) :
    ∃ span behind, rest = ⟨token, span⟩ :: behind := by
  rcases rest with _ | ⟨⟨first, span⟩, behind⟩
  · cases found
  · cases found
    exact ⟨span, behind, rfl⟩

theorem cons_of_operator {operators : Operators} {operator : Operator} {rest : List Lexeme}
    (found : (front rest).bind operators = some operator) :
    ∃ token span behind, rest = ⟨token, span⟩ :: behind ∧ operators token = some operator := by
  obtain ⟨token, first, known⟩ := Option.bind_eq_some_iff.mp found
  obtain ⟨span, behind, rfl⟩ := cons_of_front first
  exact ⟨token, span, behind, rfl, known⟩

/-- Whether a token can be the first one of a primary. -/
def opensPrimary : Option Token → Bool
  | some (.literal _) => true
  | some .leftParen => true
  | _ => false

/-- What a rule does with lexemes at some depth: its outcome, and the lexemes left. -/
inductive Reads (stop : Nat) :
    Goal → Nat → List Lexeme → Except ParseError Subtree → List Lexeme → Prop
  -- A primary, which is the only goal that fails at an operand that is missing.
  | literal {depth : Nat} (value : Binary64) (span : Span) (rest : List Lexeme) :
      Reads stop (.whole .primary) depth (⟨.literal value, span⟩ :: rest)
        (.ok (.ofNumber value)) rest
  | noOperand {depth : Nat} (rest : List Lexeme) (misfit : opensPrimary (front rest) = false) :
      Reads stop (.whole .primary) depth rest
        (.error (.missingOperand (front rest) (place rest stop))) rest
  | groupTooDeep {depth : Nat} (span : Span) (rest : List Lexeme) (full : depthLimit ≤ depth) :
      Reads stop (.whole .primary) depth (⟨.leftParen, span⟩ :: rest)
        (.error (.tooDeep depthLimit span.start)) rest
  | groupFails {depth : Nat} {rest stopped : List Lexeme} {error : ParseError} (span : Span)
      (room : depth < depthLimit)
      (inner : Reads stop (.whole (.row .additive)) (depth + 1) rest (.error error) stopped) :
      Reads stop (.whole .primary) depth (⟨.leftParen, span⟩ :: rest) (.error error) stopped
  | groupUnclosed {depth : Nat} {rest stopped : List Lexeme} {subtree : Subtree} (span : Span)
      (room : depth < depthLimit)
      (inner : Reads stop (.whole (.row .additive)) (depth + 1) rest (.ok subtree) stopped)
      (unclosed : front stopped ≠ some .rightParen) :
      Reads stop (.whole .primary) depth (⟨.leftParen, span⟩ :: rest)
        (.error (.unexpected (front stopped) (some .rightParen) (place stopped stop))) stopped
  | group {depth : Nat} {rest stopped : List Lexeme} {subtree : Subtree} (span last : Span)
      (room : depth < depthLimit)
      (inner : Reads stop (.whole (.row .additive)) (depth + 1) rest (.ok subtree)
        (⟨.rightParen, last⟩ :: stopped)) :
      Reads stop (.whole .primary) depth (⟨.leftParen, span⟩ :: rest) (.ok subtree) stopped
  -- A unary, whose minus opens a level and makes a node.
  | primary {depth : Nat} {rest stopped : List Lexeme} {outcome : Except ParseError Subtree}
      (unsigned : front rest ≠ some .minus)
      (inner : Reads stop (.whole .primary) depth rest outcome stopped) :
      Reads stop (.whole .unary) depth rest outcome stopped
  | minusTooDeep {depth : Nat} (span : Span) (rest : List Lexeme) (full : depthLimit ≤ depth) :
      Reads stop (.whole .unary) depth (⟨.minus, span⟩ :: rest)
        (.error (.tooDeep depthLimit span.start)) rest
  | minusFails {depth : Nat} {rest stopped : List Lexeme} {error : ParseError} (span : Span)
      (room : depth < depthLimit)
      (inner : Reads stop (.whole .unary) (depth + 1) rest (.error error) stopped) :
      Reads stop (.whole .unary) depth (⟨.minus, span⟩ :: rest) (.error error) stopped
  | minus {depth : Nat} {rest stopped : List Lexeme} {operand : Subtree} (span : Span)
      (room : depth < depthLimit)
      (inner : Reads stop (.whole .unary) (depth + 1) rest (.ok operand) stopped) :
      Reads stop (.whole .unary) depth (⟨.minus, span⟩ :: rest)
        (operand.negated span.start) stopped
  -- A row, which begins with an operand, and what follows the part of it that is a subtree already.
  | firstFails {depth : Nat} {rest stopped : List Lexeme} {error : ParseError}
      (precedence : Precedence)
      (first : Reads stop (.whole precedence.operand) depth rest (.error error) stopped) :
      Reads stop (.whole (.row precedence)) depth rest (.error error) stopped
  | row {depth : Nat} {rest middle stopped : List Lexeme} {left : Subtree}
      {outcome : Except ParseError Subtree} (precedence : Precedence)
      (first : Reads stop (.whole precedence.operand) depth rest (.ok left) middle)
      (others : Reads stop (.more precedence left) depth middle outcome stopped) :
      Reads stop (.whole (.row precedence)) depth rest outcome stopped
  | ended {depth : Nat} (precedence : Precedence) (left : Subtree) (rest : List Lexeme)
      (no : (front rest).bind precedence.operators = none) :
      Reads stop (.more precedence left) depth rest (.ok left) rest
  | nextFails {depth : Nat} {precedence : Precedence} {token : Token} {operator : Operator}
      {rest stopped : List Lexeme} {error : ParseError} (left : Subtree) (span : Span)
      (known : precedence.operators token = some operator)
      (next : Reads stop (.whole precedence.operand) depth rest (.error error) stopped) :
      Reads stop (.more precedence left) depth (⟨token, span⟩ :: rest) (.error error) stopped
  | nextTooHigh {depth : Nat} {precedence : Precedence} {token : Token} {operator : Operator}
      {rest stopped : List Lexeme} {left right : Subtree} {error : ParseError} {span : Span}
      (known : precedence.operators token = some operator)
      (next : Reads stop (.whole precedence.operand) depth rest (.ok right) stopped)
      (high : Subtree.joined operator left right span.start = .error error) :
      Reads stop (.more precedence left) depth (⟨token, span⟩ :: rest) (.error error) stopped
  | next {depth : Nat} {precedence : Precedence} {token : Token} {operator : Operator}
      {rest middle stopped : List Lexeme} {left right higher : Subtree}
      {outcome : Except ParseError Subtree} {span : Span}
      (known : precedence.operators token = some operator)
      (next : Reads stop (.whole precedence.operand) depth rest (.ok right) middle)
      (made : Subtree.joined operator left right span.start = .ok higher)
      (others : Reads stop (.more precedence higher) depth middle outcome stopped) :
      Reads stop (.more precedence left) depth (⟨token, span⟩ :: rest) outcome stopped

/-- The recorded height is the height, and within the limit. -/
structure Subtree.Sound (subtree : Subtree) : Prop where
  height_eq : subtree.height = subtree.expr.height
  height_le : subtree.height ≤ depthLimit

def Goal.Sound : Goal → Prop
  | .whole _ => True
  | .more _ left => left.Sound

theorem Subtree.Sound.height_pos {subtree : Subtree} (sound : subtree.Sound) :
    0 < subtree.height := by
  rw [sound.height_eq]
  exact subtree.expr.height_pos

theorem Subtree.sound_ofNumber (value : Binary64) : (Subtree.ofNumber value).Sound :=
  ⟨rfl, show 1 ≤ depthLimit by decide⟩

theorem Subtree.sound_negated {operand made : Subtree} {position : Nat} (sound : operand.Sound)
    (returned : operand.negated position = .ok made) : made.Sound := by
  obtain ⟨within, rfl⟩ := (ofNode_eq_ok_iff _ _ _ _).mp returned
  exact ⟨by simp [Expr.height, sound.height_eq], within⟩

theorem Subtree.sound_joined {operator : Operator} {left right made : Subtree} {position : Nat}
    (soundLeft : left.Sound) (soundRight : right.Sound)
    (returned : joined operator left right position = .ok made) : made.Sound := by
  obtain ⟨within, rfl⟩ := (ofNode_eq_ok_iff _ _ _ _).mp returned
  exact ⟨by simp [Expr.height, soundLeft.height_eq, soundRight.height_eq], within⟩

/-- What is read has the height recorded for it, within the limit. -/
theorem Reads.sound {stop depth : Nat} {goal : Goal} {rest stopped : List Lexeme}
    {outcome : Except ParseError Subtree} (reads : Reads stop goal depth rest outcome stopped)
    (before : goal.Sound) (subtree : Subtree) (returned : outcome = .ok subtree) :
    subtree.Sound := by
  induction reads generalizing subtree with
  | literal value =>
    cases returned
    exact Subtree.sound_ofNumber value
  | group span last room inner ih => exact ih trivial subtree returned
  | primary unsigned inner ih => exact ih trivial subtree returned
  -- Only a minus and an operation make a node, and both ask for its height.
  | minus span room inner ih => exact Subtree.sound_negated (ih trivial _ rfl) returned
  | row precedence first others ihFirst ih => exact ih (ihFirst trivial _ rfl) subtree returned
  | ended precedence left rest no =>
    cases returned
    exact before
  | next known next made others ihNext ih =>
    exact ih (Subtree.sound_joined before (ihNext trivial _ rfl) made) subtree returned
  | noOperand | groupTooDeep | groupFails | groupUnclosed | minusTooDeep | minusFails | firstFails
  | nextFails | nextTooHigh => cases returned

/-- No operator follows that would still belong to a category. -/
def Category.Ends : Category → Option Token → Prop
  | .row precedence, next =>
    next.bind multiplicativeOperator = none ∧
      (precedence = .additive → next.bind additiveOperator = none)
  | .unary, _ => True
  | .primary, _ => True

theorem Precedence.ends_row_iff (precedence : Precedence) (next : Option Token) :
    Category.Ends (.row precedence) next ↔
      precedence.operand.Ends next ∧ next.bind precedence.operators = none := by
  cases precedence <;> simp [Category.Ends, operand, operators]

theorem Precedence.ends_operand {precedence : Precedence} {token : Token} {operator : Operator}
    (known : precedence.operators token = some operator) :
    precedence.operand.Ends (some token) := by
  cases precedence with
  | additive => cases token <;> simp_all [operators, additiveOperator, operand, Category.Ends,
      multiplicativeOperator]
  | multiplicative => trivial

/-- What a goal needs to end where reading stops: the operand before it ended. -/
def Goal.Continues : Goal → List Lexeme → Prop
  | .whole _, _ => True
  | .more precedence _, rest => precedence.operand.Ends (front rest)

def Goal.category : Goal → Category
  | .whole category => category
  | .more precedence _ => .row precedence

/-- Behind what is read, no operator follows that would still belong to it. -/
theorem Reads.ends {stop depth : Nat} {goal : Goal} {rest stopped : List Lexeme}
    {outcome : Except ParseError Subtree} (reads : Reads stop goal depth rest outcome stopped)
    (before : goal.Continues rest) (subtree : Subtree) (returned : outcome = .ok subtree) :
    goal.category.Ends (front stopped) := by
  induction reads generalizing subtree with
  | literal | group | primary | minus => trivial
  | row precedence first others ihFirst ih => exact ih (ihFirst trivial _ rfl) subtree returned
  | ended precedence left rest no => exact (Precedence.ends_row_iff _ _).mpr ⟨before, no⟩
  | next known next made others ihNext ih => exact ih (ihNext trivial _ rfl) subtree returned
  | noOperand | groupTooDeep | groupFails | groupUnclosed | minusTooDeep | minusFails | firstFails
  | nextFails | nextTooHigh => cases returned

theorem Reads.unique {stop depth : Nat} {goal : Goal} {rest stopped stopped' : List Lexeme}
    {outcome outcome' : Except ParseError Subtree}
    (first : Reads stop goal depth rest outcome stopped)
    (second : Reads stop goal depth rest outcome' stopped') :
    outcome = outcome' ∧ stopped = stopped' := by
  -- The token in front, or what the rule inside does, tells which of the ways is gone.
  induction first generalizing outcome' stopped' with
  | literal | noOperand | groupTooDeep | ended | minusTooDeep =>
    cases second <;> grind [front, opensPrimary]
  | groupFails span room inner ih | groupUnclosed span room inner unclosed ih
  | group span last room inner ih | minusFails span room inner ih | minus span room inner ih =>
    cases second <;> grind [front, opensPrimary]
  | primary unsigned inner ih => cases second <;> grind [front]
  | firstFails precedence first ih => cases second <;> grind
  | row precedence first others ihFirst ih => cases second <;> grind
  | nextFails left span known next ih => cases second <;> grind [front]
  | nextTooHigh known next high ih => cases second <;> grind [front]
  | next known next made others ihNext ih => cases second <;> grind [front]

section Rules

variable {stop depth : Nat} {rest stopped : List Lexeme} {outcome : Except ParseError Subtree}

theorem nested_of_room {rule : Rule} (position : Nat) (room : depth < depthLimit)
    (returned : rule ⟨rest, stop, depth + 1⟩ = (outcome, ⟨stopped, stop, depth + 1⟩)) :
    nested position rule ⟨rest, stop, depth⟩ = (outcome, ⟨stopped, stop, depth⟩) := by
  have entered : (⟨rest, stop, depth⟩ : Cursor).enter position = .ok ⟨rest, stop, depth + 1⟩ :=
    (Cursor.enter_eq_ok_iff _ _ _).mpr ⟨room, rfl⟩
  rw [nested_of_enter rule entered, returned]
  rfl

theorem nested_of_full (rule : Rule) (position : Nat) (full : depthLimit ≤ depth) :
    nested position rule ⟨rest, stop, depth⟩ =
      (.error (.tooDeep depthLimit position), ⟨rest, stop, depth⟩) := by
  simp [nested, Cursor.enter, Nat.not_lt.mpr full]

theorem nextOperator?_eq_none_iff (operators : Operators) :
    nextOperator? operators ⟨rest, stop, depth⟩ = none ↔ (front rest).bind operators = none := by
  cases rest <;> simp [nextOperator?, Cursor.peek?, front]

theorem chain_of_no_operator {operators : Operators} (operand : Rule) (rounds : Nat)
    (left : Subtree) (no : (front rest).bind operators = none) :
    chain operators operand rounds left ⟨rest, stop, depth⟩ = (.ok left, ⟨rest, stop, depth⟩) := by
  cases rounds with
  | zero => rfl
  | succ rounds => rw [chain, (nextOperator?_eq_none_iff operators).mpr no]

theorem chain_cons {operators : Operators} {token : Token} {operator : Operator} {operand : Rule}
    (rounds : Nat) (left : Subtree) (span : Span) (known : operators token = some operator)
    (returned : operand ⟨rest, stop, depth⟩ = (outcome, ⟨stopped, stop, depth⟩)) :
    chain operators operand (rounds + 1) left ⟨⟨token, span⟩ :: rest, stop, depth⟩ =
      andThen (outcome, ⟨stopped, stop, depth⟩) fun right stopped =>
        match Subtree.joined operator left right span.start with
        | .ok higher => chain operators operand rounds higher stopped
        | .error error => (.error error, stopped) := by
  have found : nextOperator? operators ⟨⟨token, span⟩ :: rest, stop, depth⟩ =
      some (operator, span.start) :=
    (nextOperator?_eq_some_iff _ _ _ _).mpr ⟨_, rfl, known, rfl⟩
  rw [chain, found, ← returned]
  rfl

theorem close_of_unclosed (inner : Subtree) (unclosed : front rest ≠ some .rightParen) :
    close inner ⟨rest, stop, depth⟩ =
      (.error (.unexpected (front rest) (some .rightParen) (place rest stop)),
        ⟨rest, stop, depth⟩) := by
  rcases rest with _ | ⟨⟨token, span⟩, rest⟩
  · rfl
  · cases token <;> first | rfl | exact absurd rfl unclosed

theorem primary_of_misfit (inner : Rule) (misfit : opensPrimary (front rest) = false) :
    primary inner ⟨rest, stop, depth⟩ =
      (.error (.missingOperand (front rest) (place rest stop)), ⟨rest, stop, depth⟩) := by
  rcases rest with _ | ⟨⟨token, span⟩, rest⟩
  · rfl
  · cases token <;> first | rfl | cases misfit

theorem unary_of_unsigned (inner : Rule) (unsigned : front rest ≠ some .minus) :
    unary inner ⟨rest, stop, depth⟩ = primary inner ⟨rest, stop, depth⟩ := by
  rcases rest with _ | ⟨⟨token, span⟩, rest⟩
  · rfl
  · cases token <;> first | rfl | exact absurd rfl unsigned

end Rules

/-- The rule of a category where this many levels may still be opened. -/
def Category.rule (levels : Nat) : Category → Rule
  | .row .additive => additive (unaryOf (levels + 1))
  | .row .multiplicative => multiplicative (unaryOf (levels + 1))
  | .unary => unaryOf (levels + 1)
  | .primary => Grammar.primary (unaryOf levels)

/-- A rule does at a depth what its goal allows, and closes every level that it opens. -/
def Follows (rule : Rule) (goal : Goal) (depth : Nat) : Prop :=
  ∀ rest stop, ∃ outcome stopped, rule ⟨rest, stop, depth⟩ = (outcome, ⟨stopped, stop, depth⟩) ∧
    Reads stop goal depth rest outcome stopped

theorem follows_chain {precedence : Precedence} {operand : Rule} {depth : Nat}
    (follows : Follows operand (.whole precedence.operand) depth) (rounds : Nat) (left : Subtree)
    (sound : left.Sound) (enough : depthLimit < rounds + left.height) :
    Follows (chain precedence.operators operand rounds left) (.more precedence left) depth := by
  -- There is a round left for every level that the subtree on the left may still grow by.
  induction rounds generalizing left with
  | zero =>
    have low := sound.height_le
    omega
  | succ rounds ih =>
    intro rest stop
    cases found : (front rest).bind precedence.operators with
    | none =>
      exact ⟨_, _, chain_of_no_operator _ _ _ found, .ended precedence left rest found⟩
    | some operator =>
      obtain ⟨token, span, rest, rfl, known⟩ := cons_of_operator found
      obtain ⟨outcome, middle, returned, reads⟩ := follows rest stop
      have unfolded := chain_cons rounds left span known returned
      cases outcome with
      | error error => exact ⟨_, _, unfolded, .nextFails left span known reads⟩
      | ok right =>
        cases made : Subtree.joined operator left right span.start with
        | error error =>
          simp only [andThen, made] at unfolded
          exact ⟨_, _, unfolded, .nextTooHigh known reads made⟩
        | ok higher =>
          -- The new subtree is higher than the one to its left, so one round less is enough.
          have soundHigher := Subtree.sound_joined sound (reads.sound trivial _ rfl) made
          have taller : left.height < higher.height := by
            obtain ⟨_, rfl⟩ := (Subtree.ofNode_eq_ok_iff _ _ _ _).mp made
            exact Nat.lt_succ_of_le (Nat.le_max_left _ _)
          obtain ⟨outcome, stopped, finished, others⟩ :=
            ih higher soundHigher (by omega) middle stop
          simp only [andThen, made] at unfolded
          exact ⟨outcome, stopped, unfolded.trans finished, .next known reads made others⟩

theorem follows_leftAssociative (precedence : Precedence) {operand : Rule} {depth : Nat}
    (follows : Follows operand (.whole precedence.operand) depth) :
    Follows (leftAssociative precedence.operators operand) (.whole (.row precedence)) depth := by
  intro rest stop
  obtain ⟨outcome, middle, returned, reads⟩ := follows rest stop
  cases outcome with
  | error error =>
    exact ⟨_, _, by rw [leftAssociative, returned]; rfl, .firstFails precedence reads⟩
  | ok left =>
    have sound := reads.sound trivial _ rfl
    -- Even a single operand has some height, so as many rounds as the limit says are enough.
    have enough : depthLimit < depthLimit + left.height := Nat.lt_add_of_pos_right sound.height_pos
    obtain ⟨outcome, stopped, finished, others⟩ :=
      follows_chain follows depthLimit left sound enough middle stop
    refine ⟨outcome, stopped, ?_, .row precedence reads others⟩
    rw [leftAssociative, returned]
    exact finished

theorem follows_multiplicative {unary : Rule} {depth : Nat}
    (follows : Follows unary (.whole .unary) depth) :
    Follows (multiplicative unary) (.whole (.row .multiplicative)) depth :=
  follows_leftAssociative .multiplicative follows

theorem follows_expression {unary : Rule} {depth : Nat}
    (follows : Follows unary (.whole .unary) depth) :
    Follows (expression unary) (.whole (.row .additive)) depth :=
  follows_leftAssociative .additive (follows_multiplicative follows)

theorem follows_primary {inner : Rule} {depth : Nat}
    (follows : depth < depthLimit → Follows inner (.whole .unary) (depth + 1)) :
    Follows (primary inner) (.whole .primary) depth := by
  intro rest stop
  cases misfit : opensPrimary (front rest) with
  | false => exact ⟨_, _, primary_of_misfit inner misfit, .noOperand rest misfit⟩
  | true =>
    rcases rest with _ | ⟨⟨token, span⟩, rest⟩
    · cases misfit
    · cases token with
      | literal value => exact ⟨_, _, rfl, .literal value span rest⟩
      | leftParen =>
        rcases Nat.lt_or_ge depth depthLimit with room | full
        · obtain ⟨outcome, stopped, returned, reads⟩ :=
            follows_expression (follows room) rest stop
          have grouped : primary inner ⟨⟨.leftParen, span⟩ :: rest, stop, depth⟩ =
              andThen (outcome, ⟨stopped, stop, depth⟩) close := by
            rw [← nested_of_room span.start room returned]
            rfl
          cases outcome with
          | error error => exact ⟨_, _, grouped, .groupFails span room reads⟩
          | ok subtree =>
            by_cases closed : front stopped = some .rightParen
            · obtain ⟨last, stopped, rfl⟩ := cons_of_front closed
              exact ⟨_, _, grouped, .group span last room reads⟩
            · exact ⟨_, _, grouped.trans (close_of_unclosed _ closed),
                .groupUnclosed span room reads closed⟩
        · refine ⟨_, _, ?_, .groupTooDeep span rest full⟩
          change andThen (nested span.start (expression inner) ⟨rest, stop, depth⟩) close = _
          rw [nested_of_full (expression inner) span.start full]
          rfl
      | _ => cases misfit

theorem follows_unary {inner : Rule} {depth : Nat}
    (follows : depth < depthLimit → Follows inner (.whole .unary) (depth + 1)) :
    Follows (unary inner) (.whole .unary) depth := by
  intro rest stop
  by_cases signed : front rest = some .minus
  · obtain ⟨span, rest, rfl⟩ := cons_of_front signed
    rcases Nat.lt_or_ge depth depthLimit with room | full
    · obtain ⟨outcome, stopped, returned, reads⟩ := follows room rest stop
      have negated : unary inner ⟨⟨.minus, span⟩ :: rest, stop, depth⟩ =
          andThen (outcome, ⟨stopped, stop, depth⟩) fun operand stopped =>
            (operand.negated span.start, stopped) := by
        rw [← nested_of_room span.start room returned]
        rfl
      cases outcome with
      | error error => exact ⟨_, _, negated, .minusFails span room reads⟩
      | ok operand => exact ⟨_, _, negated, .minus span room reads⟩
    · refine ⟨_, _, ?_, .minusTooDeep span rest full⟩
      change andThen (nested span.start inner ⟨rest, stop, depth⟩) _ = _
      rw [nested_of_full inner span.start full]
      rfl
  · obtain ⟨outcome, stopped, returned, reads⟩ := follows_primary follows rest stop
    exact ⟨outcome, stopped, (unary_of_unsigned inner signed).trans returned,
      .primary signed reads⟩

/-- As many levels of rules are enough as may still be opened. -/
theorem follows_unaryOf (levels depth : Nat) (enough : depthLimit ≤ depth + levels) :
    Follows (unaryOf (levels + 1)) (.whole .unary) depth := by
  -- With no levels left the limit is reached, and there the rule inside is not asked.
  induction levels generalizing depth with
  | zero =>
    apply follows_unary
    intro room
    omega
  | succ levels ih =>
    apply follows_unary
    intro room
    exact ih (depth + 1) (by omega)

theorem follows_rule (levels depth : Nat) (enough : depthLimit ≤ depth + levels)
    (category : Category) : Follows (category.rule levels) (.whole category) depth := by
  have unary := follows_unaryOf levels depth enough
  cases category with
  | row precedence =>
    cases precedence with
    | additive => exact follows_expression unary
    | multiplicative => exact follows_multiplicative unary
  | unary => exact unary
  | primary =>
    apply follows_primary
    intro room
    obtain ⟨fewer, rfl⟩ : ∃ fewer, levels = fewer + 1 := Nat.exists_eq_succ_of_ne_zero (by omega)
    exact follows_unaryOf fewer (depth + 1) (by omega)

/-- A rule does exactly what is related to it. -/
theorem rule_eq_iff (levels depth : Nat) (enough : depthLimit ≤ depth + levels)
    (category : Category) (rest stopped : List Lexeme) (stop : Nat)
    (outcome : Except ParseError Subtree) :
    category.rule levels ⟨rest, stop, depth⟩ = (outcome, ⟨stopped, stop, depth⟩) ↔
      Reads stop (.whole category) depth rest outcome stopped := by
  -- The rule does something that is related to it, and nothing else is.
  obtain ⟨outcome', stopped', returned, reads⟩ :=
    follows_rule levels depth enough category rest stop
  rw [returned]
  constructor
  · intro same
    cases same
    exact reads
  · intro other
    obtain ⟨rfl, rfl⟩ := reads.unique other
    rfl

/-- The goal that a whole row of lexemes has to meet. -/
abbrev ReadsExpression (lexemes : List Lexeme) (outcome : Except ParseError Subtree)
    (stopped : List Lexeme) : Prop :=
  Reads (Cursor.ofLexemes lexemes).stop (.whole (.row .additive)) 0 lexemes outcome stopped

theorem exists_readsExpression (lexemes : List Lexeme) :
    ∃ outcome stopped, ReadsExpression lexemes outcome stopped := by
  obtain ⟨outcome, stopped, _, reads⟩ := follows_rule depthLimit 0 (Nat.le_add_left _ _)
    (.row .additive) lexemes (Cursor.ofLexemes lexemes).stop
  exact ⟨outcome, stopped, reads⟩

/-- A row of lexemes forms the tree that is read from it, if nothing is left. -/
theorem ofLexemes_of_reads {lexemes stopped : List Lexeme} {outcome : Except ParseError Subtree}
    (reads : ReadsExpression lexemes outcome stopped) :
    Expr.ofLexemes lexemes = match outcome, stopped with
      | .error error, _ => .error error
      | .ok subtree, [] => .ok subtree.expr
      | .ok _, extra :: _ => .error (.unexpected extra.token none extra.span.start) := by
  have returned := (rule_eq_iff depthLimit 0 (Nat.le_add_left _ _) _ _ _ _ _).mpr reads
  have returned : expression outermost (Cursor.ofLexemes lexemes) = (outcome, _) := returned
  rw [Expr.ofLexemes, returned]
  cases outcome with
  | error error => rfl
  | ok subtree => cases stopped <;> rfl

/-- A tree is returned only where nothing is left behind what was read. -/
theorem exists_reads_of_ofLexemes {lexemes : List Lexeme} {e : Expr}
    (returned : Expr.ofLexemes lexemes = .ok e) {outcome : Except ParseError Subtree}
    {stopped : List Lexeme} (reads : ReadsExpression lexemes outcome stopped) :
    ∃ subtree, outcome = .ok subtree ∧ subtree.expr = e ∧ stopped = [] := by
  rw [ofLexemes_of_reads reads] at returned
  cases outcome with
  | error error => cases returned
  | ok subtree =>
    cases stopped with
    | cons extra stopped => cases returned
    | nil => exact ⟨subtree, rfl, Except.ok.inj returned, rfl⟩

end Calculator.Grammar
