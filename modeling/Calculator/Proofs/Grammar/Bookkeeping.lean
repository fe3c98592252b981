import Calculator.Proofs.Grammar.Moment
import Calculator.Proofs.Grammar.Positions

/-!
The state in which a rule leaves the cursor and the subtree that it gives.

Whatever the outcome is, a rule has closed the levels that it opened, and has only moved forward. A
group is read like the primary that it is, except that its rule passes the lexeme in front without a
look at it, so what holds of primaries behind a parenthesis holds of it at any cursor.

Main statement: a rule returns with as many levels open as before, behind a part of the lexemes; a
subtree has some lexemes, the height recorded for it, within the limit, and no operator behind it
that would belong to it (`rule_returns`).
-/
namespace Calculator.Grammar

section Reads

variable {stop depth : Nat} {rest stopped : List Lexeme} {outcome : Except ParseError Subtree}

/-- A category has at least one lexeme. -/
theorem Reads.length_lt {goal : Goal} (reads : Reads stop goal depth rest outcome stopped)
    (category : Category) (whole : goal = .whole category) (subtree : Subtree)
    (returned : outcome = .ok subtree) : stopped.length < rest.length := by
  -- What is left is the end of what was there, so one lexeme that is passed is enough.
  induction reads generalizing category subtree with
  | literal => exact Nat.lt_succ_self _
  | group span last room inner ih =>
    exact Nat.lt_succ_of_lt (Nat.lt_of_succ_le inner.suffix.length_le)
  | primary unsigned inner ih => exact ih _ rfl subtree returned
  | minus span room inner ih => exact Nat.lt_succ_of_le inner.suffix.length_le
  | row precedence first others ihFirst ih =>
    exact Nat.lt_of_le_of_lt others.suffix.length_le (ihFirst _ rfl _ rfl)
  | ended | next => cases whole
  | noOperand | groupTooDeep | groupFails | groupUnclosed | minusTooDeep | minusFails | firstFails
  | nextFails | nextTooHigh => cases returned

/-- Of a group, its parenthesis is read in any case, and more if it is a group. -/
theorem Reads.behind_parenthesis {span : Span}
    (reads : Reads stop (.whole .primary) depth (⟨.leftParen, span⟩ :: rest) outcome stopped) :
    stopped <:+ rest ∧ ∀ subtree, outcome = .ok subtree → stopped.length < rest.length := by
  cases reads with
  | noOperand rest misfit => cases misfit
  | groupTooDeep => exact ⟨List.suffix_rfl, nofun⟩
  | groupFails span room inner => exact ⟨inner.suffix, nofun⟩
  | groupUnclosed span room inner unclosed => exact ⟨inner.suffix, nofun⟩
  | group span last room inner =>
    exact ⟨(List.suffix_cons _ _).trans inner.suffix,
      fun _ _ => Nat.lt_of_succ_le inner.suffix.length_le⟩

end Reads

/-- The rule that a call is of, where this many levels may still be opened. -/
def Call.rule (levels : Nat) : Call → Rule
  | .expression => Grammar.expression (unaryOf (levels + 1))
  | .inside category => category.rule levels
  | .grouping position => Grammar.grouping (unaryOf levels) position

/-- The operators that a category has between its operands, and those that bind tighter. A leading
minus is part of an operand. -/
def Category.operators : Category → List Token
  | .row .additive => [.plus, .minus, .star, .slash]
  | .row .multiplicative => [.star, .slash]
  | .unary => []
  | .primary => []

def Call.operators : Call → List Token
  | .expression => Category.operators (.row .additive)
  | .inside category => category.operators
  | .grouping _ => []

theorem Category.Ends.ne_operator {category : Category} {next : Option Token}
    (ends : category.Ends next) : ∀ token ∈ category.operators, next ≠ some token := by
  rintro token member rfl
  rcases category with (_ | _) | _ | _ <;>
    simp only [operators, List.mem_cons, List.not_mem_nil, or_false] at member
  · rcases member with rfl | rfl | rfl | rfl <;>
      simp [Ends, additiveOperator, multiplicativeOperator] at ends
  · rcases member with rfl | rfl <;> simp [Ends, multiplicativeOperator] at ends

/-- What is left where a rule returns, and the subtree that it gives, if it gives one. -/
structure Leaves (operators : List Token) (rest : List Lexeme)
    (outcome : Except ParseError Subtree) (stopped : List Lexeme) : Prop where
  suffix : stopped <:+ rest
  length_lt : ∀ subtree, outcome = .ok subtree → stopped.length < rest.length
  sound : ∀ subtree, outcome = .ok subtree → subtree.Sound
  ne_operator : ∀ subtree, outcome = .ok subtree → ∀ token ∈ operators, front stopped ≠ some token

theorem Reads.leaves {stop depth : Nat} {category : Category} {rest stopped : List Lexeme}
    {outcome : Except ParseError Subtree}
    (reads : Reads stop (.whole category) depth rest outcome stopped) :
    Leaves category.operators rest outcome stopped where
  suffix := reads.suffix
  length_lt := reads.length_lt category rfl
  sound := reads.sound trivial
  ne_operator subtree returned := (reads.ends trivial subtree returned).ne_operator

/-- The rule for a group goes on behind the next lexeme as if a parenthesis had been there. -/
theorem grouping_eq_primary (inner : Rule) (position : Nat) (rest : List Lexeme)
    (stop depth : Nat) :
    grouping inner position ⟨rest, stop, depth⟩ =
      primary inner ⟨⟨.leftParen, position, position⟩ :: rest.tail, stop, depth⟩ := rfl

theorem Call.exists_leaves (call : Call) (levels : Nat) (cursor : Cursor)
    (enough : depthLimit ≤ cursor.depth + levels) :
    ∃ outcome stopped, call.rule levels cursor = (outcome, { cursor with rest := stopped }) ∧
      Leaves call.operators cursor.rest outcome stopped := by
  obtain ⟨rest, stop, depth⟩ := cursor
  have follows (category : Category) := follows_rule levels depth enough category
  cases call with
  | expression =>
    obtain ⟨outcome, stopped, returned, reads⟩ := follows (.row .additive) rest stop
    exact ⟨outcome, stopped, returned, reads.leaves⟩
  | inside category =>
    obtain ⟨outcome, stopped, returned, reads⟩ := follows category rest stop
    exact ⟨outcome, stopped, returned, reads.leaves⟩
  | grouping position =>
    obtain ⟨outcome, stopped, returned, reads⟩ :=
      follows .primary (⟨.leftParen, position, position⟩ :: rest.tail) stop
    obtain ⟨suffix, shorter⟩ := reads.behind_parenthesis
    refine ⟨outcome, stopped, (grouping_eq_primary _ _ _ _ _).trans returned, ?_⟩
    exact {
      suffix := suffix.trans (List.tail_suffix rest)
      length_lt := fun subtree made =>
        Nat.lt_of_lt_of_le (shorter subtree made) (List.tail_suffix rest).length_le
      sound := reads.sound trivial
      ne_operator := fun _ _ _ member => nomatch member }

/-- A rule with levels enough for those that may still be opened, as the outermost rules have at any
cursor, returns with as many levels open as before, and the lexemes left are the last ones of those
that were there. If it gives a subtree, then at least one lexeme was read, the recorded height is
the height and within the limit, and the next token is no operator that the rule or one inside it
would read. -/
theorem rule_returns (call : Call) (levels : Nat) (cursor : Cursor)
    (enough : depthLimit ≤ cursor.depth + levels) :
    let outcome := (call.rule levels cursor).1
    let stopped := (call.rule levels cursor).2
    stopped.depth = cursor.depth ∧ stopped.stop = cursor.stop ∧ stopped.rest <:+ cursor.rest ∧
      ∀ subtree, outcome = .ok subtree →
        stopped.rest.length < cursor.rest.length ∧
        subtree.height = subtree.expr.height ∧ 1 ≤ subtree.height ∧ subtree.height ≤ 512 ∧
        ∀ token ∈ call.operators, stopped.peek?.map (·.token) ≠ some token := by
  obtain ⟨outcome, stopped, returned, leaves⟩ := call.exists_leaves levels cursor enough
  rw [returned]
  refine ⟨rfl, rfl, leaves.suffix, fun subtree made => ?_⟩
  have sound := leaves.sound subtree made
  exact ⟨leaves.length_lt subtree made, sound.height_eq, sound.height_pos, sound.height_le,
    leaves.ne_operator subtree made⟩

/-- One level is left for the minus in front of the product, and the sum is not its matter. -/
theorem rule_returns_at_last_level :
    let one : Binary64 := ⟨false, 0x3FF0000000000000, by decide⟩
    let sum : List Lexeme := [⟨.plus, 4, 5⟩, ⟨.literal one, 5, 6⟩]
    let product : List Lexeme :=
      [⟨.minus, 0, 1⟩, ⟨.literal one, 1, 2⟩, ⟨.star, 2, 3⟩, ⟨.literal one, 3, 4⟩]
    let cursor : Cursor := ⟨product ++ sum, 6, 511⟩
    let returned := (Call.inside (.row .multiplicative)).rule 1 cursor
    let e : Expr := .binary .multiply (.negate (.number one)) (.number one)
    depthLimit ≤ cursor.depth + 1 ∧ returned.1 = .ok ⟨e, 3⟩ ∧ returned.2 = ⟨sum, 6, 511⟩ ∧
      e.height = 3 ∧ sum <:+ cursor.rest ∧
      ∀ token ∈ [Token.star, .slash], sum.head?.map (·.token) ≠ some token := by
  intro one sum product cursor returned e
  have enough : depthLimit ≤ cursor.depth + 1 := Nat.le_refl 512
  have given : returned = (.ok ⟨e, 3⟩, ⟨sum, 6, 511⟩) := rfl
  obtain ⟨-, -, suffix, read⟩ := rule_returns (.inside (.row .multiplicative)) 1 cursor enough
  obtain ⟨-, height, -, -, other⟩ := read ⟨e, 3⟩ (congrArg Prod.fst given)
  exact ⟨enough, congrArg Prod.fst given, congrArg Prod.snd given, height.symm, suffix, other⟩

end Calculator.Grammar
