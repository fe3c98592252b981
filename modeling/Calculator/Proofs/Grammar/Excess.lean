import Calculator.Proofs.Grammar.Derivation
import Calculator.Proofs.Grammar.Misfit

/-!
Where a limit is first exceeded.

A row is read once from the left, with a stack of what is begun and not complete: leading minuses,
parentheses, and operations that have their left operand. Nothing is limited in this reading. It
records what a limit could be about, in the order in which it happens: a leading minus or a
parenthesis that is met, with the number of them open around it, and a negation or an operation
that is complete, which is where its last token is read and the next token does not go on with its
right operand. The record ends with the first token that does not fit.

The rules keep no such stack, and notice a limit at different moments: a level before it is opened,
a height after the operands are read. By induction over what the rules read, they go through the
record in its order, and the first entry beyond a limit is where they stop.

Main statement: a row is too deep exactly if its record has an entry beyond a limit, and the error
is at the token of the first such entry, which is only just beyond (`ofLexemes_eq_tooDeep_iff`).
-/
namespace Calculator.Grammar

/-- What is begun in a row and waits for the rest of it, with the position of its token. -/
inductive Pending where
  | minus (position : Nat)
  | group
  | operation (operator : Operator) (left : Expr) (position : Nat)

/-- What a limit could be about. -/
inductive Event where
  /-- A leading minus or a parenthesis is met while this many of them are open around it. -/
  | opening (around position : Nat)
  /-- A node is complete, and this is the position of its operator. -/
  | completion (node : Expr) (position : Nat)

namespace Event

def position : Event → Nat
  | opening _ position => position
  | completion _ position => position

def exceeds : Event → Bool
  | opening around _ => depthLimit ≤ around
  | completion node _ => depthLimit < node.height

/-- Exceeds a limit by one. -/
def JustExceeds : Event → Prop
  | opening around _ => around = depthLimit
  | completion node _ => node.height = depthLimit + 1

end Event

namespace Pending

def isLevel : Pending → Bool
  | minus _ => true
  | group => true
  | operation _ _ _ => false

/-- The node that is complete with an operand, and the position of its operator. A parenthesis makes
no node, and an operation none yet if the next token goes on with its right operand: the operand of
a sum is a product, which may have one more factor. -/
def node? (next : Option Token) (operand : Expr) : Pending → Option (Expr × Nat)
  | minus position => some (.negate operand, position)
  | group => none
  | operation operator left position =>
    if operator.precedence = .additive ∧
        (next.bind Operator.ofToken?).map Operator.precedence = some .multiplicative then none
    else some (.binary operator left operand, position)

end Pending

/-- A place between two tokens of a row: what is pending there, the innermost first, and the operand
that ends there, if none is needed next. -/
structure Stage where
  pending : List Pending
  operand : Option Expr

namespace Stage

def start : Stage := ⟨[], none⟩

/-- How many leading minuses and parentheses are open. -/
def levels (pending : List Pending) : Nat := pending.countP Pending.isLevel

/-- Completes every node that the next token does not go on with, from the inside outwards. -/
def complete (next : Option Token) (operand : Expr) : List Pending → List Event × Stage
  | [] => ([], ⟨[], some operand⟩)
  | inner :: outer =>
    match inner.node? next operand with
    | some (node, position) =>
      let (completions, settled) := complete next node outer
      (.completion node position :: completions, settled)
    | none => ([], ⟨inner :: outer, some operand⟩)

/-- What is complete at a stage, and the stage where all of it is. -/
def settle (next : Option Token) (stage : Stage) : List Event × Stage :=
  match stage.operand with
  | some operand => complete next operand stage.pending
  | none => ([], stage)

/-- The stage behind a token that fits, and what the token opens. -/
def shift? (lexeme : Lexeme) : Stage → Option (List Event × Stage)
  | ⟨pending, none⟩ =>
    match lexeme.token with
    | .minus => some ([.opening (levels pending) lexeme.span.start],
        ⟨.minus lexeme.span.start :: pending, none⟩)
    | .leftParen => some ([.opening (levels pending) lexeme.span.start], ⟨.group :: pending, none⟩)
    | .literal value => some ([], ⟨pending, some (.number value)⟩)
    | _ => none
  | ⟨pending, some operand⟩ =>
    match lexeme.token, pending with
    | .rightParen, .group :: outer => some ([], ⟨outer, some operand⟩)
    | token, pending =>
      (Operator.ofToken? token).map fun operator =>
        ([], ⟨.operation operator operand lexeme.span.start :: pending, none⟩)

/-- What happens from a stage on, up to the end or the first token that does not fit. -/
def events (stage : Stage) : List Lexeme → List Event
  | [] => (stage.settle none).1
  | lexeme :: rest =>
    let (completions, settled) := stage.settle (some lexeme.token)
    completions ++ match settled.shift? lexeme with
      | some (openings, next) => openings ++ next.events rest
      | none => []

@[simp]
theorem levels_minus (position : Nat) (pending : List Pending) :
    levels (.minus position :: pending) = levels pending + 1 := List.countP_cons_of_pos rfl

@[simp]
theorem levels_group (pending : List Pending) : levels (.group :: pending) = levels pending + 1 :=
  List.countP_cons_of_pos rfl

@[simp]
theorem levels_operation (operator : Operator) (left : Expr) (position : Nat)
    (pending : List Pending) :
    levels (.operation operator left position :: pending) = levels pending :=
  List.countP_cons_of_neg Bool.false_ne_true

section Events

variable {pending outer : List Pending} {inner : Pending} {operand node : Expr} {position : Nat}
variable {rest : List Lexeme}

theorem events_minus (span : Span) : events ⟨pending, none⟩ (⟨.minus, span⟩ :: rest) =
    .opening (levels pending) span.start :: events ⟨.minus span.start :: pending, none⟩ rest := rfl

theorem events_leftParen (span : Span) : events ⟨pending, none⟩ (⟨.leftParen, span⟩ :: rest) =
    .opening (levels pending) span.start :: events ⟨.group :: pending, none⟩ rest := rfl

theorem events_literal (value : Binary64) (span : Span) :
    events ⟨pending, none⟩ (⟨.literal value, span⟩ :: rest) =
      events ⟨pending, some (.number value)⟩ rest := rfl

theorem events_of_misfit (misfit : opensPrimary (front rest) = false)
    (unsigned : front rest ≠ some .minus) : events ⟨pending, none⟩ rest = [] := by
  rcases rest with _ | ⟨⟨token, span⟩, rest⟩
  · rfl
  · cases token <;> first | rfl | exact absurd rfl unsigned | cases misfit

theorem events_of_node (complete : inner.node? (front rest) operand = some (node, position)) :
    events ⟨inner :: outer, some operand⟩ rest =
      .completion node position :: events ⟨outer, some node⟩ rest := by
  cases rest with
  | nil =>
    have complete : inner.node? none operand = some (node, position) := complete
    simp [events, settle, Stage.complete, complete]
  | cons lexeme rest =>
    have complete : inner.node? (some lexeme.token) operand = some (node, position) := complete
    simp [events, settle, Stage.complete, complete]

theorem settle_of_waiting {next : Option Token}
    (waiting : ∀ inner ∈ pending.head?, inner.node? next operand = none) :
    settle next ⟨pending, some operand⟩ = ([], ⟨pending, some operand⟩) := by
  cases pending with
  | nil => rfl
  | cons inner outer =>
    have none : inner.node? next operand = none := waiting inner rfl
    simp [settle, Stage.complete, none]

theorem events_rightParen (span : Span) :
    events ⟨.group :: outer, some operand⟩ (⟨.rightParen, span⟩ :: rest) =
      events ⟨outer, some operand⟩ rest := rfl

theorem events_operator {precedence : Precedence} {token : Token} {operator : Operator}
    (known : precedence.operators token = some operator) (span : Span)
    (waiting : ∀ inner ∈ pending.head?, inner.node? (some token) operand = none) :
    events ⟨pending, some operand⟩ (⟨token, span⟩ :: rest) =
      events ⟨.operation operator operand span.start :: pending, none⟩ rest := by
  have shifted : shift? ⟨token, span⟩ ⟨pending, some operand⟩ =
      some ([], ⟨.operation operator operand span.start :: pending, none⟩) := by
    obtain ⟨rfl, -⟩ := (operators_eq_some_iff _ _ _).mp known
    cases operator <;> rfl
  simp [events, settle_of_waiting waiting, shifted]

theorem events_of_waiting (waiting : ∀ inner ∈ pending.head?, inner = .group)
    (ends : Category.Ends (.row .additive) (front rest))
    (closed : front rest = some .rightParen → pending = []) :
    events ⟨pending, some operand⟩ rest = [] := by
  have settled (next : Option Token) :
      settle next ⟨pending, some operand⟩ = ([], ⟨pending, some operand⟩) :=
    settle_of_waiting fun inner first => waiting inner first ▸ rfl
  rcases rest with _ | ⟨⟨token, span⟩, rest⟩
  · simp [events, settled]
  · have stuck : shift? ⟨token, span⟩ ⟨pending, some operand⟩ = none := by
      cases token with
      | rightParen =>
        obtain rfl := closed rfl
        rfl
      | leftParen | literal => rfl
      | star | slash => cases ends.1
      | plus | minus => cases ends.2 rfl
    simp [events, settled, stuck]

end Events

end Stage

/-- A row of a precedence may stand behind what is pending, and none of its operators completes
that. -/
def Pending.Admits : Pending → Precedence → Prop
  | minus _, _ => False
  | group, _ => True
  | operation operator _ _, precedence =>
    operator.precedence = .additive ∧ precedence = .multiplicative

def Category.Fits : Category → List Pending → Prop
  | .row precedence, pending => ∀ inner ∈ pending.head?, inner.Admits precedence
  | .unary, _ => True
  | .primary, _ => True

theorem Pending.Admits.node?_eq_none {inner : Pending} {precedence : Precedence} {token : Token}
    {operator : Operator} (admits : inner.Admits precedence)
    (known : precedence.operators token = some operator) (operand : Expr) :
    inner.node? (some token) operand = none := by
  cases inner with
  | minus position => cases admits
  | group => rfl
  | operation before left position =>
    obtain ⟨additive, rfl⟩ := admits
    obtain ⟨written, multiplicative⟩ := (operators_eq_some_iff _ _ _).mp known
    have found := (Operator.ofToken?_eq_some_iff token operator).mpr written
    simp [node?, additive, found, multiplicative]

/-- An operation is complete where its right operand ends. -/
theorem Pending.node?_of_ends {operator : Operator} {next : Option Token}
    (ends : operator.precedence.operand.Ends next) (left operand : Expr) (position : Nat) :
    (operation operator left position).node? next operand =
      some (.binary operator left operand, position) := by
  rw [node?, if_neg]
  rintro ⟨additive, more⟩
  obtain ⟨other, found, multiplicative⟩ := Option.map_eq_some_iff.mp more
  obtain ⟨token, rfl, known⟩ := Option.bind_eq_some_iff.mp found
  have written := (Operator.ofToken?_eq_some_iff token other).mp known
  have goesOn := (operators_eq_some_iff .multiplicative token other).mpr ⟨written, multiplicative⟩
  rw [additive] at ends
  cases goesOn.symm.trans ends.1

theorem Category.Fits.operand {precedence : Precedence} {pending : List Pending}
    (fits : Category.Fits (.row precedence) pending) : precedence.operand.Fits pending := by
  cases precedence with
  | multiplicative => trivial
  | additive =>
    intro inner first
    cases inner with
    | group => trivial
    | minus position => exact fits _ first
    | operation operator left position => cases (fits _ first).2

theorem Category.fits_right {precedence : Precedence} {operator : Operator}
    (same : operator.precedence = precedence) (left : Expr) (position : Nat)
    (pending : List Pending) :
    precedence.operand.Fits (.operation operator left position :: pending) := by
  cases precedence with
  | multiplicative => trivial
  | additive =>
    intro inner first
    cases first
    exact ⟨same, rfl⟩

theorem Category.fits_group (pending : List Pending) :
    Category.Fits (.row .additive) (.group :: pending) := by
  intro inner first
  cases first
  trivial

def Goal.Fits (goal : Goal) (pending : List Pending) : Prop := goal.category.Fits pending

/-- What is read already where a goal begins. -/
def Goal.operand : Goal → Option Expr
  | .whole _ => none
  | .more _ left => some left.expr

/-- A node whose height is recorded and within the limit exceeds nothing. -/
theorem Event.exceeds_completion {subtree : Subtree} (sound : subtree.Sound) (position : Nat) :
    (completion subtree.expr position).exceeds = false := by
  have low := sound.height_le
  rw [sound.height_eq] at low
  simpa [exceeds] using low

theorem Event.exceeds_opening {around : Nat} (room : around < depthLimit) (position : Nat) :
    (opening around position).exceeds = false := by
  simpa [exceeds] using room

/-- A stretch of a row leads from one stage to another, and what happens on it exceeds no limit. -/
def Leads (stage : Stage) (rest : List Lexeme) (behind : Stage) (stopped : List Lexeme) : Prop :=
  ∃ passed, stage.events rest = passed ++ behind.events stopped ∧
    ∀ event ∈ passed, event.exceeds = false

namespace Leads

variable {first second third : Stage} {pending : List Pending} {rest middle stopped : List Lexeme}

theorem of_eq (same : first.events rest = second.events stopped) :
    Leads first rest second stopped :=
  ⟨[], same, nofun⟩

theorem of_cons {event : Event} (same : first.events rest = event :: second.events stopped)
    (within : event.exceeds = false) : Leads first rest second stopped := by
  refine ⟨[event], same, ?_⟩
  intro other member
  exact List.mem_singleton.mp member ▸ within

theorem trans (before : Leads first rest second middle)
    (after : Leads second middle third stopped) : Leads first rest third stopped := by
  obtain ⟨passed, same, within⟩ := before
  obtain ⟨more, sameMore, withinMore⟩ := after
  refine ⟨passed ++ more, by rw [same, sameMore, List.append_assoc], ?_⟩
  intro event member
  rcases List.mem_append.mp member with early | late
  · exact within event early
  · exact withinMore event late

theorem minus (span : Span) (room : Stage.levels pending < depthLimit) :
    Leads ⟨pending, none⟩ (⟨.minus, span⟩ :: rest) ⟨.minus span.start :: pending, none⟩ rest :=
  of_cons (Stage.events_minus span) (Event.exceeds_opening room span.start)

theorem leftParen (span : Span) (room : Stage.levels pending < depthLimit) :
    Leads ⟨pending, none⟩ (⟨.leftParen, span⟩ :: rest) ⟨.group :: pending, none⟩ rest :=
  of_cons (Stage.events_leftParen span) (Event.exceeds_opening room span.start)

theorem rightParen (span : Span) (operand : Expr) :
    Leads ⟨.group :: pending, some operand⟩ (⟨.rightParen, span⟩ :: rest)
      ⟨pending, some operand⟩ rest :=
  of_eq (Stage.events_rightParen span)

theorem operator {operator : Operator} (span : Span) (left : Expr)
    (fits : Category.Fits (.row operator.precedence) pending) :
    Leads ⟨pending, some left⟩ (⟨operator.token, span⟩ :: rest)
      ⟨.operation operator left span.start :: pending, none⟩ rest := by
  have known : operator.precedence.operators operator.token = some operator :=
    (operators_eq_some_iff _ _ _).mpr ⟨rfl, rfl⟩
  apply of_eq
  apply Stage.events_operator known span
  intro inner first
  exact (fits inner first).node?_eq_none known left

theorem completion {inner : Pending} {operand : Expr} {node : Subtree} {position : Nat}
    (complete : inner.node? (front rest) operand = some (node.expr, position))
    (sound : node.Sound) :
    Leads ⟨inner :: pending, some operand⟩ rest ⟨pending, some node.expr⟩ rest :=
  of_cons (Stage.events_of_node complete) (Event.exceeds_completion sound position)

/-- An operation that is within the limit, with the operand to its right. -/
theorem operation {operator : Operator} {left right higher : Subtree} {span : Span}
    (read : Leads ⟨pending, some left.expr⟩ (⟨operator.token, span⟩ :: rest)
      ⟨.operation operator left.expr span.start :: pending, some right.expr⟩ stopped)
    (ends : operator.precedence.operand.Ends (front stopped))
    (made : Subtree.joined operator left right span.start = .ok higher) (sound : higher.Sound) :
    Leads ⟨pending, some left.expr⟩ (⟨operator.token, span⟩ :: rest)
      ⟨pending, some higher.expr⟩ stopped := by
  obtain ⟨_, rfl⟩ := (Subtree.ofNode_eq_ok_iff _ _ _ _).mp made
  exact read.trans (completion (Pending.node?_of_ends ends _ _ _) sound)

end Leads

/-- What a rule reads leads from the stage in front of it to the one behind its tree. -/
theorem Reads.leads {stop depth : Nat} {goal : Goal} {rest stopped : List Lexeme}
    {outcome : Except ParseError Subtree} (reads : Reads stop goal depth rest outcome stopped)
    (sound : goal.Sound) (subtree : Subtree) (returned : outcome = .ok subtree)
    (pending : List Pending) (fits : goal.Fits pending) (same : Stage.levels pending = depth) :
    Leads ⟨pending, goal.operand⟩ rest ⟨pending, some subtree.expr⟩ stopped := by
  induction reads generalizing subtree pending with
  | literal value span rest =>
    cases returned
    exact .of_eq (Stage.events_literal value span)
  | group span last room inner ih =>
    have inside := ih trivial subtree returned (.group :: pending) (Category.fits_group pending)
      (by simp [same])
    exact ((Leads.leftParen span (same ▸ room)).trans inside).trans (.rightParen last _)
  | primary unsigned inner ih => exact ih trivial subtree returned pending trivial same
  | minus span room inner ih =>
    have inside := ih trivial _ rfl (.minus span.start :: pending) trivial (by simp [same])
    have made := Subtree.sound_negated (inner.sound trivial _ rfl) returned
    obtain ⟨_, rfl⟩ := (Subtree.ofNode_eq_ok_iff _ _ _ _).mp returned
    exact ((Leads.minus span (same ▸ room)).trans inside).trans (.completion rfl made)
  | row precedence first others ihFirst ih =>
    have before := ihFirst trivial _ rfl pending fits.operand same
    exact before.trans (ih (first.sound trivial _ rfl) subtree returned pending fits same)
  | ended precedence left rest no =>
    cases returned
    exact .of_eq rfl
  | @next depth precedence token operator rest middle stopped left right higher outcome span known
      next made others ihNext ih =>
    obtain ⟨rfl, rfl⟩ := (operators_eq_some_iff _ _ _).mp known
    have inside := ihNext trivial right rfl (.operation operator left.expr span.start :: pending)
      (Category.fits_right rfl _ _ _) (by simp [same])
    have soundHigher := Subtree.sound_joined sound (next.sound trivial _ rfl) made
    have read := (Leads.operator span left.expr fits).trans inside
    have joined := Leads.operation read (next.ends trivial right rfl) made soundHigher
    exact joined.trans (ih soundHigher subtree returned pending fits same)
  | noOperand | groupTooDeep | groupFails | groupUnclosed | minusTooDeep | minusFails | firstFails
  | nextFails | nextTooHigh => cases returned

/-- What is read as the right operand of an operator leads from in front of the operator to behind
the operand, where the operation is not complete yet. -/
theorem Reads.leads_right {stop depth : Nat} {rest stopped : List Lexeme} {operator : Operator}
    {right : Subtree}
    (reads : Reads stop (.whole operator.precedence.operand) depth rest (.ok right) stopped)
    {pending : List Pending} (span : Span) (left : Expr)
    (fits : Category.Fits (.row operator.precedence) pending)
    (same : Stage.levels pending = depth) :
    Leads ⟨pending, some left⟩ (⟨operator.token, span⟩ :: rest)
      ⟨.operation operator left span.start :: pending, some right.expr⟩ stopped := by
  have inside := reads.leads trivial right rfl (.operation operator left span.start :: pending)
    (Category.fits_right rfl _ _ _) (by simp [same])
  exact (Leads.operator span left fits).trans inside

/-- The first of these events that exceeds a limit is what an error is about, if there is one. -/
def Reports (events : List Event) (error : ParseError) : Prop :=
  (∃ event, events.find? Event.exceeds = some event ∧ event.JustExceeds ∧
    error = .tooDeep depthLimit event.position) ∨
  (events.find? Event.exceeds = none ∧ ∀ limit position, error ≠ .tooDeep limit position)

theorem Reports.of_leads {first second : Stage} {rest stopped : List Lexeme} {error : ParseError}
    (leads : Leads first rest second stopped) (reports : Reports (second.events stopped) error) :
    Reports (first.events rest) error := by
  obtain ⟨passed, same, within⟩ := leads
  have nothing : passed.find? Event.exceeds = none := by
    rw [List.find?_eq_none]
    intro event member
    simp [within event member]
  rw [Reports, same, List.find?_append, nothing, Option.none_or]
  exact reports

theorem Reports.of_opening {around position : Nat} (full : depthLimit ≤ around)
    (bounded : around ≤ depthLimit) (others : List Event) :
    Reports (.opening around position :: others) (.tooDeep depthLimit position) :=
  .inl ⟨_, List.find?_cons_of_pos (by simpa [Event.exceeds] using full),
    Nat.le_antisymm bounded full, rfl⟩

/-- A node that is refused is too high by one, since its operands are not too high. -/
theorem Reports.of_completion {node : Expr} {height position : Nat} {error : ParseError}
    (refused : Subtree.ofNode node height position = .error error) (same : height = node.height)
    (low : height ≤ depthLimit + 1) (others : List Event) :
    Reports (.completion node position :: others) error := by
  have high : depthLimit < node.height := by
    by_contra within
    rw [Subtree.ofNode, if_pos (by omega)] at refused
    cases refused
  refine .inl ⟨_, List.find?_cons_of_pos (by simpa [Event.exceeds] using high), ?_,
    Subtree.error_of_ofNode refused⟩
  exact Nat.le_antisymm (same ▸ low) high

/-- An error of a rule is about the first event that exceeds a limit, if there is one. -/
theorem Reads.reports {stop depth : Nat} {goal : Goal} {rest stopped : List Lexeme}
    {outcome : Except ParseError Subtree} (reads : Reads stop goal depth rest outcome stopped)
    (sound : goal.Sound) (bounded : depth ≤ depthLimit)
    (unsigned : goal = .whole .primary → front rest ≠ some .minus) (error : ParseError)
    (returned : outcome = .error error) (pending : List Pending) (fits : goal.Fits pending)
    (same : Stage.levels pending = depth) :
    Reports (Stage.events ⟨pending, goal.operand⟩ rest) error := by
  induction reads generalizing error pending with
  | noOperand rest misfit =>
    cases returned
    have nothing : Stage.events ⟨pending, none⟩ rest = [] :=
      Stage.events_of_misfit misfit (unsigned rfl)
    exact .inr ⟨congrArg (List.find? Event.exceeds) nothing, by simp⟩
  | groupTooDeep span rest full =>
    cases returned
    exact Reports.of_opening (same ▸ full) (same ▸ bounded) _
  | groupFails span room inner ih =>
    have inside := ih trivial room (by simp) error returned (.group :: pending)
      (Category.fits_group pending) (by simp [same])
    exact .of_leads (.leftParen span (same ▸ room)) inside
  | @groupUnclosed depth rest stopped subtree span room inner other ih =>
    cases returned
    have inside := inner.leads trivial subtree rfl (.group :: pending)
      (Category.fits_group pending) (by simp [same])
    have nothing : Stage.events ⟨.group :: pending, some subtree.expr⟩ stopped = [] := by
      apply Stage.events_of_waiting _ (inner.ends trivial subtree rfl)
      · exact fun closed => absurd closed other
      · rintro _ ⟨⟩
        rfl
    exact .of_leads ((Leads.leftParen span (same ▸ room)).trans inside)
      (.inr ⟨congrArg (List.find? Event.exceeds) nothing, by simp⟩)
  | primary other inner ih =>
    exact ih trivial bounded (fun _ => other) error returned pending trivial same
  | minusTooDeep span rest full =>
    cases returned
    exact Reports.of_opening (same ▸ full) (same ▸ bounded) _
  | minusFails span room inner ih =>
    have inside := ih trivial room (by simp) error returned (.minus span.start :: pending) trivial
      (by simp [same])
    exact .of_leads (.minus span (same ▸ room)) inside
  | @minus depth rest stopped operand span room inner ih =>
    have inside := inner.leads trivial operand rfl (.minus span.start :: pending) trivial
      (by simp [same])
    have sound := inner.sound trivial operand rfl
    apply Reports.of_leads ((Leads.minus span (same ▸ room)).trans inside)
    rw [Stage.events_of_node rfl]
    exact .of_completion returned (by rw [Expr.height, sound.height_eq])
      (Nat.succ_le_succ sound.height_le) _
  | firstFails precedence first ih =>
    exact ih trivial bounded (by simp) error returned pending fits.operand same
  | row precedence first others ihFirst ih =>
    have before := first.leads trivial _ rfl pending fits.operand same
    exact .of_leads before
      (ih (first.sound trivial _ rfl) bounded (by simp) error returned pending fits same)
  | @nextFails depth precedence token operator rest stopped error left span known next ih =>
    obtain ⟨rfl, rfl⟩ := (operators_eq_some_iff _ _ _).mp known
    have inside := ih trivial bounded (by simp) _ returned
      (.operation operator left.expr span.start :: pending) (Category.fits_right rfl _ _ _)
      (by simp [same])
    exact .of_leads (.operator span left.expr fits) inside
  | @nextTooHigh depth precedence token operator rest stopped left right error span known next high
      ih =>
    obtain ⟨rfl, rfl⟩ := (operators_eq_some_iff _ _ _).mp known
    have soundRight := next.sound trivial right rfl
    have low := Nat.max_le.mpr ⟨sound.height_le, soundRight.height_le⟩
    apply Reports.of_leads (next.leads_right span left.expr fits same)
    rw [Stage.events_of_node (Pending.node?_of_ends (next.ends trivial right rfl) _ _ _)]
    cases returned
    exact .of_completion high (by rw [Expr.height, sound.height_eq, soundRight.height_eq])
      (Nat.succ_le_succ low) _
  | @next depth precedence token operator rest middle stopped left right higher outcome span known
      next made others ihNext ih =>
    obtain ⟨rfl, rfl⟩ := (operators_eq_some_iff _ _ _).mp known
    have read := next.leads_right span left.expr fits same
    have soundHigher := Subtree.sound_joined sound (next.sound trivial _ rfl) made
    have joined := Leads.operation read (next.ends trivial right rfl) made soundHigher
    exact .of_leads joined (ih soundHigher bounded (by simp) error returned pending fits same)
  | literal | group | ended => cases returned

/-- Where a whole row was read as a tree, nothing has happened that exceeds a limit. -/
theorem find?_of_reads {lexemes stopped : List Lexeme} {subtree : Subtree}
    (reads : ReadsExpression lexemes (.ok subtree) stopped) :
    (Stage.start.events lexemes).find? Event.exceeds = none := by
  obtain ⟨passed, same, within⟩ := reads.leads trivial subtree rfl [] nofun rfl
  have nothing : Stage.events ⟨[], some subtree.expr⟩ stopped = [] :=
    Stage.events_of_waiting nofun (reads.ends trivial subtree rfl) fun _ => rfl
  rw [nothing, List.append_nil] at same
  rw [Stage.start, List.find?_eq_none]
  intro event member
  simp [within event (same ▸ member)]

theorem find?_of_ok {lexemes : List Lexeme} {e : Expr} (returned : Expr.ofLexemes lexemes = .ok e) :
    (Stage.start.events lexemes).find? Event.exceeds = none := by
  obtain ⟨outcome, stopped, reads⟩ := exists_readsExpression lexemes
  obtain ⟨subtree, rfl, -, -⟩ := exists_reads_of_ofLexemes returned reads
  exact find?_of_reads reads

theorem reports_of_error {lexemes : List Lexeme} {error : ParseError}
    (returned : Expr.ofLexemes lexemes = .error error) :
    Reports (Stage.start.events lexemes) error := by
  obtain ⟨outcome, stopped, reads⟩ := exists_readsExpression lexemes
  rw [ofLexemes_of_reads reads] at returned
  cases outcome with
  | error other =>
    cases returned
    exact reads.reports trivial (Nat.zero_le _) nofun _ rfl [] nofun rfl
  | ok subtree =>
    -- A tree was read, and the error is about what is left behind it.
    cases stopped with
    | nil => cases returned
    | cons extra stopped =>
      cases returned
      exact .inr ⟨find?_of_reads reads, nofun⟩

/-- A row is too deep exactly if something exceeds a limit before the row ends or a token does not
fit, and the error is at the first thing that does. That exceeds its limit by one: 512 levels are
open around it, or its node has a height of 513. -/
theorem ofLexemes_eq_tooDeep_iff (lexemes : List Lexeme) :
    (∀ limit position, Expr.ofLexemes lexemes = .error (.tooDeep limit position) ↔
      limit = 512 ∧ ∃ event, (Stage.start.events lexemes).find? Event.exceeds = some event ∧
        event.position = position) ∧
    ∀ event, (Stage.start.events lexemes).find? Event.exceeds = some event →
      event.JustExceeds := by
  cases returned : Expr.ofLexemes lexemes with
  | ok e => simp [find?_of_ok returned]
  | error error =>
    rcases reports_of_error returned with ⟨event, first, just, rfl⟩ | ⟨nothing, shallow⟩
    · rw [first]
      refine ⟨fun limit position => ?_, fun other same => Option.some.inj same ▸ just⟩
      simp only [Except.error.injEq, ParseError.tooDeep.injEq, Option.some.injEq, exists_eq_left']
      exact and_congr_left fun _ => eq_comm
    · simp [nothing, shallow]

/-- In "-1+2", with zeros for the numbers, the negation is complete before the sum is. -/
example : Stage.start.events [⟨.minus, 0, 1⟩, ⟨.literal (.zero false), 1, 2⟩, ⟨.plus, 2, 3⟩,
      ⟨.literal (.zero false), 3, 4⟩] =
    let negation := Expr.negate (.number (.zero false))
    [.opening 0 0, .completion negation 0,
      .completion (.binary .add negation (.number (.zero false))) 2] := rfl

end Calculator.Grammar
