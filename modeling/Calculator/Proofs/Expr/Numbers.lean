import Calculator.Compute
import Calculator.Proofs.Grammar.Derivation
import Calculator.Proofs.Token.Division
import Calculator.Proofs.Token.Line
import Mathlib.Data.String.Basic

/-!
The numbers at the leaves of a tree, and the literals of the source that they come from.

A tree has its leaves in the order in which the literals stand in the source, so nothing but
parentheses and operators stands between the two rows. Each literal is written in the source as an
exact decimal, and the leaf is that decimal rounded.

Main statements: the leaves of a tree are the decimals of its source, rounded to nearest
(`numbers_of_tree`), and they are finite numbers without a sign (`unsigned_of_tree`).
-/
namespace Calculator

/-- The numbers at the leaves, from left to right. -/
def Expr.numbers : Expr → List Binary64
  | number x => [x]
  | negate operand => operand.numbers
  | binary _ left right => left.numbers ++ right.numbers

def Token.number? : Token → Option Binary64
  | literal value => some value
  | _ => none

/-- The part of a source that a span is about. -/
def Span.slice (span : Span) (source : String) : String :=
  String.Pos.Raw.extract source ⟨span.start⟩ ⟨span.stop⟩

/-- The exact value of what is written in the source for a number. -/
def Lexeme.decimal? (source : String) (lexeme : Lexeme) : Option Rat :=
  lexeme.token.number?.map fun _ => Numeral.decimalValue (lexeme.span.slice source).toList

/-- The exact values that the literals of a source are written with, from left to right. -/
def decimals (source : String) : List Rat :=
  match Token.scan source with
  | .ok found => found.filterMap (Lexeme.decimal? source)
  | .error _ => []

theorem Operator.number?_token (operator : Operator) : operator.token.number? = none := by
  cases operator <;> rfl

theorem Grammar.Derives.filterMap_number? {category : Category} {row : List Token} {nesting : Nat}
    {e : Expr} (derives : Derives category row nesting e) :
    row.filterMap Token.number? = e.numbers := by
  induction derives with
  | number value => rfl
  | group inner ih =>
    rw [List.filterMap_append, List.filterMap_cons_none rfl, ih]
    exact List.append_nil _
  | primary inner ih => exact ih
  | negation operand ih => exact ih
  | operand precedence single ih => exact ih
  | operation operator first second ihFirst ihSecond =>
    simp [operator.number?_token, Expr.numbers, ihFirst, ihSecond]

theorem numbers_of_ofLexemes {found : List Lexeme} {e : Expr}
    (parsed : Expr.ofLexemes found = .ok e) :
    e.numbers = found.filterMap (·.token.number?) := by
  obtain ⟨nesting, derives, _⟩ := Grammar.derives_of_ofLexemes parsed
  rw [← derives.filterMap_number?, Grammar.tokens, List.filterMap_map]
  rfl

theorem Token.SpelledFrom.slice {source : String} {lexeme : Lexeme}
    (spelled : SpelledFrom source.toList 0 lexeme) :
    ∃ after, Stands lexeme.token (lexeme.span.slice source).toList after := by
  obtain ⟨before, text, after, same, span, stands⟩ := spelled
  have size (part : List Char) : (bytes part).length = (String.ofList part).utf8ByteSize := by
    rw [← length_bytes, String.toList_ofList]
  have cut := String.extract_of_valid before text after
  rw [← same, String.ofList_toList] at cut
  simp only [← String.utf8ByteSize_ofList] at cut
  refine ⟨after, ?_⟩
  rw [Span.slice, span, Nat.zero_add, Nat.zero_add, size, size, String.ofList_append,
    String.utf8ByteSize_append, cut, String.toList_ofList]
  exact stands

/-- What the tree has for a number is what is written for it, rounded. -/
theorem Token.SpelledFrom.number?_eq {source : String} {lexeme : Lexeme}
    (spelled : SpelledFrom source.toList 0 lexeme) :
    lexeme.token.number? = (lexeme.decimal? source).map (Binary64.nearest false) := by
  obtain ⟨after, stands⟩ := spelled.slice
  rw [Lexeme.decimal?]
  cases token : lexeme.token with
  | literal value =>
    rw [token] at stands
    exact congrArg some stands.2.eq_nearest
  | leftParen | rightParen | minus | plus | slash | star => rfl

theorem spelled_of_scan {source : String} {found : List Lexeme}
    (scanned : Token.scan source = .ok found) {lexeme : Lexeme} (member : lexeme ∈ found) :
    Token.SpelledFrom source.toList 0 lexeme :=
  (Token.dividedFrom_of_scans ((Token.scan_eq_ok_iff_scans source found).mp scanned)).spelled
    lexeme member

theorem numbers_of_tree {source : String} {e : Expr} (formed : tree source = .ok e) :
    e.numbers = (decimals source).map (Binary64.nearest false) := by
  obtain ⟨found, scanned, parsed⟩ := (tree_eq_ok_iff source e).mp formed
  rw [numbers_of_ofLexemes parsed, decimals, scanned, List.map_filterMap]
  exact List.filterMap_congr fun lexeme member => (spelled_of_scan scanned member).number?_eq

theorem decimals_nonneg {source : String} {decimal : Rat} (member : decimal ∈ decimals source) :
    0 ≤ decimal := by
  rw [decimals] at member
  split at member
  · obtain ⟨lexeme, _, same⟩ := List.mem_filterMap.mp member
    obtain ⟨_, _, rfl⟩ := Option.map_eq_some_iff.mp same
    exact Numeral.decimalValue_nonneg _
  · cases member

theorem unsigned_of_tree {source : String} {e : Expr} (formed : tree source = .ok e) {x : Binary64}
    (member : x ∈ e.numbers) : x.isFinite = true ∧ x.negative = false := by
  obtain ⟨found, scanned, parsed⟩ := (tree_eq_ok_iff source e).mp formed
  rw [numbers_of_ofLexemes parsed] at member
  obtain ⟨lexeme, among, literal⟩ := List.mem_filterMap.mp member
  have given := ((Token.scan_eq_ok_iff_scans source found).mp scanned).isScanned lexeme.token
    (List.mem_map_of_mem among)
  cases token : lexeme.token with
  | literal value =>
    rw [token] at given literal
    cases literal
    exact given
  | leftParen | rightParen | minus | plus | slash | star =>
    rw [token] at literal
    cases literal

end Calculator
