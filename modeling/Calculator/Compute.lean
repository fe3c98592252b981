import Calculator.Expr.Text
import Calculator.Expr.Value
import Calculator.Grammar.Rules
import Calculator.Token.Scan

/-!
The whole way from a source to a result: lexemes, a tree, a value, a text.

The source is scanned to its end before any of it is parsed, so of two errors the one in scanning
is reported.

Main statements: a source has a tree exactly if it can be scanned and its lexemes form that tree
(`tree_eq_ok_iff`), and it fails as the first of these stages that fails (`tree_eq_error_iff`).
-/
namespace Calculator

def lexemes (source : String) : Except Failure (List Lexeme) :=
  (Token.scan source).mapError .scan

def treeOf (lexemes : List Lexeme) : Except Failure Expr :=
  (Expr.ofLexemes lexemes).mapError .parse

def tree (source : String) : Except Failure Expr :=
  match lexemes source with
  | .ok found => treeOf found
  | .error failure => .error failure

def evaluate (source : String) : Except Failure Binary64 := (tree source).map Expr.value

/-- The text of a source's value. -/
def compute (source : String) : Except Failure String := (evaluate source).map Binary64.text

theorem lexemes_of_scan {source : String} {found : List Lexeme}
    (scanned : Token.scan source = .ok found) : lexemes source = .ok found := by
  rw [lexemes, scanned]
  rfl

theorem lexemes_of_scan_error {source : String} {error : ScanError}
    (scanned : Token.scan source = .error error) : lexemes source = .error (.scan error) := by
  rw [lexemes, scanned]
  rfl

theorem treeOf_of_parsed {found : List Lexeme} {e : Expr}
    (parsed : Expr.ofLexemes found = .ok e) : treeOf found = .ok e := by
  rw [treeOf, parsed]
  rfl

theorem treeOf_of_parse_error {found : List Lexeme} {error : ParseError}
    (parsed : Expr.ofLexemes found = .error error) : treeOf found = .error (.parse error) := by
  rw [treeOf, parsed]
  rfl

theorem tree_eq_ok_iff (source : String) (e : Expr) : tree source = .ok e ↔
    ∃ found, Token.scan source = .ok found ∧ Expr.ofLexemes found = .ok e := by
  rw [tree]
  cases scanned : Token.scan source with
  | error error => simp [lexemes_of_scan_error scanned]
  | ok found =>
    cases parsed : Expr.ofLexemes found with
    | error error => simp [lexemes_of_scan scanned, treeOf_of_parse_error parsed, parsed]
    | ok other => simp [lexemes_of_scan scanned, treeOf_of_parsed parsed, parsed]

theorem tree_eq_error_iff (source : String) (failure : Failure) : tree source = .error failure ↔
    (∃ error, Token.scan source = .error error ∧ failure = .scan error) ∨
      ∃ found error, Token.scan source = .ok found ∧ Expr.ofLexemes found = .error error ∧
        failure = .parse error := by
  rw [tree]
  cases scanned : Token.scan source with
  | error error => simp [lexemes_of_scan_error scanned, eq_comm]
  | ok found =>
    cases parsed : Expr.ofLexemes found with
    | error error =>
      simp [lexemes_of_scan scanned, treeOf_of_parse_error parsed, parsed, eq_comm]
    | ok e => simp [lexemes_of_scan scanned, treeOf_of_parsed parsed, parsed]

theorem compute_eq_error_iff (source : String) (failure : Failure) :
    compute source = .error failure ↔ tree source = .error failure := by
  rw [compute, evaluate]
  cases tree source <;> simp [Except.map]

theorem evaluate_of_tree {source : String} {e : Expr} (formed : tree source = .ok e) :
    evaluate source = .ok e.value := by
  rw [evaluate, formed]
  rfl

theorem text_of_evaluated {source : String} {x : Binary64} (evaluated : evaluate source = .ok x) :
    compute source = .ok x.text := by
  rw [compute, evaluated]
  rfl

theorem compute_of_tree {source : String} {e : Expr} (formed : tree source = .ok e) :
    compute source = .ok e.value.text := text_of_evaluated (evaluate_of_tree formed)

theorem exists_tree_of_compute {source result : String} (computed : compute source = .ok result) :
    ∃ e, tree source = .ok e ∧ e.value.text = result := by
  cases formed : tree source with
  | error failure =>
    rw [(compute_eq_error_iff source failure).mpr formed] at computed
    cases computed
  | ok e => exact ⟨e, rfl, Except.ok.inj ((compute_of_tree formed).symm.trans computed)⟩

theorem exists_text_of_compute {source result : String} (computed : compute source = .ok result) :
    ∃ x, evaluate source = .ok x ∧ x.text = result := by
  obtain ⟨e, formed, same⟩ := exists_tree_of_compute computed
  exact ⟨e.value, evaluate_of_tree formed, same⟩

end Calculator
