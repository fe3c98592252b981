import Calculator.Compute
import Calculator.Proofs.Grammar.Positions
import Calculator.Proofs.Token.Fault
import Calculator.Proofs.Token.Resumption

/-!
What stands in a source where it is said to be wrong.

A position is counted in bytes and passed on through two stages, apart from what it is about. The
source can be cut there, and what it goes on with shows what the failure names: a character, a token
that is the first to be scanned from there on, a symbol, or nothing but blanks.

Main statement: what a failure names stands at its position, and it is about scanning exactly if the
source cannot be scanned (`compute_eq_error`).
-/
namespace Calculator

/-- What is found at a position where a source goes on with a rest: a token, which is the first one
from there on, or the end, with nothing but blanks behind it and the last token in front. -/
def FoundAt (source rest : String) (position : Nat) : Option Token → Prop
  | some token => ∃ stop others, Token.scan rest = .ok (⟨token, 0, stop⟩ :: others)
  | none => (∀ c ∈ rest.toList, c ∈ [' ', '\t', '\r', '\n']) ∧
      (position = 0 ∨ ∃ found, Token.scan source = .ok found ∧
        ∃ lexeme ∈ found, lexeme.span.stop = position)

/-- What a failure names is what a source goes on with. -/
def Failure.Names (source rest : String) : Failure → Prop
  | scan error => ∃ more, rest.toList = error.character :: more
  | parse (.missingOperand found position) => FoundAt source rest position found
  | parse (.unexpected found _ position) => FoundAt source rest position found
  | parse (.tooDeep _ _) => ∃ c ∈ ['-', '(', '+', '*', '/'], ∃ more, rest.toList = c :: more

section Places

variable {source : String} {found unread : List Lexeme}

theorem Token.Stands.eq_singleton {token : Token} {text after : List Char}
    (stands : Stands token text after)
    (limited : token ∈ [Token.minus, .leftParen, .plus, .star, .slash]) :
    ∃ c ∈ ['-', '(', '+', '*', '/'], text = [c] := by
  simp only [List.mem_cons, List.not_mem_nil, or_false] at limited
  rcases limited with rfl | rfl | rfl | rfl | rfl
  · exact ⟨'-', by simp, stands⟩
  · exact ⟨'(', by simp, stands⟩
  · exact ⟨'+', by simp, stands⟩
  · exact ⟨'*', by simp, stands⟩
  · exact ⟨'/', by simp, stands⟩

theorem blank_of_scan_nil (scanned : Token.scan source = .ok []) :
    ∀ c ∈ source.toList, c ∈ [' ', '\t', '\r', '\n'] := fun c member =>
  (Token.isBlank_iff_mem c).mp
    (((Token.scan_eq_ok_iff_scans _ _).mp scanned).blank_of_nil c member)

/-- The last lexeme of a source has nothing but blanks behind it. -/
theorem exists_end_of_scan (scanned : Token.scan source = .ok found) :
    ∃ before rest : String, source = before ++ rest ∧
      before.utf8ByteSize = (Cursor.ofLexemes found).stop ∧
      FoundAt source rest (Cursor.ofLexemes found).stop none := by
  rcases List.eq_nil_or_concat' found with rfl | ⟨earlier, last, rfl⟩
  · exact ⟨"", source, by simp, rfl, blank_of_scan_nil scanned, .inl rfl⟩
  · obtain ⟨before, text, after, rfl, _, size, _, _, own, alone, nothing⟩ :=
      Token.exists_cut_of_scan scanned
    obtain rfl := List.map_eq_nil_iff.mp nothing.symm
    have stop : (Cursor.ofLexemes (earlier ++ [last])).stop = last.span.stop := by
      simp [Cursor.ofLexemes]
    rw [stop]
    exact ⟨before ++ text, after, (String.append_assoc ..).symm, size, blank_of_scan_nil alone,
      .inr ⟨_, scanned, last, by simp, rfl⟩⟩

/-- What is left unread of a source begins where it says, with its first token or at the end. -/
theorem exists_foundAt (scanned : Token.scan source = .ok found) (left : unread <:+ found) :
    ∃ before rest : String, source = before ++ rest ∧
      before.utf8ByteSize = Grammar.place unread (Cursor.ofLexemes found).stop ∧
      FoundAt source rest (Grammar.place unread (Cursor.ofLexemes found).stop)
        (Grammar.front unread) := by
  cases unread with
  | nil => exact exists_end_of_scan scanned
  | cons lexeme later =>
    obtain ⟨earlier, rfl⟩ := left
    obtain ⟨before, text, after, rfl, size, _, _, ⟨own, alone, same⟩, _⟩ :=
      Token.exists_cut_of_scan scanned
    obtain ⟨⟨token, start, stop⟩, others, rfl, moved, _⟩ := List.map_eq_cons_iff.mp same.symm
    -- It is moved by its own start from where it is found, so it is found at the beginning.
    obtain rfl : token = lexeme.token := congrArg Lexeme.token moved
    have sameStart : start + lexeme.span.start = lexeme.span.start :=
      congrArg (·.span.start) moved
    obtain rfl := Nat.add_eq_right.mp sameStart
    exact ⟨before, text ++ after, rfl, size, stop, others, alone⟩

/-- A symbol stands where its lexeme starts. -/
theorem exists_symbol {lexeme : Lexeme} (scanned : Token.scan source = .ok found)
    (member : lexeme ∈ found)
    (limited : lexeme.token ∈ [Token.minus, .leftParen, .plus, .star, .slash]) :
    ∃ before rest : String, source = before ++ rest ∧ before.utf8ByteSize = lexeme.span.start ∧
      ∃ c ∈ ['-', '(', '+', '*', '/'], ∃ more, rest.toList = c :: more := by
  obtain ⟨earlier, later, rfl⟩ := List.append_of_mem member
  obtain ⟨before, text, after, rfl, size, _, stands, _⟩ := Token.exists_cut_of_scan scanned
  obtain ⟨c, listed, symbol⟩ := stands.eq_singleton limited
  exact ⟨before, text ++ after, rfl, size, c, listed, after.toList, by simp [symbol]⟩

end Places

theorem exists_place_of_scan_error {source : String} {error : ScanError}
    (failed : Token.scan source = .error error) : ∃ before rest : String, source = before ++ rest ∧
      before.utf8ByteSize = error.position ∧ Failure.Names source rest (.scan error) := by
  obtain ⟨before, after, same, size, _⟩ := Token.exists_of_scan_error failed
  rw [String.append_assoc] at same
  exact ⟨before, _, same, size, after.toList, by simp⟩

theorem exists_place_of_parse_error {source : String} {found : List Lexeme} {error : ParseError}
    (scanned : Token.scan source = .ok found) (failed : Expr.ofLexemes found = .error error) :
    ∃ before rest : String, source = before ++ rest ∧
      before.utf8ByteSize = error.position ∧ Failure.Names source rest (.parse error) := by
  obtain ⟨unread, left, concerns⟩ := Grammar.concerns_of_error failed
  cases error with
  | missingOperand token position | unexpected token expected position =>
    obtain ⟨rfl, rfl⟩ := concerns
    exact exists_foundAt scanned left
  | tooDeep limit position =>
    obtain ⟨lexeme, member, rfl, limited⟩ := concerns
    exact exists_symbol scanned member limited

/-- A source fails in scanning exactly if it cannot be scanned, and every failure names what stands
at its position, which is a boundary between characters of the source or its end. -/
theorem compute_eq_error (source : String) :
    (∀ error, compute source = .error (.scan error) ↔ Token.scan source = .error error) ∧
    ∀ failure, compute source = .error failure → ∃ before rest : String,
      source = before ++ rest ∧ before.utf8ByteSize = failure.position ∧
        failure.position ≤ source.utf8ByteSize ∧ failure.Names source rest := by
  simp only [compute_eq_error_iff, tree_eq_error_iff]
  refine ⟨fun error => by simp [eq_comm], fun failure reason => ?_⟩
  obtain ⟨before, rest, same, size, names⟩ : ∃ before rest : String, source = before ++ rest ∧
      before.utf8ByteSize = failure.position ∧ failure.Names source rest := by
    rcases reason with ⟨error, failed, rfl⟩ | ⟨found, error, scanned, failed, rfl⟩
    · exact exists_place_of_scan_error failed
    · exact exists_place_of_parse_error scanned failed
  refine ⟨before, rest, same, size, ?_, names⟩
  rw [same, String.utf8ByteSize_append, size]
  exact Nat.le_add_right _ _

/-- A parenthesis that closes nothing is not reported in front of a character that begins no token.
In the other source a number stands where a parenthesis is missing, and the rest begins with it. -/
theorem compute_eq_error_unclosed :
    let two : Binary64 := ⟨false, 0x4000000000000000, by decide⟩
    let failure : Failure := .parse (.unexpected (some (.literal two)) (some .rightParen) 3)
    Token.scan ")\t×" = .error ⟨'×', 2⟩ ∧ compute ")\t×" = .error (.scan ⟨'×', 2⟩) ∧
      compute "(1 2 " = .error failure ∧
      ∃ before rest : String, "(1 2 " = before ++ rest ∧ before.utf8ByteSize = 3 ∧
        ∃ stop others, Token.scan rest = .ok (⟨.literal two, 0, stop⟩ :: others) := by
  intro two failure
  have failed : Token.scan ")\t×" = .error ⟨'×', 2⟩ := by decide +kernel
  have computed : compute "(1 2 " = .error failure := by decide +kernel
  obtain ⟨before, rest, same, size, _, names⟩ := (compute_eq_error "(1 2 ").2 failure computed
  exact ⟨failed, ((compute_eq_error ")\t×").1 _).mpr failed, computed, before, rest, same, size,
    names⟩

end Calculator
