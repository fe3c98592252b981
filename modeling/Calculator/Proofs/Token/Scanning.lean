import Calculator.Proofs.Numeral.Value
import Calculator.Token.Scan

/-!
Scanning as a relation: a source that is cut, from left to right, into blanks and tokens.

A token stands at the front of a text when what it is written as begins the text. For a number that
is the longest match of a numeral's pattern there, and the number is the one nearest to its exact
value. No two pieces can stand at the front of the same text, so a source can be cut in one way at
most.

Main statement: a source is scanned to exactly the lexemes that it can be cut into
(`scan_eq_ok_iff_scans`).
-/
namespace Calculator.Token

/-- A token is written as this text, which stands in front of another. -/
def Stands : Token → List Char → List Char → Prop
  | literal value, text, after =>
    (∃ pattern ∈ Numeral.patterns, Numeral.Longest pattern text after) ∧
      Numeral.IsNumberOf text value
  | symbol, text, _ => text = symbol.text.toList

/-- The ways to cut a source into blanks and lexemes, from a byte offset on. -/
inductive Scans : List Char → Nat → List Lexeme → Prop
  | done (offset : Nat) : Scans [] offset []
  | blank {c : Char} {rest : List Char} {offset : Nat} {found : List Lexeme}
      (isBlank : isBlank c = true) (others : Scans rest (offset + 1) found) :
      Scans (c :: rest) offset found
  | token {token : Token} {text after : List Char} {offset : Nat} {found : List Lexeme}
      (stands : Stands token text after) (others : Scans after (offset + text.length) found) :
      Scans (text ++ after) offset (⟨token, offset, offset + text.length⟩ :: found)

theorem isBlank_iff_mem (c : Char) : isBlank c = true ↔ c ∈ [' ', '\t', '\r', '\n'] := by
  simp [isBlank, or_assoc]

theorem ofSymbol?_eq_some {c : Char} {token : Token} (known : ofSymbol? c = some token) :
    token.text.toList = [c] ∧ ∀ value, token ≠ literal value := by
  unfold ofSymbol? at known
  split at known <;> cases known <;> exact ⟨by decide, nofun⟩

theorem head_of_numeral {c : Char} {rest : List Char} {numeral : Numeral}
    (found : Numeral.front? (c :: rest) = some numeral) :
    isBlank c = false ∧ ofSymbol? c = none := by
  have proper := Numeral.proper_of_front? found
  have begins : c ∈ numeral.text := by
    obtain ⟨after, same⟩ := Numeral.text_begins found
    obtain ⟨first, others, text⟩ := List.exists_cons_of_ne_nil proper.present
    rw [text] at same ⊢
    simp only [List.cons_append, List.cons.injEq] at same
    simp [same.1]
  -- A numeral begins with a digit or the point, and these are neither blanks nor symbols.
  have all : ('.' :: Numeral.digitChars).all
      (fun c => !isBlank c && (ofSymbol? c).isNone) = true := by decide
  simpa using List.all_eq_true.mp all c (Numeral.mem_of_mem_text proper begins)

theorem front?_of_blank {c : Char} (rest : List Char) (blank : isBlank c = true) :
    Piece.front? (c :: rest) = some ⟨none, 1⟩ := by
  simp [Piece.front?, blank]

theorem front?_of_numeral {c : Char} {rest : List Char} {numeral : Numeral}
    (found : Numeral.front? (c :: rest) = some numeral) :
    Piece.front? (c :: rest) = Piece.ofNumeral? numeral := by
  obtain ⟨blank, symbol⟩ := head_of_numeral found
  unfold Piece.front?
  split
  · contradiction
  next first others same =>
    cases same
    rw [if_neg (by simp [blank])]
    split
    next known => simp [symbol] at known
    · rw [found, Option.bind_some]

theorem front?_of_stands {token : Token} {text after : List Char}
    (stands : Stands token text after) :
    Piece.front? (text ++ after) = some ⟨some token, text.length⟩ := by
  cases token with
  | literal value =>
    obtain ⟨longest, number⟩ := stands
    obtain ⟨rfl, finite⟩ := Numeral.isNumberOf_iff.mp number
    obtain ⟨found, same⟩ := (Numeral.front?_append_iff _ _ _).mpr ⟨longest, rfl⟩
    obtain ⟨c, rest, source⟩ : ∃ c rest, text ++ after = c :: rest := by
      have present := Numeral.text_ne_nil found
      rw [same] at present
      exact List.exists_cons_of_ne_nil (List.append_ne_nil_of_left_ne_nil present after)
    rw [source] at found ⊢
    rw [front?_of_numeral found, Piece.ofNumeral?, if_pos finite, same]
  | leftParen | rightParen | minus | plus | slash | star =>
    obtain rfl := stands
    rfl

/-- What is at the front of a source is a blank or a token that stands there. -/
theorem front?_cases {source : List Char} {piece : Piece}
    (found : Piece.front? source = some piece) :
    (∃ c rest, source = c :: rest ∧ isBlank c = true) ∨
      ∃ token text after, source = text ++ after ∧ Stands token text after := by
  unfold Piece.front? at found
  split at found
  · cases found
  next c rest =>
    split at found
    next blank => exact Or.inl ⟨c, rest, rfl, blank⟩
    · right
      split at found
      next symbol known =>
        obtain ⟨text, notLiteral⟩ := ofSymbol?_eq_some known
        refine ⟨symbol, [c], rest, rfl, ?_⟩
        cases symbol with
        | literal value => exact absurd rfl (notLiteral value)
        | leftParen | rightParen | minus | plus | slash | star => exact text.symm
      · -- Neither a blank nor a symbol, so a numeral, and its number is finite.
        obtain ⟨numeral, front, made⟩ := Option.bind_eq_some_iff.mp found
        unfold Piece.ofNumeral? at made
        split at made
        next finite =>
          obtain ⟨after, same⟩ := Numeral.text_begins front
          have longest := (Numeral.front?_append_iff numeral.text after numeral).mp
            ⟨same ▸ front, rfl⟩
          exact ⟨literal numeral.number, numeral.text, after, same.symm, longest.1,
            Numeral.isNumberOf_iff.mpr ⟨congrArg Numeral.number longest.2, finite⟩⟩
        · cases made

theorem Stands.text_ne_nil {token : Token} {text after : List Char}
    (stands : Stands token text after) : text ≠ [] :=
  List.length_pos_iff.mp (Piece.length_pos (front?_of_stands stands))

/-- The characters that tokens are written with. -/
def tokenChars : List Char := ['(', ')', '-', '+', '/', '*', '.'] ++ Numeral.digitChars

theorem Stands.mem_tokenChars {token : Token} {text after : List Char}
    (stands : Stands token text after) {c : Char} (member : c ∈ text) : c ∈ tokenChars := by
  cases token with
  | literal value =>
    obtain ⟨⟨pattern, listed, fits, _⟩, _⟩ := stands
    obtain ⟨proper, same⟩ := Numeral.proper_of_matches listed fits
    have inNumeral := Numeral.mem_of_mem_text proper (same.symm ▸ member)
    exact List.mem_append_right ['(', ')', '-', '+', '/', '*'] inNumeral
  | leftParen | rightParen | minus | plus | slash | star =>
    obtain rfl := stands
    obtain rfl := List.mem_singleton.mp member
    decide

theorem Scans.mem_source {source : List Char} {offset : Nat} {found : List Lexeme}
    (scans : Scans source offset found) {c : Char} (member : c ∈ source) :
    isBlank c = true ∨ c ∈ tokenChars := by
  induction scans with
  | done => cases member
  | blank blank others ih =>
    rcases List.mem_cons.mp member with rfl | behind
    · exact Or.inl blank
    · exact ih behind
  | token stands others ih =>
    rcases List.mem_append.mp member with inside | behind
    · exact Or.inr (stands.mem_tokenChars inside)
    · exact ih behind

theorem scanFrom_blank {c : Char} (rest : List Char) (offset : Nat) (blank : isBlank c = true) :
    scanFrom (c :: rest) offset [] = scanFrom rest (offset + 1) [] := by
  rw [scanFrom, front?_of_blank rest blank]
  rfl

theorem scanFrom_token {token : Token} {text after : List Char} (offset : Nat)
    (stands : Stands token text after) :
    scanFrom (text ++ after) offset [] = (scanFrom after (offset + text.length) []).map
      (⟨token, offset, offset + text.length⟩ :: ·) := by
  have front := front?_of_stands stands
  obtain ⟨c, others, rfl⟩ := List.exists_cons_of_ne_nil stands.text_ne_nil
  have rest : (others ++ after).drop ((c :: others).length - 1) = after := by simp
  rw [List.cons_append] at front ⊢
  rw [scanFrom, front]
  simp only [rest]
  exact scanFrom_append after _ [] [_]

/-- A source is empty, or nothing can stand at its front, or a blank or a token does, and what is
behind that is shorter. -/
@[elab_as_elim]
theorem pieceInduction {motive : List Char → Prop} (source : List Char) (empty : motive [])
    (stuck : ∀ c rest, Piece.front? (c :: rest) = none → motive (c :: rest))
    (blank : ∀ c rest, isBlank c = true → motive rest → motive (c :: rest))
    (token : ∀ token text after, Stands token text after → motive after → motive (text ++ after)) :
    motive source := by
  -- A token takes several characters at once, so the induction is on how many are left.
  induction length : source.length using Nat.strong_induction_on generalizing source with
  | _ bound ih =>
    cases source with
    | nil => exact empty
    | cons c rest =>
      cases front : Piece.front? (c :: rest) with
      | none => exact stuck c rest front
      | some piece =>
        rcases front?_cases front with ⟨_, _, same, isBlank⟩ | ⟨found, text, after, same, stands⟩
        · cases same
          exact blank c rest isBlank (ih rest.length (length ▸ Nat.lt_succ_self _) rest rfl)
        · have shorter : after.length < (c :: rest).length := by
            have present := List.length_pos_iff.mpr stands.text_ne_nil
            rw [same, List.length_append]
            omega
          rw [same]
          exact token found text after stands (ih after.length (length ▸ shorter) after rfl)

theorem scanFrom_stuck {c : Char} {rest : List Char} (offset : Nat)
    (stuck : Piece.front? (c :: rest) = none) :
    scanFrom (c :: rest) offset [] = .error ⟨c, offset⟩ := by
  rw [scanFrom, stuck]

theorem scanFrom_eq_ok_iff (source : List Char) (offset : Nat) (found : List Lexeme) :
    scanFrom source offset [] = .ok found ↔ Scans source offset found := by
  constructor
  · intro returned
    induction source using pieceInduction generalizing offset found with
    | empty =>
      rw [scanFrom] at returned
      cases returned
      exact .done offset
    | stuck c rest nothing =>
      rw [scanFrom_stuck offset nothing] at returned
      cases returned
    | blank c rest isBlank ih =>
      rw [scanFrom_blank rest offset isBlank] at returned
      exact .blank isBlank (ih _ found returned)
    | token token text after stands ih =>
      rw [scanFrom_token offset stands] at returned
      cases others : scanFrom after (offset + text.length) [] with
      | error error =>
        rw [others] at returned
        cases returned
      | ok tail =>
        rw [others] at returned
        cases returned
        exact .token stands (ih _ tail others)
  · intro scans
    induction scans with
    | done offset => rw [scanFrom]; rfl
    | blank isBlank others ih => rw [scanFrom_blank _ _ isBlank, ih]
    | token stands others ih =>
      rw [scanFrom_token _ stands, ih]
      rfl

theorem scan_eq_ok_iff_scans (source : String) (found : List Lexeme) :
    scan source = .ok found ↔ Scans source.toList 0 found :=
  scanFrom_eq_ok_iff source.toList 0 found

end Calculator.Token
