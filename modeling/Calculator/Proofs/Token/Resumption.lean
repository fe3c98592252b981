import Calculator.Proofs.Token.Division

/-!
Scanning that begins in the middle of a source.

Scanning looks only at what is in front of it, so from the start of a token on it finds that token
and all later ones, and where the source begins makes a difference to the places alone. A source is
therefore cut in front of any of its lexemes, or behind the last of them, with nothing changed on
either side.

Main statements: a source that begins further on has all its places moved and nothing else changed
(`scanFrom_add`), and from the start of a lexeme on a source is scanned to that lexeme and the later
ones, and behind it to the later ones (`exists_cut_of_scan`).
-/
namespace Calculator

/-- The same lexeme this many bytes further on. -/
def Lexeme.shift (distance : Nat) (lexeme : Lexeme) : Lexeme :=
  ⟨lexeme.token, lexeme.span.start + distance, lexeme.span.stop + distance⟩

namespace Token

/-- The outcome of scanning with every place this many bytes further on. -/
def shiftOutcome (distance : Nat) :
    Except ScanError (List Lexeme) → Except ScanError (List Lexeme)
  | .ok found => .ok (found.map (Lexeme.shift distance))
  | .error error => .error ⟨error.character, error.position + distance⟩

theorem scanFrom_add (source : List Char) (offset distance : Nat) :
    scanFrom source (offset + distance) [] = shiftOutcome distance (scanFrom source offset []) := by
  induction source using pieceInduction generalizing offset with
  | empty =>
    rw [scanFrom, scanFrom]
    rfl
  | stuck c rest nothing =>
    rw [scanFrom_stuck _ nothing, scanFrom_stuck _ nothing]
    rfl
  | blank c rest isBlank ih =>
    rw [scanFrom_blank rest _ isBlank, scanFrom_blank rest _ isBlank, ← ih, Nat.add_right_comm]
  | token token text after stands ih =>
    have moved := ih (offset + text.length)
    rw [Nat.add_right_comm] at moved
    rw [scanFrom_token _ stands, scanFrom_token _ stands, moved]
    cases scanFrom after (offset + text.length) [] with
    | error error => rfl
    | ok found =>
      rw [Nat.add_right_comm]
      rfl

theorem Scans.blank_of_nil {source : List Char} {offset : Nat} (scans : Scans source offset []) :
    ∀ c ∈ source, isBlank c = true := by
  generalize none : [] = found at scans
  induction scans with
  | done => exact nofun
  | blank isBlank others ih => exact List.forall_mem_cons.mpr ⟨isBlank, ih none⟩
  | token => cases none

/-- A lexeme stands where its span says, and the later lexemes are found behind it. -/
theorem Scans.exists_of_append {source : List Char} {offset : Nat} {earlier later : List Lexeme}
    {lexeme : Lexeme} (scans : Scans source offset (earlier ++ lexeme :: later)) :
    ∃ before text after, source = before ++ (text ++ after) ∧
      lexeme.span.start = offset + (bytes before).length ∧
      lexeme.span.stop = lexeme.span.start + (bytes text).length ∧
      Stands lexeme.token text after ∧ Scans after lexeme.span.stop later := by
  generalize all : earlier ++ lexeme :: later = found at scans
  induction scans generalizing earlier with
  | done => simp at all
  | @blank c rest offset found isBlank others ih =>
    obtain ⟨before, text, after, rfl, start, behind⟩ := ih all
    refine ⟨c :: before, text, after, rfl, ?_, behind⟩
    rw [start, bytes_cons, (utf8EncodeChar_of_blank isBlank).1, List.length_append,
      List.length_singleton, Nat.add_assoc]
  | @token token text after offset found stands others ih =>
    cases earlier with
    | nil =>
      obtain ⟨rfl, rfl⟩ := List.cons.inj all
      exact ⟨[], text, after, rfl, rfl, by rw [stands.length_bytes], stands, others⟩
    | cons first earlier =>
      obtain ⟨before, inner, after, rfl, start, behind⟩ := ih (List.cons.inj all).2
      refine ⟨text ++ before, inner, after, by simp, ?_, behind⟩
      rw [start, bytes_append, List.length_append, stands.length_bytes, Nat.add_assoc]

/-- What is scanned from a place on is what is scanned by itself, that many bytes further on. -/
theorem Scans.exists_scan {source : List Char} {offset : Nat} {found : List Lexeme}
    (scans : Scans source offset found) :
    ∃ own, scan (String.ofList source) = .ok own ∧ found = own.map (Lexeme.shift offset) := by
  have returned := (scanFrom_eq_ok_iff source offset found).mpr scans
  rw [← Nat.zero_add offset, scanFrom_add] at returned
  rw [scan, String.toList_ofList]
  cases alone : scanFrom source 0 [] with
  | error error =>
    rw [alone] at returned
    cases returned
  | ok own =>
    rw [alone] at returned
    exact ⟨own, rfl, (Except.ok.inj returned).symm⟩

/-- A source is cut in front of a lexeme and behind it: what follows either place is scanned by
itself to the lexemes from there on. -/
theorem exists_cut_of_scan {source : String} {earlier later : List Lexeme} {lexeme : Lexeme}
    (scanned : scan source = .ok (earlier ++ lexeme :: later)) :
    ∃ before text after : String, source = before ++ (text ++ after) ∧
      before.utf8ByteSize = lexeme.span.start ∧ (before ++ text).utf8ByteSize = lexeme.span.stop ∧
      Stands lexeme.token text.toList after.toList ∧
      (∃ own, scan (text ++ after) = .ok own ∧
        lexeme :: later = own.map (Lexeme.shift lexeme.span.start)) ∧
      ∃ own, scan after = .ok own ∧ later = own.map (Lexeme.shift lexeme.span.stop) := by
  obtain ⟨before, text, after, same, start, stop, stands, others⟩ :=
    ((scan_eq_ok_iff_scans _ _).mp scanned).exists_of_append
  have fromStart : Scans (text ++ after) lexeme.span.start (lexeme :: later) := by
    obtain ⟨token, first, _⟩ := lexeme
    obtain rfl : _ = first + (bytes text).length := stop
    rw [stands.length_bytes] at others ⊢
    exact .token stands others
  have size (part : List Char) : (String.ofList part).utf8ByteSize = (bytes part).length := by
    rw [← length_bytes, String.toList_ofList]
  refine ⟨.ofList before, .ofList text, .ofList after, ?_, ?_, ?_, by simpa using stands, ?_,
    others.exists_scan⟩
  · rw [← String.ofList_append, ← String.ofList_append, ← same, String.ofList_toList]
  · rw [size, start, Nat.zero_add]
  · rw [String.utf8ByteSize_append, size, size, stop, start, Nat.zero_add]
  · rw [← String.ofList_append]
    exact fromStart.exists_scan

end Token
end Calculator
