import Calculator.Proofs.Token.Division
import Mathlib.Order.Bounds.Basic

/-!
Where a source cannot be scanned, and what stands there.

A source is cut from the left into blanks and tokens for as long as this is possible, every token
being as long as it can be within the whole source. The place where it is not possible any more is a
fault: a character that begins no token, or a numeral whose number would not be finite. Since a
source can be cut in one way only, there is one such place at most.

What stands in front of that place is ASCII, so the scanner's count of characters is one of bytes,
and it is a source that can be scanned by itself, because a token that cannot be prolonged in the
whole source cannot be prolonged in a part of it either.

Main statement: a source fails to scan exactly at its first fault, with the character that stands
there (`scan_eq_error_iff`).
-/
namespace Calculator.Token

open Binary64

/-- A part of a source is cut into blanks and tokens. What stands behind the part decides with it
how long a numeral is. -/
inductive Cut (after : List Char) : List Char → Prop
  | done : Cut after []
  | blank {c : Char} {rest : List Char} (isBlank : isBlank c = true) (others : Cut after rest) :
      Cut after (c :: rest)
  | token {token : Token} {text rest : List Char} (stands : Stands token text (rest ++ after))
      (others : Cut after rest) : Cut after (text ++ rest)

/-- What can stand in front of a text that no blank and no token begins. -/
inductive Fault : List Char → Prop
  | character {c : Char} {rest : List Char}
      (unknown : c ∉ [' ', '\t', '\r', '\n', '(', ')', '-', '+', '/', '*'])
      (notDigit : c.isDigit = false)
      (notPoint : c = '.' → ∀ next ∈ rest.head?, next.isDigit = false) : Fault (c :: rest)
  | overflow {text after : List Char} (longest : Numeral.Longest Numeral.wholePattern text after)
      (large : overflowBound ≤ Numeral.decimalValue text) : Fault (text ++ after)

/-- A source is cut up to a byte offset, and a fault stands there. -/
def FaultAt (source : String) (offset : Nat) : Prop :=
  ∃ before after : String, source = before ++ after ∧ before.utf8ByteSize = offset ∧
    Cut after.toList before.toList ∧ Fault after.toList

/-- A character stands at a byte offset of a source. -/
def CharacterAt (source : String) (offset : Nat) (c : Char) : Prop :=
  ∃ before after : String, source = before ++ String.singleton c ++ after ∧
    before.utf8ByteSize = offset

section Fault

theorem unknown_iff (c : Char) : c ∉ [' ', '\t', '\r', '\n', '(', ')', '-', '+', '/', '*'] ↔
    isBlank c = false ∧ ofSymbol? c = none := by
  constructor
  · intro unknown
    simp only [List.mem_cons, List.not_mem_nil, or_false, not_or] at unknown
    refine ⟨by simp [isBlank, unknown], ?_⟩
    unfold ofSymbol?
    split <;> first | rfl | simp at unknown
  · rintro ⟨blank, symbol⟩ listed
    have all : [' ', '\t', '\r', '\n', '(', ')', '-', '+', '/', '*'].all
        (fun c => isBlank c || (ofSymbol? c).isSome) = true := by decide
    have known := List.all_eq_true.mp all c listed
    simp [blank, symbol] at known

theorem frontFraction_eq_nil_iff (c : Char) (rest : List Char) :
    Numeral.frontFraction (c :: rest) = [] ↔
      (c = '.' → ∀ next ∈ rest.head?, next.isDigit = false) := by
  by_cases point : c = '.'
  · subst point
    cases rest with
    | nil => simp [Numeral.frontFraction]
    | cons next rest => simp [Numeral.frontFraction, List.takeWhile_cons]
  · unfold Numeral.frontFraction
    split
    next same => exact absurd (List.cons.inj same).1 point
    · simp [point]

theorem front?_eq_none_iff (c : Char) (rest : List Char) :
    Numeral.front? (c :: rest) = none ↔
      c.isDigit = false ∧ (c = '.' → ∀ next ∈ rest.head?, next.isDigit = false) := by
  rw [← frontFraction_eq_nil_iff]
  cases digit : c.isDigit with
  | true => simp [Numeral.front?, digit]
  | false => simp [Numeral.front?, digit]

theorem Fault.ne_nil {text : List Char} (fault : Fault text) : text ≠ [] := by
  cases fault with
  | character => exact List.cons_ne_nil _ _
  | overflow longest large =>
    obtain ⟨proper, same⟩ := Numeral.proper_of_matches (by simp [Numeral.patterns]) longest.1
    exact List.append_ne_nil_of_left_ne_nil (same ▸ proper.present) _

/-- Only a numeral that begins with a digit can be too large. -/
theorem fault_of_overflow {text after : List Char} {numeral : Numeral}
    (found : Numeral.front? (text ++ after) = some numeral) (same : numeral.text = text)
    (large : overflowBound ≤ numeral.value) : Fault (text ++ after) := by
  obtain ⟨⟨pattern, listed, longest⟩, rfl⟩ := (Numeral.front?_append_iff _ _ _).mp ⟨found, same⟩
  have digits := Numeral.whole_ne_nil_of_overflow (Numeral.proper_of_front? found) large
  simp only [Numeral.patterns, List.mem_cons, List.not_mem_nil, or_false] at listed
  rcases listed with rfl | rfl
  · exact .overflow longest (Numeral.decimalValue_eq text ▸ large)
  · obtain ⟨numeral, proper, point, rfl⟩ := (Numeral.mem_pointPattern_iff _).mp longest.1
    rw [Numeral.ofText_text proper] at digits
    exact absurd point digits

theorem fault_iff (c : Char) (rest : List Char) :
    Fault (c :: rest) ↔ Piece.front? (c :: rest) = none := by
  constructor
  · intro fault
    generalize source : c :: rest = text at *
    cases fault with
    | character unknown notDigit notPoint =>
      obtain ⟨blank, symbol⟩ := (unknown_iff _).mp unknown
      have nothing := (front?_eq_none_iff _ _).mpr ⟨notDigit, notPoint⟩
      simp [Piece.front?, blank, symbol, nothing]
    | @overflow text after longest large =>
      obtain ⟨found, same⟩ := (Numeral.front?_append_iff _ _ _).mpr
        ⟨⟨Numeral.wholePattern, by simp [Numeral.patterns], longest⟩, rfl⟩
      rw [← source] at found ⊢
      rw [Numeral.decimalValue_eq] at large
      have infinite := (Numeral.isFinite_number_iff _).not.mpr (not_lt_of_ge large)
      rw [front?_of_numeral found, Piece.ofNumeral?, if_neg infinite]
  · intro nothing
    cases front : Numeral.front? (c :: rest) with
    | none =>
      obtain ⟨notDigit, notPoint⟩ := (front?_eq_none_iff c rest).mp front
      refine .character ((unknown_iff c).mpr ?_) notDigit notPoint
      cases blank : isBlank c <;> cases symbol : ofSymbol? c <;>
        simp [Piece.front?, blank, symbol] at nothing ⊢
    | some numeral =>
      rw [front?_of_numeral front, Piece.ofNumeral?] at nothing
      obtain ⟨after, source⟩ := Numeral.text_begins front
      rw [← source] at front ⊢
      apply fault_of_overflow front rfl
      by_contra small
      rw [if_pos ((Numeral.isFinite_number_iff numeral).mpr (not_le.mp small))] at nothing
      cases nothing

end Fault

section Cut

/-- What is not prolonged in a source is not prolonged in a part of it. -/
theorem Stands.shorten {token : Token} {text rest after : List Char}
    (stands : Stands token text (rest ++ after)) : Stands token text rest := by
  cases token with
  | literal value =>
    obtain ⟨⟨pattern, listed, fits, longest⟩, number⟩ := stands
    refine ⟨⟨pattern, listed, fits, fun more begins => ?_⟩, number⟩
    exact longest more (begins.trans (List.prefix_append rest after))
  | leftParen | rightParen | minus | plus | slash | star => exact stands

variable {front after : List Char}

/-- A part of a source that is cut can be scanned by itself, and in the source scanning gets over it
with the same lexemes and goes on behind it. -/
theorem Cut.exists_scans (cut : Cut after front) (offset : Nat) :
    ∃ found, Scans front offset found ∧ scanFrom (front ++ after) offset [] =
      (scanFrom after (offset + front.length) []).map (found ++ ·) := by
  induction cut generalizing offset with
  | done =>
    refine ⟨[], .done offset, ?_⟩
    rw [List.nil_append, List.length_nil, Nat.add_zero]
    cases scanFrom after offset [] <;> rfl
  | @blank c rest isBlank others ih =>
    obtain ⟨found, scans, behind⟩ := ih (offset + 1)
    refine ⟨found, .blank isBlank scans, ?_⟩
    rw [List.cons_append, scanFrom_blank _ _ isBlank, behind, List.length_cons,
      Nat.add_comm rest.length, Nat.add_assoc]
  | @token token text rest stands others ih =>
    obtain ⟨found, scans, behind⟩ := ih (offset + text.length)
    refine ⟨_, .token stands.shorten scans, ?_⟩
    rw [List.append_assoc, scanFrom_token offset stands, behind, List.length_append,
      ← Nat.add_assoc]
    cases scanFrom after (offset + text.length + rest.length) [] <;> rfl

/-- Scanning gets over what can be cut, and fails if it fails behind that. -/
theorem Cut.scanFrom_error (cut : Cut after front) {offset : Nat} {error : ScanError}
    (failed : scanFrom after (offset + front.length) [] = .error error) :
    scanFrom (front ++ after) offset [] = .error error := by
  obtain ⟨found, _, same⟩ := cut.exists_scans offset
  rw [same, failed]
  rfl

/-- A part of a source that is cut is one that can be scanned by itself. -/
theorem Cut.scans (cut : Cut after front) (offset : Nat) : ∃ found, Scans front offset found := by
  obtain ⟨found, scans, _⟩ := cut.exists_scans offset
  exact ⟨found, scans⟩

theorem Cut.length_bytes (cut : Cut after front) : (bytes front).length = front.length := by
  induction cut with
  | done => rfl
  | blank isBlank others ih =>
    rw [bytes_cons, List.length_append, (utf8EncodeChar_of_blank isBlank).1, ih]
    exact Nat.add_comm _ _
  | token stands others ih => rw [bytes_append, List.length_append, stands.length_bytes, ih,
      List.length_append]

/-- Where scanning fails, everything in front is cut and a fault stands. -/
theorem cut_of_error (source : List Char) {offset : Nat} {error : ScanError}
    (failed : scanFrom source offset [] = .error error) :
    ∃ front rest, source = front ++ error.character :: rest ∧
      error.position = offset + front.length ∧ Cut (error.character :: rest) front ∧
      Fault (error.character :: rest) := by
  induction source using pieceInduction generalizing offset with
  | empty =>
    rw [scanFrom] at failed
    cases failed
  | stuck c rest nothing =>
    rw [scanFrom_stuck offset nothing] at failed
    cases failed
    exact ⟨[], rest, rfl, rfl, .done, (fault_iff c rest).mpr nothing⟩
  | blank c rest isBlank ih =>
    rw [scanFrom_blank rest offset isBlank] at failed
    obtain ⟨front, behind, rfl, position, cut, fault⟩ := ih failed
    refine ⟨c :: front, behind, rfl, ?_, .blank isBlank cut, fault⟩
    rw [position, List.length_cons, Nat.add_assoc, Nat.add_comm 1]
  | token token text after stands ih =>
    rw [scanFrom_token offset stands] at failed
    cases others : scanFrom after (offset + text.length) [] with
    | ok found =>
      rw [others] at failed
      cases failed
    | error other =>
      rw [others] at failed
      cases failed
      obtain ⟨front, behind, rfl, position, cut, fault⟩ := ih others
      refine ⟨text ++ front, behind, by simp, ?_, .token stands cut, fault⟩
      rw [position, List.length_append, Nat.add_assoc]

end Cut

theorem utf8ByteSize_eq_length {before : String} {after : List Char}
    (cut : Cut after before.toList) : before.utf8ByteSize = before.toList.length := by
  rw [← length_bytes, cut.length_bytes]

theorem scan_of_faultAt {source : String} {offset : Nat} (faultAt : FaultAt source offset) :
    ∃ c, scan source = .error ⟨c, offset⟩ := by
  obtain ⟨before, after, rfl, rfl, cut, fault⟩ := faultAt
  obtain ⟨c, rest, text⟩ := List.exists_cons_of_ne_nil fault.ne_nil
  rw [text] at cut fault
  have failed := scanFrom_stuck (0 + before.toList.length) ((fault_iff c rest).mp fault)
  refine ⟨c, ?_⟩
  rw [scan, String.toList_append, text, cut.scanFrom_error failed, utf8ByteSize_eq_length cut,
    Nat.zero_add]

/-- Where a source fails to scan is a boundary of its characters, with the reported character behind
it, and a fault stands there. What is in front can be scanned by itself. -/
theorem exists_of_scan_error {source : String} {error : ScanError}
    (failed : scan source = .error error) :
    ∃ before after : String, source = before ++ String.singleton error.character ++ after ∧
      before.utf8ByteSize = error.position ∧ FaultAt source error.position ∧
      ∃ found, scan before = .ok found := by
  obtain ⟨front, rest, text, position, cut, fault⟩ := cut_of_error source.toList failed
  have size : (String.ofList front).utf8ByteSize = error.position := by
    rw [← length_bytes, String.toList_ofList, cut.length_bytes, position, Nat.zero_add]
  obtain ⟨found, scans⟩ := cut.scans 0
  refine ⟨.ofList front, .ofList rest, ?_, size,
    ⟨.ofList front, .ofList (error.character :: rest), ?_, size, ?_⟩, found, ?_⟩
  · simp [← String.toList_inj, text]
  · simp [← String.toList_inj, text]
  · simpa using And.intro cut fault
  · rwa [scan_eq_ok_iff_scans, String.toList_ofList]

theorem CharacterAt.unique {source : String} {offset : Nat} {c other : Char}
    (first : CharacterAt source offset c) (second : CharacterAt source offset other) :
    c = other := by
  obtain ⟨before, after, rfl, rfl⟩ := first
  obtain ⟨front, behind, same, size⟩ := second
  have same := congrArg String.toList same
  simp only [String.toList_append, String.toList_singleton, List.append_assoc] at same
  -- Both parts in front begin the source and have as many bytes, so they are the same.
  have begins : before.toList <+: front.toList ++ ([other] ++ behind.toList) := ⟨_, same⟩
  have within := begins_of_length_bytes_le begins (List.prefix_append _ _)
    (by rw [length_bytes, length_bytes, size])
  have around := begins_of_length_bytes_le (List.prefix_append _ _) begins
    (by rw [length_bytes, length_bytes, size])
  rw [within.eq_of_length_le around.length_le] at same
  exact (List.cons.inj (List.append_cancel_left same)).1

/-- A source fails to scan exactly at its first fault, with the character that stands there. That
place is a boundary of the source's characters, and what is in front of it can be scanned. -/
theorem scan_eq_error_iff (source : String) (c : Char) (offset : Nat) :
    (scan source = .error ⟨c, offset⟩ ↔
      IsLeast {place | FaultAt source place} offset ∧ CharacterAt source offset c) ∧
    (scan source = .error ⟨c, offset⟩ →
      ∃ before after : String, source = before ++ String.singleton c ++ after ∧
        before.utf8ByteSize = offset ∧ ∃ found, scan before = .ok found) := by
  constructor
  · constructor
    · intro failed
      obtain ⟨before, after, same, size, faultAt, _⟩ := exists_of_scan_error failed
      refine ⟨⟨faultAt, fun place other => ?_⟩, before, after, same, size⟩
      -- Another place where a fault stands would be where scanning fails, so it is the same.
      obtain ⟨_, failedThere⟩ := scan_of_faultAt other
      rw [failed] at failedThere
      cases failedThere
      exact Nat.le_refl _
    · rintro ⟨⟨faultAt, _⟩, stands⟩
      obtain ⟨reported, failed⟩ := scan_of_faultAt faultAt
      obtain ⟨before, after, same, size, _⟩ := exists_of_scan_error failed
      rw [stands.unique ⟨before, after, same, size⟩]
      exact failed
  · intro failed
    obtain ⟨before, after, same, size, _, scanned⟩ := exists_of_scan_error failed
    exact ⟨before, after, same, size, scanned⟩

/-- A sum ends in a numeral that is too large, and its first digit is reported. -/
theorem scan_eq_error_iff_overflow :
    let source := "1 + " ++ String.ofList (List.replicate 400 '9')
    scan source = .error ⟨'9', 4⟩ ∧ IsLeast {place | FaultAt source place} 4 ∧
      CharacterAt source 4 '9' ∧ ∃ before after : String,
        source = before ++ "9" ++ after ∧ before.utf8ByteSize = 4 ∧
          ∃ found, scan before = .ok found := by
  intro source
  have written : source.toList = "1 + ".toList ++ List.replicate 400 '9' :=
    (String.toList_append).trans (congrArg _ String.toList_ofList)
  have failed : scan source = .error ⟨'9', 4⟩ := by
    rw [scan, written]
    decide +kernel
  obtain ⟨least, stands⟩ := (scan_eq_error_iff source '9' 4).1.mp failed
  exact ⟨failed, least, stands, (scan_eq_error_iff source '9' 4).2 failed⟩

end Calculator.Token
