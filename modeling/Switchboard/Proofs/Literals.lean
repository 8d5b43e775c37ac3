import Switchboard.Json.Reader
import Switchboard.Json.Value
import Mathlib.Data.List.Basic

/-!
# Quoted texts are read back

A text is written between quotes, with the escapes that the grammar demands, and
in UTF-8. The reader gives a literal that keeps those escapes apart: one code
unit for each escaped character, the octets of every other. Whoever asks that
literal for its text gets the text that was written, whatever characters it
holds.
-/

namespace Switchboard.Json

def utf8 (cs : List Char) : Octets := cs.flatMap String.utf8EncodeChar

@[simp] theorem utf8_nil : utf8 [] = [] := rfl

@[simp] theorem utf8_cons (c : Char) (cs : List Char) :
    utf8 (c :: cs) = String.utf8EncodeChar c ++ utf8 cs := rfl

@[simp] theorem utf8_append (cs ds : List Char) : utf8 (cs ++ ds) = utf8 cs ++ utf8 ds :=
  List.flatMap_append

theorem toUTF8_ofList (cs : List Char) : (String.ofList cs).toUTF8.data.toList = utf8 cs := by
  simp [String.toUTF8, String.toByteArray_ofList, List.utf8Encode, utf8]

/-- Octets of characters are the text of those characters. -/
theorem fromUTF8?_utf8 (s : String) : String.fromUTF8? ⟨(utf8 s.toList).toArray⟩ = some s := by
  have whole : (⟨(utf8 s.toList).toArray⟩ : ByteArray) = s.toByteArray := by
    rw [← toUTF8_ofList, String.ofList_toList]
    rfl
  rw [whole]
  exact dif_pos s.isValidUTF8

theorem utf8EncodeChar_ascii {c : Char} (h : c.toNat < 0x80) :
    String.utf8EncodeChar c = [UInt8.ofNat c.toNat] :=
  if_pos (Nat.le_of_lt_succ h)

theorem le_of_mem_utf8EncodeChar {c : Char} (h : 0x80 ≤ c.toNat) :
    ∀ b ∈ String.utf8EncodeChar c, 0x80 ≤ b.toNat := by
  have large : ¬ c.val.toNat ≤ 127 := Nat.not_le.mpr h
  intro b hb
  unfold String.utf8EncodeChar at hb
  simp only [large, if_false] at hb
  split_ifs at hb <;> simp only [List.mem_cons, List.not_mem_nil, or_false] at hb <;>
    rcases hb with rfl | rfl | rfl | rfl <;> simp only [UInt8.toNat_ofNat'] <;> omega

/-! ## Literals of texts -/

/-- The character stands inside quotes only behind an escape. -/
def isEscaped (c : Char) : Bool := c = '"' || c = '\\' || c.toNat < 0x20

/-- What the spelling of one character inside quotes is read as. -/
def pieces (c : Char) : Literal :=
  if isEscaped c then [.unit (UInt16.ofNat c.toNat)] else .ofText (.singleton c)

/-- What a quoted text is read as. -/
def Literal.quoted (s : String) : Literal := s.toList.flatMap pieces

@[simp] theorem ofText_singleton (c : Char) :
    Literal.ofText (.singleton c) = (String.utf8EncodeChar c).map .octet := by
  rw [Literal.ofText, String.singleton_eq_ofList, toUTF8_ofList, utf8_cons, utf8_nil,
    List.append_nil]

theorem lt_of_isEscaped {c : Char} (h : isEscaped c = true) : c.toNat < 0x80 := by
  simp only [isEscaped, Bool.or_eq_true, decide_eq_true_eq] at h
  rcases h with (rfl | rfl) | h
  · decide
  · decide
  · omega

theorem readLiteral_octet {b : UInt8} (quote : b ≠ 0x22) (slash : b ≠ 0x5C) (rest : Octets) :
    readLiteral (b :: rest) =
      (readLiteral rest).map fun (l, left) => (.octet b :: l, left) := by
  have plain : (b == 0x5C) = false := by simpa using slash
  rw [readLiteral.eq_def]
  split <;> rename_i same <;> cases same <;> try contradiction
  cases readLiteral rest <;> simp [plain]

theorem readLiteral_octets {bs : Octets} (h : ∀ b ∈ bs, b ≠ 0x22 ∧ b ≠ 0x5C) (rest : Octets) :
    readLiteral (bs ++ rest) =
      (readLiteral rest).map fun (l, left) => (bs.map .octet ++ l, left) := by
  induction bs with
  | nil => simp
  | cons b bs ih =>
    obtain ⟨here, more⟩ := List.forall_mem_cons.mp h
    simp only [List.cons_append, readLiteral_octet here.1 here.2, ih more, Option.map_map]
    rfl

/-- The octets are an escape for the code unit: a letter or four digits behind a backslash. -/
def isEscapeOf (u : UInt16) : Octets → Bool
  | [slash, b] => slash == 0x5C && escape? b == some u
  | [slash, mark, a, b, c, d] => slash == 0x5C && mark == 0x75 && codeUnit? a b c d == some u
  | _ => false

/-- Four digits behind a backslash and a letter stand for their code unit. -/
theorem readLiteral_codeUnit {a b c d : UInt8} {u : UInt16} (h : codeUnit? a b c d = some u)
    (rest : Octets) :
    readLiteral (0x5C :: 0x75 :: a :: b :: c :: d :: rest) =
      (readLiteral rest).map fun (l, left) => (.unit u :: l, left) := by
  rw [readLiteral, h]
  cases readLiteral rest <;> rfl

theorem readLiteral_letter {b : UInt8} {u : UInt16} (h : escape? b = some u) (rest : Octets) :
    readLiteral (0x5C :: b :: rest) =
      (readLiteral rest).map fun (l, left) => (.unit u :: l, left) := by
  have short : b ≠ 0x75 := by
    rintro rfl
    cases h
  rw [readLiteral.eq_def]
  split <;> rename_i same <;> cases same <;> try contradiction
  · rw [h]
    cases readLiteral rest <;> rfl
  · rename_i apart
    exact (apart b rest rfl rfl).elim

theorem readLiteral_escape {u : UInt16} {bs : Octets} (h : isEscapeOf u bs = true)
    (rest : Octets) :
    readLiteral (bs ++ rest) =
      (readLiteral rest).map fun (l, left) => (.unit u :: l, left) := by
  unfold isEscapeOf at h
  split at h
  · simp only [Bool.and_eq_true, beq_iff_eq] at h
    obtain ⟨rfl, letter⟩ := h
    exact readLiteral_letter letter rest
  · simp only [Bool.and_eq_true, beq_iff_eq] at h
    obtain ⟨⟨rfl, rfl⟩, digits⟩ := h
    exact readLiteral_codeUnit digits rest
  · cases h

/-- What must be escaped is spelled as an escape for itself. -/
theorem isEscapeOf_escapeChar {c : Char} (h : isEscaped c = true) :
    isEscapeOf (UInt16.ofNat c.toNat) (utf8 (escapeChar c)) = true := by
  have all : ∀ n : Fin 0x80, isEscaped (Char.ofNat n) = true →
      isEscapeOf (UInt16.ofNat (Char.ofNat n).toNat) (utf8 (escapeChar (Char.ofNat n))) = true := by
    decide +kernel
  simpa only [Char.ofNat_toNat] using all ⟨c.toNat, lt_of_isEscaped h⟩ (by simpa using h)

theorem escapeChar_of_not_isEscaped {c : Char} (h : isEscaped c = false) : escapeChar c = [c] := by
  simp only [isEscaped, Bool.or_eq_false_iff, decide_eq_false_iff_not] at h
  simp [escapeChar, h.1.1, h.1.2, Nat.not_lt.mp h.2]

/-- Octets of what need not be escaped are no quotes, backslashes or control characters. -/
theorem plain_of_not_isEscaped {c : Char} (h : isEscaped c = false) :
    ∀ b ∈ String.utf8EncodeChar c, b ≠ 0x22 ∧ b ≠ 0x5C ∧ 0x20 ≤ b := by
  intro b hb
  by_cases ascii : c.toNat < 0x80
  · have all : ∀ n : Fin 0x80, isEscaped (Char.ofNat n) = false →
        UInt8.ofNat n ≠ 0x22 ∧ UInt8.ofNat n ≠ 0x5C ∧ 0x20 ≤ UInt8.ofNat n := by decide +kernel
    rw [utf8EncodeChar_ascii ascii, List.mem_singleton] at hb
    exact hb ▸ all ⟨c.toNat, ascii⟩ (by simpa using h)
  · have large := le_of_mem_utf8EncodeChar (Nat.not_lt.mp ascii) b hb
    refine ⟨?_, ?_, ?_⟩
    · rintro rfl; simp at large
    · rintro rfl; simp at large
    · exact UInt8.le_iff_toNat_le.mpr (Nat.le_trans (by decide) large)

/-- The spelling of a character inside quotes is read as its pieces. -/
theorem readLiteral_escapeChar (c : Char) (rest : Octets) :
    readLiteral (utf8 (escapeChar c) ++ rest) =
      (readLiteral rest).map fun (l, left) => (pieces c ++ l, left) := by
  cases h : isEscaped c with
  | true => simp [readLiteral_escape (isEscapeOf_escapeChar h), pieces, h]
  | false =>
    have plain := fun b hb => (plain_of_not_isEscaped h b hb).imp_right And.left
    simp [escapeChar_of_not_isEscaped h, readLiteral_octets plain, pieces, h]

/-- Behind the opening quote, a quoted text is read up to and with its closing quote. -/
theorem readLiteral_quoted (cs : List Char) (rest : Octets) :
    readLiteral (utf8 (cs.flatMap escapeChar) ++ 0x22 :: rest) =
      some (cs.flatMap pieces, rest) := by
  induction cs with
  | nil => simp [readLiteral]
  | cons c cs ih => simp [readLiteral_escapeChar, ih]

@[simp] theorem octets_map_octet (bs : Octets) (l : Literal) :
    Literal.octets (bs.map .octet ++ l) = bs ++ l.octets := by
  induction bs with
  | nil => rfl
  | cons b bs ih => simp [Literal.octets, ih]

/-- A code unit that opens no pair stands alone. -/
theorem octets_unit {u : UInt16} (h : isLeading u = false) (l : Literal) :
    Literal.octets (.unit u :: l) = encodeCode u.toNat ++ l.octets := by
  rw [Literal.octets.eq_def]
  split <;> simp_all

/-- The pieces of a character stand for its octets. -/
theorem octets_pieces (c : Char) (l : Literal) :
    Literal.octets (pieces c ++ l) = String.utf8EncodeChar c ++ l.octets := by
  cases h : isEscaped c with
  | true =>
    have small := lt_of_isEscaped h
    have unit : (UInt16.ofNat c.toNat).toNat = c.toNat := by
      simp only [UInt16.toNat_ofNat']; omega
    have alone : isLeading (UInt16.ofNat c.toNat) = false := by
      simp only [isLeading, Bool.and_eq_false_iff, decide_eq_false_iff_not, UInt16.le_iff_toNat_le,
        unit]
      exact .inl (by simp; omega)
    simp [pieces, h, octets_unit alone, unit, encodeCode, small, utf8EncodeChar_ascii small]
  | false => simp [pieces, h]

theorem octets_quoted (cs : List Char) : Literal.octets (cs.flatMap pieces) = utf8 cs := by
  induction cs with
  | nil => rfl
  | cons c cs ih => simp [octets_pieces, ih]

theorem isPlain_quoted (s : String) : (Literal.quoted s).isPlain = true := by
  simp only [Literal.isPlain, Literal.quoted, List.all_flatMap, List.all_eq_true]
  intro c _ p hp
  cases h : isEscaped c with
  | true => simp_all [pieces]
  | false =>
    simp only [pieces, h, Bool.false_eq_true, if_false, ofText_singleton, List.mem_map] at hp
    obtain ⟨b, hb, rfl⟩ := hp
    simpa using (plain_of_not_isEscaped h b hb).2.2

/-- **A quoted text is read back**, whatever characters it holds. -/
@[simp] theorem text?_quoted (s : String) : (Literal.quoted s).text? = some s := by
  unfold Literal.text?
  rw [if_pos (isPlain_quoted s)]
  exact octets_quoted s.toList ▸ fromUTF8?_utf8 s

end Switchboard.Json
