import Switchboard.Proofs.Literals

/-!
# Written values are read back

A value without fractions is read back as one tree, which keeps the digits of
its numbers and the escapes of its texts. The reader is followed along its fuel:
each call takes at least one octet from the text, so as much fuel as the text
has octets is enough. Behind a value stands nothing, a comma or a closing
bracket, and therefore a number is read to its last digit and no further.
-/

namespace Switchboard.Radix

/-- No zero leads the digits of a positive number. -/
theorem digits_eq_cons {b n : Nat} (h : n ≠ 0) : ∃ d ds, digits b n = d :: ds ∧ d ≠ 0 := by
  fun_induction digits b n with
  | case1 n small => exact ⟨n, [], rfl, h⟩
  | case2 n large ih =>
    have more : n / b ≠ 0 := Nat.div_ne_zero_iff.mpr (by omega)
    obtain ⟨d, ds, digits, lead⟩ := ih more
    exact ⟨d, ds ++ [n % b], by rw [digits]; rfl, lead⟩

end Switchboard.Radix

namespace Switchboard.Json

def digitOctet (d : Nat) : UInt8 := UInt8.ofNat (0x30 + d)

theorem utf8_digits {ds : List Nat} (h : ∀ d ∈ ds, d < 10) :
    utf8 (ds.map Radix.Case.lower.digit) = ds.map digitOctet := by
  have one : ∀ d : Fin 10, String.utf8EncodeChar (Radix.Case.lower.digit d) = [digitOctet d] := by
    decide +kernel
  induction ds with
  | nil => rfl
  | cons d ds ih =>
    obtain ⟨here, more⟩ := List.forall_mem_cons.mp h
    simp [one ⟨d, here⟩, ih more]

theorem digitOctet_spec {d : Nat} (h : d < 10) :
    0x30 ≤ digitOctet d ∧ digitOctet d ≤ 0x39 ∧ (digitOctet d).toNat - 0x30 = d := by
  have all : ∀ d : Fin 10, 0x30 ≤ digitOctet d ∧ digitOctet d ≤ 0x39 ∧
      (digitOctet d).toNat - 0x30 = d := by decide
  exact all ⟨d, h⟩

/-- What may stand behind a value: nothing, a comma or a closing bracket. -/
def isDelimited : Octets → Bool
  | [] => true
  | b :: _ => b == 0x2C || b == 0x5D || b == 0x7D

/-- Neither a digit nor a point nor an exponent stands behind a value. -/
theorem isDelimited_cases {rest : Octets} (h : isDelimited rest = true) :
    readDigits rest = ([], rest) ∧ readFraction rest = some ([], rest) ∧
      readExponent rest = some (none, rest) ∧ skipBlank rest = rest := by
  cases rest with
  | nil => exact ⟨rfl, rfl, rfl, rfl⟩
  | cons b rest =>
    simp only [isDelimited, Bool.or_eq_true, beq_iff_eq] at h
    rcases h with (rfl | rfl) | rfl <;> exact ⟨rfl, rfl, rfl, rfl⟩

theorem readDigits_digits {ds : List Nat} (small : ∀ d ∈ ds, d < 10) {rest : Octets}
    (h : isDelimited rest = true) : readDigits (ds.map digitOctet ++ rest) = (ds, rest) := by
  induction ds with
  | nil => exact (isDelimited_cases h).1
  | cons d ds ih =>
    obtain ⟨here, more⟩ := List.forall_mem_cons.mp small
    obtain ⟨low, high, back⟩ := digitOctet_spec here
    simp [readDigits, low, high, back, ih more]

theorem readWhole_digits (n : Nat) {rest : Octets} (h : isDelimited rest = true) :
    readWhole ((Radix.digits 10 n).map digitOctet ++ rest) = some (Radix.digits 10 n, rest) := by
  by_cases zero : n = 0
  · subst zero
    simp [Radix.digits, readWhole, digitOctet]
  · have small := Radix.lt_of_mem_digits (b := 10) (n := n) (by decide)
    obtain ⟨d, ds, digits, lead⟩ := Radix.digits_eq_cons (b := 10) zero
    rw [digits] at small ⊢
    have back := (digitOctet_spec (small d (by simp))).2.2
    have lead : digitOctet d ≠ 0x30 := by
      intro same
      exact lead (by simpa [same] using back.symm)
    have read := readDigits_digits small h
    rw [List.map_cons, List.cons_append] at read ⊢
    simp [readWhole, lead, read]

theorem readNumeral_integer (n : Int) {rest : Octets} (h : isDelimited rest = true) :
    readNumeral (utf8 (integerText n) ++ rest) = some (.ofInt n, rest) := by
  obtain ⟨-, fraction, exponent, -⟩ := isDelimited_cases h
  have small := Radix.lt_of_mem_digits (b := 10) (n := n.natAbs) (by decide)
  have whole := readWhole_digits n.natAbs h
  by_cases negative : n < 0
  · have minus : String.utf8EncodeChar '-' = [0x2D] := by decide
    simp [integerText, negative, minus, utf8_digits small, readNumeral, whole, fraction, exponent,
      Numeral.ofInt]
  · obtain ⟨d, ds, digits⟩ := List.exists_cons_of_ne_nil (Radix.digits_ne_nil 10 n.natAbs)
    have here := digitOctet_spec (small d (by simp [digits]))
    have unsigned : digitOctet d ≠ 0x2D := fun same => by simp [same] at here
    simp only [integerText, negative, if_false, utf8_digits small]
    simp only [digits, List.map_cons, List.cons_append] at whole ⊢
    simp [readNumeral, unsigned, whole, fraction, exponent, Numeral.ofInt, digits, negative]

/-- The first octet of an integer, and that the octet opens nothing but a number. -/
theorem utf8_integerText (n : Int) :
    ∃ b bs, utf8 (integerText n) = b :: bs ∧ (b = 0x2D ∨ 0x30 ≤ b ∧ b ≤ 0x39) := by
  obtain ⟨d, ds, digits⟩ := List.exists_cons_of_ne_nil (Radix.digits_ne_nil 10 n.natAbs)
  have small := Radix.lt_of_mem_digits (b := 10) (n := n.natAbs) (by decide)
  by_cases negative : n < 0
  · exact ⟨0x2D, _, by simp only [integerText, negative, if_true]; rfl, .inl rfl⟩
  · have here := digitOctet_spec (small d (by simp [digits]))
    refine ⟨digitOctet d, ds.map digitOctet, ?_, .inr ⟨here.1, here.2.1⟩⟩
    simp only [integerText, negative, if_false, utf8_digits small]
    rw [digits, List.map_cons]

theorem readValue_numeral {b : UInt8} (h : b = 0x2D ∨ 0x30 ≤ b ∧ b ≤ 0x39) (fuel : Nat)
    (bs : Octets) :
    readValue (fuel + 1) (b :: bs) =
      (readNumeral (b :: bs)).map fun (n, left) => (.number n, left) := by
  have others : ∀ c ∈ ([0x20, 0x09, 0x0A, 0x0D, 0x22, 0x5B, 0x7B, 0x6E, 0x74, 0x66] : Octets),
      b ≠ c := by
    have none : ∀ c ∈ ([0x20, 0x09, 0x0A, 0x0D, 0x22, 0x5B, 0x7B, 0x6E, 0x74, 0x66] : Octets),
        ¬(c = 0x2D ∨ 0x30 ≤ c ∧ c ≤ 0x39) := by decide +kernel
    rintro c hc rfl
    exact none b hc h
  simp only [List.forall_mem_cons] at others
  simp [readValue, skipBlank, isBlank, readScalar, others]

mutual

/-- No number with a fraction occurs in the value. -/
def Value.isExact : Value → Bool
  | .double _ => false
  | .array items => Value.allExact items
  | .object members => Value.membersExact members
  | _ => true

def Value.allExact : List Value → Bool
  | [] => true
  | v :: rest => v.isExact && Value.allExact rest

def Value.membersExact : List (String × Value) → Bool
  | [] => true
  | (_, v) :: rest => v.isExact && Value.membersExact rest

end

mutual

/-- The tree that an exact value is read back as. A number with a fraction has no part in this:
which digits it is written with is not told by the value. -/
def Value.tree : Value → Raw
  | .null => .null
  | .bool b => .bool b
  | .integer n => .number (.ofInt n)
  | .double _ => .null
  | .string s => .string (.quoted s)
  | .array items => .array (Value.trees items)
  | .object members => .object (Value.memberTrees members)

def Value.trees : List Value → List Raw
  | [] => []
  | v :: rest => v.tree :: Value.trees rest

def Value.memberTrees : List (String × Value) → List (Literal × Raw)
  | [] => []
  | (k, v) :: rest => (.quoted k, v.tree) :: Value.memberTrees rest

end

@[simp] theorem trees_eq_map (vs : List Value) : Value.trees vs = vs.map Value.tree := by
  induction vs with
  | nil => rfl
  | cons v vs ih => simp [Value.trees, ih]

@[simp] theorem memberTrees_eq_map (ms : List (String × Value)) :
    Value.memberTrees ms = ms.map fun m => (.quoted m.1, m.2.tree) := by
  induction ms with
  | nil => rfl
  | cons m ms ih => simp [Value.memberTrees, ih]

/-! ## Reading values back -/

/-- The text of an exact value begins with an octet that is neither blank nor a closing bracket. -/
theorem utf8_chars {v : Value} (exact : v.isExact = true) :
    ∃ b bs, utf8 v.chars = b :: bs ∧ isBlank b = false ∧ b ≠ 0x5D := by
  cases v with
  | null => exact ⟨_, _, rfl, rfl, by decide⟩
  | bool b => cases b <;> exact ⟨_, _, rfl, rfl, by decide⟩
  | integer n =>
    obtain ⟨b, bs, text, first⟩ := utf8_integerText n
    refine ⟨b, bs, by simpa [Value.chars] using text, ?_, ?_⟩
    · rcases first with rfl | ⟨low, -⟩
      · rfl
      · simp only [isBlank, Bool.or_eq_false_iff, beq_eq_false_iff_ne]
        refine ⟨⟨⟨?_, ?_⟩, ?_⟩, ?_⟩ <;> rintro rfl <;> simp at low
    · rintro rfl
      simp at first
  | double bits => cases exact
  | string s => exact ⟨_, _, rfl, rfl, by decide⟩
  | array items => cases items <;> exact ⟨_, _, rfl, rfl, by decide⟩
  | object members => cases members <;> exact ⟨_, _, rfl, rfl, by decide⟩

/-- With this much fuel, texts of exact values, of items and of members are read back. -/
structure ReadsBack (fuel : Nat) : Prop where
  value : ∀ (v : Value) (rest : Octets), v.isExact = true → (utf8 v.chars).length ≤ fuel →
    isDelimited rest = true → readValue fuel (utf8 v.chars ++ rest) = some (v.tree, rest)
  items : ∀ (v : Value) (vs : List Value) (rest : Octets), Value.allExact (v :: vs) = true →
    (utf8 v.chars).length + (utf8 (Value.itemChars vs)).length ≤ fuel →
    readItems fuel (utf8 v.chars ++ (utf8 (Value.itemChars vs) ++ rest)) =
      some (Value.trees (v :: vs), rest)
  members : ∀ (k : String) (v : Value) (ms : List (String × Value)) (rest : Octets),
    Value.membersExact ((k, v) :: ms) = true →
    (utf8 v.chars).length + (utf8 (Value.memberChars ms)).length ≤ fuel →
    readMembers fuel (utf8 (quote k) ++
        (0x3A :: (utf8 v.chars ++ (utf8 (Value.memberChars ms) ++ rest)))) =
      some (Value.memberTrees ((k, v) :: ms), rest)

/-- What follows an item or a member is delimited, and takes an octet. -/
theorem utf8_itemChars (vs : List Value) (rest : Octets) :
    isDelimited (utf8 (Value.itemChars vs) ++ rest) = true ∧
      0 < (utf8 (Value.itemChars vs)).length := by
  cases vs <;> exact ⟨rfl, Nat.succ_pos _⟩

theorem utf8_memberChars (ms : List (String × Value)) (rest : Octets) :
    isDelimited (utf8 (Value.memberChars ms) ++ rest) = true ∧
      0 < (utf8 (Value.memberChars ms)).length := by
  cases ms <;> exact ⟨rfl, Nat.succ_pos _⟩

theorem ReadsBack.zero : ReadsBack 0 where
  value v rest exact enough := by
    obtain ⟨b, bs, text, -⟩ := utf8_chars exact
    simp [text] at enough
  items v vs rest _ enough := by
    have := (utf8_itemChars vs rest).2
    omega
  members k v ms rest _ enough := by
    have := (utf8_memberChars ms rest).2
    omega

theorem utf8EncodeChar_marks :
    String.utf8EncodeChar '"' = [0x22] ∧ String.utf8EncodeChar '[' = [0x5B] ∧
      String.utf8EncodeChar ']' = [0x5D] ∧ String.utf8EncodeChar '\x7b' = [0x7B] ∧
      String.utf8EncodeChar '\x7d' = [0x7D] ∧ String.utf8EncodeChar ',' = [0x2C] ∧
      String.utf8EncodeChar ':' = [0x3A] := by
  decide

theorem readLiteral_quote (s : String) (rest : Octets) :
    ∃ bs, utf8 (quote s) ++ rest = 0x22 :: bs ∧ readLiteral bs = some (.quoted s, rest) := by
  refine ⟨utf8 (s.toList.flatMap escapeChar) ++ 0x22 :: rest, ?_, readLiteral_quoted ..⟩
  simp [quote, utf8EncodeChar_marks]

theorem ReadsBack.succ_value {fuel : Nat} (h : ReadsBack fuel) {v : Value} {rest : Octets}
    (exact : v.isExact = true) (enough : (utf8 v.chars).length ≤ fuel + 1)
    (ends : isDelimited rest = true) :
    readValue (fuel + 1) (utf8 v.chars ++ rest) = some (v.tree, rest) := by
  cases v with
  | null => rfl
  | bool b => cases b <;> rfl
  | integer n =>
    obtain ⟨b, bs, text, first⟩ := utf8_integerText n
    have read := readNumeral_integer n ends
    simp only [Value.chars, Value.tree, text, List.cons_append] at read ⊢
    rw [readValue_numeral first, read]
    rfl
  | double bits => cases exact
  | string s =>
    obtain ⟨bs, text, read⟩ := readLiteral_quote s rest
    simp [Value.chars, Value.tree, text, readValue, skipBlank, isBlank, read]
  | array items =>
    cases items with
    | nil => rfl
    | cons v vs =>
      have both : v.isExact = true ∧ Value.allExact vs = true := by
        simpa [Value.isExact, Value.allExact] using exact
      obtain ⟨b, bs, text, blank, closing⟩ := utf8_chars both.1
      have read := h.items v vs rest exact (by
        simp [Value.chars, utf8EncodeChar_marks] at enough; omega)
      have opening : isBlank 0x5B = false := rfl
      simp only [text, List.cons_append] at read
      simp [Value.chars, Value.tree, utf8EncodeChar_marks, text, readValue, skipBlank, opening,
        blank, closing, read]
  | object members =>
    cases members with
    | nil => rfl
    | cons m ms =>
      obtain ⟨k, v⟩ := m
      have read := h.members k v ms rest exact (by
        simp [Value.chars, utf8EncodeChar_marks] at enough; omega)
      obtain ⟨bs, text, -⟩ := readLiteral_quote k
        (0x3A :: (utf8 v.chars ++ (utf8 (Value.memberChars ms) ++ rest)))
      rw [text] at read
      simp [Value.chars, Value.tree, utf8EncodeChar_marks, text, readValue, skipBlank, isBlank,
        read]

theorem ReadsBack.succ_items {fuel : Nat} (h : ReadsBack fuel) {v : Value} {vs : List Value}
    {rest : Octets} (exact : Value.allExact (v :: vs) = true)
    (enough : (utf8 v.chars).length + (utf8 (Value.itemChars vs)).length ≤ fuel + 1) :
    readItems (fuel + 1) (utf8 v.chars ++ (utf8 (Value.itemChars vs) ++ rest)) =
      some (Value.trees (v :: vs), rest) := by
  obtain ⟨here, more⟩ : v.isExact = true ∧ Value.allExact vs = true := by
    simpa [Value.allExact] using exact
  obtain ⟨ends, positive⟩ := utf8_itemChars vs rest
  have first := h.value v _ here (by omega) ends
  simp only [readItems, first, Option.bind_eq_bind, Option.bind_some]
  cases vs with
  | nil => simp [Value.itemChars, utf8EncodeChar_marks, skipBlank, isBlank]
  | cons u us =>
    have others := h.items u us rest more (by
      simp [Value.itemChars, utf8EncodeChar_marks] at enough; omega)
    simp [Value.itemChars, utf8EncodeChar_marks, skipBlank, isBlank, others]

theorem ReadsBack.succ_members {fuel : Nat} (h : ReadsBack fuel) {k : String} {v : Value}
    {ms : List (String × Value)} {rest : Octets}
    (exact : Value.membersExact ((k, v) :: ms) = true)
    (enough : (utf8 v.chars).length + (utf8 (Value.memberChars ms)).length ≤ fuel + 1) :
    readMembers (fuel + 1) (utf8 (quote k) ++
        (0x3A :: (utf8 v.chars ++ (utf8 (Value.memberChars ms) ++ rest)))) =
      some (Value.memberTrees ((k, v) :: ms), rest) := by
  obtain ⟨here, more⟩ : v.isExact = true ∧ Value.membersExact ms = true := by
    simpa [Value.membersExact] using exact
  obtain ⟨ends, positive⟩ := utf8_memberChars ms rest
  have first := h.value v _ here (by omega) ends
  obtain ⟨bs, text, key⟩ := readLiteral_quote k
    (0x3A :: (utf8 v.chars ++ (utf8 (Value.memberChars ms) ++ rest)))
  have blanks : isBlank 0x22 = false ∧ isBlank 0x3A = false := ⟨rfl, rfl⟩
  simp only [text, readMembers, skipBlank, blanks, Bool.false_eq_true, if_false, key, first,
    Option.bind_eq_bind, Option.bind_some]
  cases ms with
  | nil => simp [Value.memberChars, utf8EncodeChar_marks, skipBlank, isBlank]
  | cons m ms =>
    obtain ⟨k', v'⟩ := m
    have others := h.members k' v' ms rest more (by
      simp [Value.memberChars, utf8EncodeChar_marks] at enough; omega)
    simp [Value.memberChars, utf8EncodeChar_marks, skipBlank, isBlank, others]

/-- Any fuel reads back what is no longer than it. -/
theorem readsBack (fuel : Nat) : ReadsBack fuel := by
  induction fuel with
  | zero => exact .zero
  | succ fuel ih =>
    exact ⟨fun _ _ => ih.succ_value, fun _ _ _ => ih.succ_items, fun _ _ _ _ => ih.succ_members⟩

/-- **The text of an exact value is read back as its tree.** -/
theorem ofOctets?_chars {v : Value} (exact : v.isExact = true) :
    Raw.ofOctets? (utf8 v.chars) = some v.tree := by
  have read := (readsBack ((utf8 v.chars).length + 1)).value v [] exact (Nat.le_succ _) rfl
  rw [List.append_nil] at read
  simp [Raw.ofOctets?, read, skipBlank]

theorem ofBytes?_text {v : Value} (exact : v.isExact = true) :
    Raw.ofBytes? v.text.toUTF8 = some v.tree := by
  rw [Raw.ofBytes?, Value.text, toUTF8_ofList, ofOctets?_chars exact]

end Switchboard.Json
