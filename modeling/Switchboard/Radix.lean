/-!
# Positional numerals

Numbers as digit lists, most significant digit first, and the characters that
stand for digits up to fifteen. Addresses, message ids, durations and JSON
numbers are all written through this module. The main statement is
`value_digits`: reading the digits of a number gives the number back.
-/

namespace Switchboard.Radix

-- powers are those of the core library, whatever else is imported
attribute [instance (high), default_instance (high + 1)] instPowNat

/-- Digits of `n` in base `b`, most significant first and without leading zeros; zero has the one
digit zero. A base below two yields the number itself as its single digit. -/
def digits (b n : Nat) : List Nat :=
  if _h : n < b ∨ b < 2 then [n]
  else digits b (n / b) ++ [n % b]
termination_by n
decreasing_by exact Nat.div_lt_self (by omega) (by omega)

def value (b : Nat) (ds : List Nat) : Nat :=
  ds.foldl (fun n d => n * b + d) 0

theorem value_append_singleton (b : Nat) (ds : List Nat) (d : Nat) :
    value b (ds ++ [d]) = value b ds * b + d := by
  simp [value]

/-- Reading the digits of a number gives the number back. -/
theorem value_digits (b n : Nat) : value b (digits b n) = n := by
  fun_induction digits b n with
  | case1 n h => simp [value]
  | case2 n h ih =>
    rw [value_append_singleton, ih, Nat.mul_comm]
    exact Nat.div_add_mod n b

theorem lt_of_mem_digits {b n : Nat} (hb : 2 ≤ b) : ∀ d ∈ digits b n, d < b := by
  fun_induction digits b n with
  | case1 n h => intro d hd; simp only [List.mem_singleton] at hd; omega
  | case2 n h ih =>
    intro d hd
    rcases List.mem_append.mp hd with hd | hd
    · exact ih d hd
    · simp only [List.mem_singleton] at hd
      subst hd
      exact Nat.mod_lt _ (by omega)

theorem digits_ne_nil (b n : Nat) : digits b n ≠ [] := by
  unfold digits
  split <;> simp

/-- Exactly `width` digits of `n` in base `b`, padded with zeros in front; higher digits are cut. -/
def padded (b : Nat) : (width : Nat) → (n : Nat) → List Nat
  | 0, _ => []
  | width + 1, n => padded b width (n / b) ++ [n % b]

theorem length_padded (b width n : Nat) : (padded b width n).length = width := by
  induction width generalizing n with
  | zero => rfl
  | succ width ih => simp [padded, ih]

theorem lt_of_mem_padded {b : Nat} (hb : 0 < b) (width n : Nat) :
    ∀ d ∈ padded b width n, d < b := by
  induction width generalizing n with
  | zero => simp [padded]
  | succ width ih =>
    intro d hd
    rcases List.mem_append.mp hd with hd | hd
    · exact ih _ d hd
    · exact List.mem_singleton.mp hd ▸ Nat.mod_lt n hb

/-- Fixed-width digits read back whenever the number fits into the width. -/
theorem value_padded (b width n : Nat) (h : n < b ^ width) : value b (padded b width n) = n := by
  induction width generalizing n with
  | zero => simp at h; subst h; rfl
  | succ width ih =>
    have hdiv : n / b < b ^ width := by
      apply Nat.div_lt_of_lt_mul
      rwa [Nat.pow_succ, Nat.mul_comm] at h
    rw [padded, value_append_singleton, ih _ hdiv, Nat.mul_comm]
    exact Nat.div_add_mod n b

/-! ## Digit characters -/

inductive Case
  | lower
  | upper
  deriving DecidableEq, Repr

def Case.digit : Case → Nat → Char
  | .lower, n => if n < 10 then Char.ofNat (48 + n) else Char.ofNat (87 + n)
  | .upper, n => if n < 10 then Char.ofNat (48 + n) else Char.ofNat (55 + n)

/-- The digit that a character stands for, in either spelling. -/
def digit? (c : Char) : Option Nat :=
  let n := c.toNat
  if 48 ≤ n ∧ n ≤ 57 then some (n - 48)
  else if 97 ≤ n ∧ n ≤ 102 then some (n - 87)
  else if 65 ≤ n ∧ n ≤ 70 then some (n - 55)
  else none

theorem digit?_digit (k : Case) {n : Nat} (h : n < 16) : digit? (k.digit n) = some n := by
  have : ∀ m : Fin 16, digit? (Case.lower.digit m) = some m.val ∧
      digit? (Case.upper.digit m) = some m.val := by decide
  cases k
  · exact (this ⟨n, h⟩).1
  · exact (this ⟨n, h⟩).2

def hex (k : Case) (n : Nat) : String :=
  String.ofList ((digits 16 n).map k.digit)

def decimal (n : Nat) : String :=
  String.ofList ((digits 10 n).map Case.lower.digit)

def ofHex? (cs : List Char) : Option Nat :=
  (cs.mapM digit?).map (value 16)

def ofOctets (bytes : List UInt8) : String :=
  String.ofList (bytes.flatMap fun b => (padded 16 2 b.toNat).map Case.lower.digit)

def octets? : List Char → Option (List UInt8)
  | [] => some []
  | hi :: lo :: rest => do
    let h ← digit? hi
    let l ← digit? lo
    let tail ← octets? rest
    some (UInt8.ofNat (16 * h + l) :: tail)
  | [_] => none

end Switchboard.Radix
