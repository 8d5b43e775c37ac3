import Switchboard.Proofs.Instants
import Switchboard.Proofs.WireForms
import Mathlib.Data.List.Sort

/-! # Ids in the order in which they were made

The order of ids is that of their octets, and an id of version 7 begins with the octets of its
creation time. So neither the version nor the random bits behind it can turn the order of two ids
against that of their creation times, and ids put in order are put in the order of their creation
times as well. Main statement: `ids_ordered_by_creation`.
-/

namespace Switchboard

namespace Radix

/-- Of two digit lists of one length, the last digits count only if all others agree. -/
theorem concat_lt_concat {x y : Nat} {xs ys : List Nat} (same : xs.length = ys.length) :
    xs ++ [x] < ys ++ [y] ↔ xs < ys ∨ xs = ys ∧ x < y := by
  induction xs generalizing ys with
  | nil =>
    obtain rfl := List.length_eq_zero_iff.mp same.symm
    simp [List.cons_lt_cons_iff]
  | cons d ds ih =>
    cases ys with
    | nil => cases same
    | cons e es =>
      simp only [List.cons_append, List.cons_lt_cons_iff, ih (Nat.succ.inj same), List.cons.injEq]
      grind

/-- Two numbers are ordered as their quotients are, and by their remainders if these agree. -/
theorem div_mod_lt_iff {b : Nat} (positive : 0 < b) (m n : Nat) :
    m / b < n / b ∨ m / b = n / b ∧ m % b < n % b ↔ m < n := by
  have low := Nat.mod_lt m positive
  have high := Nat.mod_lt n positive
  have hm := Nat.div_add_mod m b
  have hn := Nat.div_add_mod n b
  rcases Nat.lt_trichotomy (m / b) (n / b) with less | same | more
  · have step : b * (m / b + 1) ≤ b * (n / b) := Nat.mul_le_mul_left b less
    rw [Nat.mul_succ] at step
    omega
  · rw [same] at hm ⊢
    omega
  · have step : b * (n / b + 1) ≤ b * (m / b) := Nat.mul_le_mul_left b more
    rw [Nat.mul_succ] at step
    omega

/-- Fixed-width digits are ordered as the numbers are. -/
theorem padded_lt_padded_iff {b width m n : Nat} (hm : m < b ^ width) (hn : n < b ^ width) :
    padded b width m < padded b width n ↔ m < n := by
  induction width generalizing m n with
  | zero => simp_all [padded]
  | succ width ih =>
    have quotient : ∀ {k}, k < b ^ (width + 1) → k / b < b ^ width := fun hk =>
      Nat.div_lt_of_lt_mul (by rwa [Nat.mul_comm, ← Nat.pow_succ])
    have positive : 0 < b := Nat.pos_of_ne_zero (by rintro rfl; simp at hm)
    have same : padded b width (m / b) = padded b width (n / b) ↔ m / b = n / b := by
      refine ⟨fun h => ?_, congrArg _⟩
      rw [← value_padded b width _ (quotient hm), h, value_padded b width _ (quotient hn)]
    rw [padded, padded, concat_lt_concat (by simp only [length_padded]),
      ih (quotient hm) (quotient hn), same, div_mod_lt_iff positive]

end Radix

namespace MessageId

def octets (id : MessageId) : List UInt8 := (Radix.padded 256 16 id.bits.toNat).map UInt8.ofNat

theorem map_ofNat_lt {ds es : List Nat} (hd : ∀ d ∈ ds, d < 256) (he : ∀ e ∈ es, e < 256) :
    ds.map UInt8.ofNat < es.map UInt8.ofNat ↔ ds < es := by
  induction ds generalizing es with
  | nil => cases es <;> simp
  | cons d ds ih =>
    cases es with
    | nil => simp
    | cons e es =>
      obtain ⟨hd, hds⟩ := List.forall_mem_cons.mp hd
      obtain ⟨he, hes⟩ := List.forall_mem_cons.mp he
      simp only [List.map_cons, List.cons_lt_cons_iff, ih hds hes, UInt8.lt_iff_toNat_lt,
        ← UInt8.toNat_inj, UInt8.toNat_ofNat', Nat.mod_eq_of_lt hd, Nat.mod_eq_of_lt he]

/-- Ids are ordered by their octets. -/
theorem octets_lt_octets_iff {a b : MessageId} : a.octets < b.octets ↔ a < b := by
  have small := fun id : MessageId =>
    Radix.lt_of_mem_padded (b := 256) (by decide) 16 id.bits.toNat
  have fits := fun id : MessageId =>
    Nat.lt_of_lt_of_eq id.bits.isLt (show 2 ^ 128 = 256 ^ 16 by decide)
  exact (map_ofNat_lt (small a) (small b)).trans (Radix.padded_lt_padded_iff (fits a) (fits b))

/-! ## Creation times of version 7 -/

/-- A time since the start of 1970: whole seconds, and the nanoseconds beyond them. -/
structure UnixTime where
  seconds : UInt64
  nanos : UInt32
  deriving DecidableEq, Repr

namespace UnixTime

def ofMillis (ms : UInt64) : UnixTime := ⟨ms / 1000, (ms % 1000 * 1000000).toUInt32⟩

/-- The milliseconds of a time, computed in words of 64 bits. -/
def millis (t : UnixTime) : UInt64 := t.seconds * 1000 + t.nanos.toUInt64 / 1000000

theorem toNat_nanos_ofMillis (ms : UInt64) :
    (ofMillis ms).nanos.toNat = ms.toNat % 1000 * 1000000 := by
  have short : ms.toNat % 1000 * 1000000 < 2 ^ 32 := by omega
  simp only [ofMillis, UInt64.toNat_toUInt32, UInt64.toNat_mul, UInt64.toNat_mod,
    UInt64.reduceToNat]
  rw [Nat.mod_eq_of_lt (Nat.lt_trans short (by decide)), Nat.mod_eq_of_lt short]

/-- Milliseconds that are taken apart are put together again: no word overflows. -/
theorem millis_ofMillis (ms : UInt64) : (ofMillis ms).millis = ms := by
  have bound := ms.toNat_lt
  have rest : ms.toNat % 1000 * 1000000 / 1000000 = ms.toNat % 1000 :=
    Nat.mul_div_cancel _ (by decide)
  rw [← UInt64.toNat_inj, millis, UInt64.toNat_add, UInt64.toNat_mul, UInt64.toNat_div,
    UInt32.toNat_toUInt64, toNat_nanos_ofMillis]
  simp only [ofMillis, UInt64.toNat_div, UInt64.reduceToNat, rest]
  omega

end UnixTime

/-- When an id of version 7 was made, which its first 48 bits tell in milliseconds. -/
def unixTime (id : MessageId) : UnixTime :=
  .ofMillis (UInt64.ofBitVec ((id.bits.extractLsb' 80 48).setWidth 64))

variable {a b id : MessageId}

/-- The milliseconds of an id of version 7 are the bits that the order looks at first. -/
theorem toNat_millis_unixTime (id : MessageId) :
    id.unixTime.millis.toNat = id.bits.toNat / 2 ^ 80 := by
  have bound := id.bits.isLt
  have field := id.toNat_extract 80 48
  rw [unixTime, UnixTime.millis_ofMillis, UInt64.toNat_ofBitVec, BitVec.toNat_setWidth, field,
    MessageId.field]
  omega

theorem millis?_of_seventh (seventh : id.version = 7#4) :
    id.millis? = some id.unixTime.millis.toNat := by
  have bound := id.bits.isLt
  rw [millis?, if_pos seventh, toNat_extract, toNat_millis_unixTime, MessageId.field,
    Nat.mod_eq_of_lt (by omega)]

theorem millis_le_of_le (h : a ≤ b) : a.unixTime.millis.toNat ≤ b.unixTime.millis.toNat := by
  rw [toNat_millis_unixTime, toNat_millis_unixTime]
  exact Nat.div_le_div_right h

theorem lt_of_millis_lt (h : a.unixTime.millis.toNat < b.unixTime.millis.toNat) : a < b :=
  Nat.not_le.mp fun after => Nat.not_le.mpr h (millis_le_of_le after)

theorem mapM_millis? {ids : List MessageId} (sevenths : ∀ id ∈ ids, id.version = 7#4) :
    ids.mapM millis? = some (ids.map (·.unixTime.millis.toNat)) :=
  mapM_eq_some_map ids fun id hid => millis?_of_seventh (sevenths id hid)

theorem pairwise_mergeSort (ids : List MessageId) :
    (ids.mergeSort fun a b => a ≤ b).Pairwise (· ≤ ·) := by
  have trans : ∀ a b c : MessageId, decide (a ≤ b) = true → decide (b ≤ c) = true →
      decide (a ≤ c) = true := by
    intro a b c hab hbc
    simp only [decide_eq_true_eq] at hab hbc ⊢
    exact Nat.le_trans hab hbc
  have total : ∀ a b : MessageId, (decide (a ≤ b) || decide (b ≤ a)) = true := by
    intro a b
    simp only [Bool.or_eq_true, decide_eq_true_eq]
    exact Nat.le_total _ _
  exact (List.pairwise_mergeSort trans total ids).imp of_decide_eq_true

/-- Ids that are put in order have the creation times that they had before, in order. -/
theorem map_millis_of_perm {ids arranged : List MessageId} (perm : arranged.Perm ids)
    (ordered : arranged.Pairwise (· ≤ ·)) :
    arranged.map (·.unixTime.millis.toNat) =
      (ids.map (·.unixTime.millis.toNat)).mergeSort (· ≤ ·) := by
  have times : (arranged.map (·.unixTime.millis.toNat)).Pairwise (· ≤ ·) :=
    List.pairwise_map.mpr (ordered.imp millis_le_of_le)
  exact ((perm.map _).trans (List.mergeSort_perm _ _).symm).eq_of_pairwise'
    times (List.pairwise_mergeSort' _ _)

end MessageId

/-- **Ids of version 7 are ordered by creation time.** The order of ids is that of their octets. An
id of version 7 tells its creation time in milliseconds, and putting these together again from
seconds and nanoseconds loses none of them. Of two such ids, one that does not come after the other
was not made after it, and one that was made before the other comes before it, whatever the bits
behind the creation time are. So however a list of such ids is put in order, by the library's
sorting or by any other, the creation times that it has then are those that it had before, in
order. -/
theorem ids_ordered_by_creation :
    (∀ a b : MessageId, (a ≤ b ↔ a.octets ≤ b.octets) ∧ (a < b ↔ a.octets < b.octets)) ∧
    (∀ id : MessageId, id.version = 7#4 → id.millis? = some id.unixTime.millis.toNat) ∧
    (∀ a b : MessageId, a.version = 7#4 → b.version = 7#4 →
      ∃ s t, a.millis? = some s ∧ b.millis? = some t ∧ (a ≤ b → s ≤ t) ∧ (s < t → a < b)) ∧
    ∀ ids : List MessageId, (∀ id ∈ ids, id.version = 7#4) →
      (ids.mergeSort fun a b => a ≤ b).Pairwise (· ≤ ·) ∧
      ∃ times, ids.mapM MessageId.millis? = some times ∧
        (ids.mergeSort fun a b => a ≤ b).mapM MessageId.millis? =
          some (times.mergeSort fun s t => s ≤ t) ∧
        ∀ arranged : List MessageId, arranged.Perm ids → arranged.Pairwise (· ≤ ·) →
          arranged.mapM MessageId.millis? = some (times.mergeSort fun s t => s ≤ t) := by
  refine ⟨fun a b => ⟨?_, MessageId.octets_lt_octets_iff.symm⟩,
    fun id => MessageId.millis?_of_seventh, fun a b ha hb => ?_, fun ids sevenths => ?_⟩
  · rw [← List.not_lt, MessageId.octets_lt_octets_iff]
    exact Nat.not_lt.symm
  · exact ⟨_, _, MessageId.millis?_of_seventh ha, MessageId.millis?_of_seventh hb,
      MessageId.millis_le_of_le, MessageId.lt_of_millis_lt⟩
  · have inOrder : ∀ arranged : List MessageId, arranged.Perm ids → arranged.Pairwise (· ≤ ·) →
        arranged.mapM MessageId.millis? =
          some ((ids.map (·.unixTime.millis.toNat)).mergeSort fun s t => s ≤ t) := by
      intro arranged perm ordered
      rw [MessageId.mapM_millis? fun id hid => sevenths id (perm.mem_iff.mp hid),
        MessageId.map_millis_of_perm perm ordered]
    have sorted := MessageId.pairwise_mergeSort ids
    exact ⟨sorted, _, MessageId.mapM_millis? sevenths,
      inOrder _ (List.mergeSort_perm ids _) sorted, inOrder⟩

/-- Three ids, of which two were made in the same millisecond: the bits behind the creation time put
these two in order, but no id before one that was made earlier. -/
theorem ids_of_two_milliseconds :
    let first : MessageId := .stamped 5 1
    let second : MessageId := .stamped 5 (BitVec.allOnes 74)
    let third : MessageId := .stamped 6 0
    (∀ id ∈ [third, second, first], id.version = 7#4) ∧ first < second ∧ second < third ∧
      [third, second, first].mapM MessageId.millis? = some [6, 5, 5] ∧
      ([third, second, first].mergeSort fun a b => a ≤ b).mapM MessageId.millis? =
        some [5, 5, 6] := by
  intro first second third
  have sevenths : ∀ id ∈ [third, second, first], id.version = 7#4 := by decide
  obtain ⟨-, -, order, lists⟩ := ids_ordered_by_creation
  obtain ⟨-, times, dated, sorted, -⟩ := lists _ sevenths
  have known : [third, second, first].mapM MessageId.millis? = some [6, 5, 5] := by decide +kernel
  obtain rfl : [6, 5, 5] = times := Option.some.inj (known.symm.trans dated)
  obtain ⟨s, t, hs, ht, -, earlier⟩ :=
    order second third (sevenths _ (by decide)) (sevenths _ (by decide))
  obtain rfl : 5 = s := Option.some.inj (Eq.trans (by decide +kernel) hs)
  obtain rfl : 6 = t := Option.some.inj (Eq.trans (by decide +kernel) ht)
  have rearranged : [6, 5, 5].Perm [5, 5, 6] := by decide
  have sort : [6, 5, 5].mergeSort (fun s t : Nat => s ≤ t) = [5, 5, 6] :=
    ((List.mergeSort_perm _ _).trans rearranged).eq_of_pairwise' (List.pairwise_mergeSort' _ _)
      (by decide)
  exact ⟨sevenths, by decide +kernel, earlier (by decide), dated, sort ▸ sorted⟩

end Switchboard
