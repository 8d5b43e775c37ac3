import Switchboard.Validation

/-! # When ids were made

An id of a dated layout counts from the start of 1970 or from that of the Gregorian calendar, in
milliseconds or in ticks of 100 nanoseconds. `MessageId.instant?` reads all of them on one scale, on
which the time before 1970 is negative. The creation time that the library goes by is this instant
taken modulo 2^64 ticks (`millis?_eq`): exact from 1970 on, and far in the future for an id that was
made before. Main statement: `creation_times_since_1970`.
-/

namespace Switchboard

namespace MessageId

/-- Some bits of an id as a number, by the place of the lowest one and how many they are. -/
def field (id : MessageId) (place length : Nat) : Nat := id.bits.toNat / 2 ^ place % 2 ^ length

/-- Days from the start of the Gregorian calendar, the 15th of October 1582, to that of 1970. -/
def gregorianDays : Nat := 141427

def ticksPerDay : Nat := 24 * 60 * 60 * 10 ^ 7

def instantOfTicks (ticks : Nat) : Int := (ticks : Int) - (gregorianDays * ticksPerDay : Nat)

/-- The instant at which the id was made, in ticks of 100 nanoseconds since the start of 1970, for
the layouts that record one. -/
def instant? (id : MessageId) : Option Int :=
  match id.field 76 4 with
  | 7 => some (id.field 80 48 * 10000)
  | 1 =>
    some (instantOfTicks (id.field 64 12 * 2 ^ 48 + id.field 80 16 * 2 ^ 32 + id.field 96 32))
  | 6 =>
    some (instantOfTicks (id.field 96 32 * 2 ^ 28 + id.field 80 16 * 2 ^ 12 + id.field 64 12))
  | _ => none

variable (id : MessageId)

theorem field_lt (place length : Nat) : id.field place length < 2 ^ length :=
  Nat.mod_lt _ (Nat.two_pow_pos length)

theorem toNat_extract (place length : Nat) :
    (id.bits.extractLsb' place length).toNat = id.field place length := by
  rw [BitVec.extractLsb'_toNat, Nat.shiftRight_eq_div_pow, field]

theorem toNat_ticksLowFirst : id.ticksLowFirst.toNat =
    id.field 64 12 * 2 ^ 48 + id.field 80 16 * 2 ^ 32 + id.field 96 32 := by
  have mid := id.field_lt 80 16
  have low := id.field_lt 96 32
  rw [ticksLowFirst, BitVec.toNat_append, BitVec.toNat_append, toNat_extract, toNat_extract,
    toNat_extract, ← Nat.shiftLeft_add_eq_or_of_lt mid, ← Nat.shiftLeft_add_eq_or_of_lt low]
  simp only [Nat.shiftLeft_eq]
  omega

theorem toNat_ticksHighFirst : id.ticksHighFirst.toNat =
    id.field 96 32 * 2 ^ 28 + id.field 80 16 * 2 ^ 12 + id.field 64 12 := by
  have mid := id.field_lt 80 16
  have low := id.field_lt 64 12
  rw [ticksHighFirst, BitVec.toNat_append, BitVec.toNat_append, toNat_extract, toNat_extract,
    toNat_extract, ← Nat.shiftLeft_add_eq_or_of_lt mid, ← Nat.shiftLeft_add_eq_or_of_lt low]
  simp only [Nat.shiftLeft_eq]
  omega

theorem version_eq_iff (digit : BitVec 4) : id.version = digit ↔ id.field 76 4 = digit.toNat := by
  rw [version, ← BitVec.toNat_inj, toNat_extract]

/-- The milliseconds of an instant, as they come out of a subtraction modulo 2^64 ticks. -/
def millisOfInstant (instant : Int) : Nat := (instant % 2 ^ 64 / 10000).toNat

theorem millisOfInstant_of_nonneg {instant : Int} (since : 0 ≤ instant)
    (bound : instant < 2 ^ 64) : millisOfInstant instant = (instant / 10000).toNat := by
  rw [millisOfInstant, Int.emod_eq_of_lt since bound]

theorem millisOfInstant_of_neg {instant : Int} (before : instant < 0)
    (bound : -2 ^ 64 ≤ instant) :
    millisOfInstant instant = ((2 ^ 64 + instant) / 10000).toNat := by
  rw [millisOfInstant, ← Int.add_emod_left, Int.emod_eq_of_lt (by omega) (by omega)]

theorem millisOfTicks_eq (ticks : BitVec 60) :
    millisOfTicks ticks = millisOfInstant (instantOfTicks ticks.toNat) := by
  have bound := ticks.isLt
  have offset : gregorianDays * ticksPerDay = gregorianOffset := rfl
  simp only [millisOfTicks, BitVec.toNat_sub, BitVec.toNat_setWidth, BitVec.toNat_ofNat,
    millisOfInstant, instantOfTicks, offset, gregorianOffset]
  omega

/-- The creation time of an id is its instant, taken modulo 2^64 ticks. -/
theorem millis?_eq : id.millis? = id.instant?.map millisOfInstant := by
  have short := id.field_lt 80 48
  simp only [millis?, instant?, version_eq_iff, millisOfTicks_eq, toNat_ticksLowFirst,
    toNat_ticksHighFirst, toNat_extract, BitVec.toNat_ofNat]
  split
  · rename_i seventh
    rw [seventh]
    simp only [Option.map_some, Option.some.injEq]
    rw [millisOfInstant_of_nonneg (by omega) (by omega)]
    omega
  · split
    · rename_i first
      simp [first]
    · split
      · rename_i sixth
        simp [sixth]
      · split <;> simp_all

/-- No instant that an id can record is as far from 1970 as the modulus. -/
theorem instant?_bounds {id : MessageId} {instant : Int} (recorded : id.instant? = some instant) :
    -2 ^ 57 < instant ∧ instant < 2 ^ 62 := by
  have short := id.field_lt 80 48
  have high := id.field_lt 96 32
  have mid := id.field_lt 80 16
  have low := id.field_lt 64 12
  simp only [instant?, instantOfTicks, gregorianDays, ticksPerDay] at recorded
  split at recorded <;> cases recorded <;> omega

theorem isSome_instant? : id.instant?.isSome = true ↔
    id.version = 7#4 ∨ id.version = 1#4 ∨ id.version = 6#4 := by
  simp only [version_eq_iff, BitVec.toNat_ofNat, instant?]
  split <;> simp_all

variable {id : MessageId} {instant : Int}

theorem millis?_of_since (recorded : id.instant? = some instant) (since : 0 ≤ instant) :
    id.millis? = some (instant / 10000).toNat := by
  have bounds := instant?_bounds recorded
  rw [millis?_eq, recorded, Option.map_some, millisOfInstant_of_nonneg since (by omega)]

theorem millis?_of_before (recorded : id.instant? = some instant) (before : instant < 0) :
    id.millis? = some ((2 ^ 64 + instant) / 10000).toNat := by
  have bounds := instant?_bounds recorded
  rw [millis?_eq, recorded, Option.map_some, millisOfInstant_of_neg before (by omega)]

theorem isValid_eq_false_of_undated (undated : id.instant? = none) : id.isValid = false := by
  simp [isValid, millis?_eq, undated]

/-- An id is valid if it was made at least a millisecond after the start of 1970, or before it. -/
theorem isValid_iff (recorded : id.instant? = some instant) :
    id.isValid = true ↔ 10000 ≤ instant ∨ instant < 0 := by
  have bounds := instant?_bounds recorded
  rcases Int.lt_or_le instant 0 with before | since
  · simp only [isValid, millis?_of_before recorded before, decide_eq_true_eq]
    omega
  · simp only [isValid, millis?_of_since recorded since, decide_eq_true_eq]
    omega

/-- The id was made in the first millisecond of 1970, or does not say when it was made. -/
def IsUndated (id : MessageId) : Prop :=
  ∀ instant, id.instant? = some instant → 0 ≤ instant ∧ instant < 10000

theorem isValid_eq_false_iff : id.isValid = false ↔ id.IsUndated := by
  cases recorded : id.instant? with
  | none => simp [IsUndated, isValid_eq_false_of_undated recorded, recorded]
  | some instant =>
    rw [← Bool.not_eq_true, isValid_iff recorded]
    simp only [IsUndated, recorded, Option.some.injEq, forall_eq']
    omega

end MessageId

/-! ## What the rules make of ids -/

/-- Every set of rules finds fault with an invalid id, and says so of no other. -/
theorem Attributes.undatedId_mem_defects {a : Attributes} {id : MessageId}
    (identified : a.id = some id) (rules : RuleSet) :
    .undatedId id ∈ a.defects rules ↔ id.isValid = false := by
  have other : Defect.undatedId id ∉ a.kindDefects rules := by
    cases rules with
    | request => cases ttl : a.ttl <;> simp [kindDefects, ttlDefects, ttl, flag]
    | _ => simp [kindDefects, flag]
  simp [defects, commonDefects, flag, identified, other]

theorem Attributes.not_valid_of_undated {a : Attributes} {id : MessageId}
    (identified : a.id = some id) (undated : id.isValid = false) : a.isValid = false := by
  refine Bool.eq_false_iff.mpr fun valid => ?_
  obtain ⟨-, -, common, -⟩ := exists_rules_of_isValid valid
  have dated := (commonDefects_eq_nil.mp common).1
  rw [identified, Option.any_some, undated] at dated
  cases dated

/-- **Creation times are exact from 1970 on, and only from then on.** Ids of the versions 7, 1 and 6
record an instant; others record none, have no creation time and are invalid. If the instant is not
before 1970, it is the creation time, in whole milliseconds. If it is, the creation time is what
the subtraction modulo 2^64 ticks leaves. So an id is valid if it was made at least a millisecond
after the start of 1970, and also if it was made before: the rules find fault with the id of
a message if it was made in between or does not say when, and with no other. -/
theorem creation_times_since_1970 (id : MessageId) :
    (id.instant?.isSome = true ↔ id.version = 7#4 ∨ id.version = 1#4 ∨ id.version = 6#4) ∧
    (id.instant? = none → id.millis? = none ∧ id.isValid = false) ∧
    (∀ instant, id.instant? = some instant →
      (0 ≤ instant → id.millis?.map (fun ms : Nat => (ms : Int)) = some (instant / 10000)) ∧
      (instant < 0 →
        id.millis?.map (fun ms : Nat => (ms : Int)) = some ((2 ^ 64 + instant) / 10000)) ∧
      (id.isValid = true ↔ 10000 ≤ instant ∨ instant < 0)) ∧
    ∀ a : Attributes, a.id = some id →
      (∀ rules, .undatedId id ∈ a.defects rules ↔ id.IsUndated) ∧
      (id.IsUndated → ∃ e, a.validate = .error e) := by
  refine ⟨id.isSome_instant?, fun undated => ⟨?_, MessageId.isValid_eq_false_of_undated undated⟩,
    fun instant recorded => ⟨fun since => ?_, fun before => ?_, MessageId.isValid_iff recorded⟩,
    fun a identified => ⟨fun rules => ?_, fun undated => ?_⟩⟩
  · rw [MessageId.millis?_eq, undated, Option.map_none]
  · rw [MessageId.millis?_of_since recorded since, Option.map_some,
      Int.toNat_of_nonneg (by omega)]
  · have bounds := MessageId.instant?_bounds recorded
    rw [MessageId.millis?_of_before recorded before, Option.map_some,
      Int.toNat_of_nonneg (by omega)]
  · exact (Attributes.undatedId_mem_defects identified rules).trans MessageId.isValid_eq_false_iff
  · have refused := Attributes.not_valid_of_undated identified
      (MessageId.isValid_eq_false_iff.mpr undated)
    cases outcome : a.validate with
    | error e => exact ⟨e, rfl⟩
    | ok u => simp [Attributes.isValid, outcome] at refused

/-- A publication under an id of version 1 that was made in 1582 obeys the rules, and its creation
time lies far in the future. -/
theorem id_of_1582_is_valid :
    let id : MessageId := ⟨0x00000000000010008000000000000000⟩
    let a : Attributes :=
      { id := some id, kind := .publish, source := some ⟨"clock", 7, 1, 0x8001⟩,
        priority := .standard }
    id.instant? = some (-122192928000000000) ∧ id.millis? = some 1832455114570955 ∧
      id.isValid = true ∧ .undatedId id ∉ a.defects .publish ∧ a.validate = .ok () := by
  intro id a
  have recorded : id.instant? = some (-122192928000000000) := by decide +kernel
  obtain ⟨-, -, dated, rules⟩ := creation_times_since_1970 id
  obtain ⟨-, wrapped, valid⟩ := dated _ recorded
  have unfaulted : .undatedId id ∉ a.defects .publish := fun found => by
    have early := ((rules a rfl).1 .publish).mp found _ recorded
    omega
  obtain ⟨ms, made, exact⟩ := Option.map_eq_some_iff.mp (wrapped (by decide))
  refine ⟨recorded, ?_, valid.mpr (.inr (by decide)), unfaulted,
    Attributes.isValid_iff.mp (by decide +kernel)⟩
  rw [made, Option.some.injEq]
  omega

end Switchboard
