import Switchboard.Proofs.Invocations

/-! # Requests expire with their timeouts

A caller's timeout goes to the server as whole milliseconds, and the server compares it with the
whole milliseconds since the request was made. Neither side loses anything by that: more whole
milliseconds have passed than the timeout has just when more time has passed than the timeout. The
same comparison is made here in words of fixed size, where each step says whether it overflows;
none does. Main statement: `request_expires_with_timeout`.
-/

namespace Switchboard

/-- A number in a word of some bits, unless it overflows. -/
def inWord? (bits n : Nat) : Option Nat := if n < 2 ^ bits then some n else none

theorem inWord?_of_lt {bits n : Nat} (fits : n < 2 ^ bits) : inWord? bits n = some n := if_pos fits

/-- The timeout as a time to live, computed in words of 128 bits and cut off at 32 bits. -/
def CallOptions.ttlInWords? (o : CallOptions) : Option Nat := do
  let whole ← inWord? 128 (o.timeout.seconds.toNat * 1000)
  let ms ← inWord? 128 (whole + o.timeout.subsecond.val / 1000000)
  some ((inWord? 32 ms).getD (2 ^ 32 - 1))

def MessageId.secondsAndNanos? (id : MessageId) : Option (Nat × Nat) :=
  let ofTicks (ticks : BitVec 60) : Nat × Nat :=
    let since := (ticks.setWidth 64 - BitVec.ofNat 64 gregorianOffset).toNat
    (since / 10000000, since % 10000000 * 100)
  if id.version = 7#4 then
    let ms := (id.bits.extractLsb' 80 48).toNat
    some (ms / 1000, ms % 1000 * 1000000)
  else if id.version = 1#4 then some (ofTicks id.ticksLowFirst)
  else if id.version = 6#4 then some (ofTicks id.ticksHighFirst)
  else none

/-- The judgement on expiry, computed in words of 64 bits. The subtraction stops at zero. -/
def Attributes.isExpiredInWords? (a : Attributes) (now : Nat) : Option Bool :=
  match a.ttl, a.id.bind MessageId.secondsAndNanos? with
  | some ttl, some (seconds, nanos) => do
    let whole ← inWord? 64 (seconds * 1000)
    let created ← inWord? 64 (whole + nanos / 1000000)
    some (0 < ttl.toNat && ttl.toNat < now - created)
  | _, _ => some false

theorem CallOptions.ttlInWords?_eq (o : CallOptions) : o.ttlInWords? = some o.ttlMillis.toNat := by
  have seconds := o.timeout.seconds.toNat_lt
  have subsecond := o.timeout.subsecond.isLt
  have exact : o.timeout.floorMillis =
      o.timeout.seconds.toNat * 1000 + o.timeout.subsecond.val / 1000000 := by
    simp only [Duration.floorMillis, Duration.nanos]
    omega
  rw [ttlInWords?, inWord?_of_lt (by omega), Option.bind_eq_bind, Option.bind_some,
    inWord?_of_lt (by omega), Option.bind_some, ← exact, o.toNat_ttlMillis]
  congr 1
  rw [inWord?]
  split
  · rw [Option.getD_some]
    omega
  · rw [Option.getD_none]
    omega

/-- The creation time in milliseconds is put together from seconds and nanoseconds, in 64 bits. -/
theorem MessageId.millis?_of_parts (id : MessageId) :
    (id.secondsAndNanos? = none ∧ id.millis? = none) ∨
    ∃ seconds nanos, id.secondsAndNanos? = some (seconds, nanos) ∧
      id.millis? = some (seconds * 1000 + nanos / 1000000) ∧
      seconds * 1000 + nanos / 1000000 < 2 ^ 64 := by
  have short := (id.bits.extractLsb' 80 48).isLt
  have word (ticks : BitVec 60) :=
    (ticks.setWidth 64 - BitVec.ofNat 64 gregorianOffset).isLt
  simp only [secondsAndNanos?, millis?, millisOfTicks]
  split
  · exact .inr ⟨_, _, rfl, by congr 1; omega, by omega⟩
  · split
    · have := word id.ticksLowFirst
      exact .inr ⟨_, _, rfl, by congr 1; omega, by omega⟩
    · split
      · have := word id.ticksHighFirst
        exact .inr ⟨_, _, rfl, by congr 1; omega, by omega⟩
      · exact .inl ⟨rfl, rfl⟩

/-- No step of the judgement on expiry overflows, whatever the message. -/
theorem Attributes.isExpiredInWords?_eq (a : Attributes) (now : Nat) :
    a.isExpiredInWords? now = some (a.isExpired now) := by
  cases ttl : a.ttl with
  | none => simp [isExpiredInWords?, isExpired, ttl]
  | some ms =>
    cases identified : a.id with
    | none => simp [isExpiredInWords?, isExpired, ttl, identified]
    | some id =>
      rcases id.millis?_of_parts with ⟨parts, undated⟩ | ⟨seconds, nanos, parts, dated, fits⟩
      · simp [isExpiredInWords?, isExpired, ttl, identified, parts, undated]
      · simp [isExpiredInWords?, isExpired, ttl, identified, parts, dated,
          inWord?_of_lt (Nat.lt_of_le_of_lt (Nat.le_add_right _ _) fits), inWord?_of_lt fits]

/-! ## Expiry -/

namespace Attributes

variable {a : Attributes} {id : MessageId} {ttl : UInt32} {created now later : Nat}

theorem isExpired_iff (lives : a.ttl = some ttl) (identified : a.id = some id)
    (dated : id.millis? = some created) :
    a.isExpired now = true ↔ 0 < ttl.toNat ∧ ttl.toNat < now - created := by
  simp [isExpired, lives, identified, dated]

theorem isExpired_mono (expired : a.isExpired now = true) (le : now ≤ later) :
    a.isExpired later = true := by
  unfold isExpired at expired ⊢
  split at expired
  · simp only [Bool.and_eq_true, decide_eq_true_eq] at expired ⊢
    omega
  · cases expired

end Attributes

/-- More whole milliseconds have passed than a timeout has just when more time has passed. -/
theorem Duration.floorMillis_lt_iff (d : Duration) (elapsed : Int) :
    (d.floorMillis : Int) < elapsed ↔ (d.nanos : Int) < elapsed * 1000000 := by
  simp only [floorMillis]
  omega

theorem World.request_of_invoke {w v : World} {i : CallerId} {c : Caller} {method : Address}
    {payload : Option Payload} {options : CallOptions} {a : Accepted}
    (caller : w.callers.get? i = some c)
    (accepted : w.invoke i method payload options = (.ok a, v)) :
    a.id = w.mint.1 ∧ options.defects w.mint.1 = [] ∧
      v.tasks.get? (w.tasks.next + 1) =
        some ⟨.prepare (.request i a.id (c.request method payload options a.id)), false⟩ := by
  obtain ⟨opened, sound, vacant⟩ :=
    (invoke_accepted_iff caller method payload options).mp ⟨a, by rw [accepted]⟩
  rw [invoke_of_open caller opened, sound] at accepted
  simp only [vacant, Option.isSome_none, Bool.false_eq_true, if_false] at accepted
  cases accepted
  exact ⟨rfl, sound, by simp⟩

/-- **A request expires when its caller's timeout is over.** Let a caller ask for a call under an id
with a creation time, with a timeout of at least one millisecond. The request says the timeout in
whole milliseconds, but it has expired just when more time has passed since its creation than the
timeout has to the nanosecond, if that is below 2^32 milliseconds, and else when more than 2^32 - 1
milliseconds have passed. It has not expired by a clock that is behind its creation, and once it has
expired it stays so. No step on the way overflows. If the call is accepted, this is the request that
its task sends, and a server ignores it just when it has expired. -/
theorem request_expires_with_timeout {w : World} {i : CallerId} {c : Caller} {created : Nat}
    (caller : w.callers.get? i = some c) (method : Address) (payload : Option Payload)
    {options : CallOptions} (long : 1000000 ≤ options.timeout.nanos)
    (dated : w.mint.1.millis? = some created) :
    let request := c.request method payload options w.mint.1
    (∀ now : Nat,
      (options.timeout.nanos < 2 ^ 32 * 1000000 → (request.attributes.isExpired now = true ↔
        (options.timeout.nanos : Int) < ((now : Int) - created) * 1000000)) ∧
      (2 ^ 32 * 1000000 ≤ options.timeout.nanos → (request.attributes.isExpired now = true ↔
        (2 ^ 32 - 1 : Int) < (now : Int) - created)) ∧
      (now < created → request.attributes.isExpired now = false) ∧
      (request.attributes.isExpired now = true → ∀ later, now ≤ later →
        request.attributes.isExpired later = true) ∧
      request.attributes.isExpiredInWords? now = some (request.attributes.isExpired now)) ∧
    request.attributes.ttl.map (·.toNat) = options.ttlInWords? ∧
    ∀ a v, w.invoke i method payload options = (.ok a, v) →
      v.tasks.get? (w.tasks.next + 1) = some ⟨.prepare (.request i a.id request), false⟩ ∧
      request.attributes.id = some a.id ∧
      ∀ (s : Server) now, s.judge now request = .ignored ↔
        request.attributes.isExpired now = true := by
  intro request
  have lives : request.attributes.ttl = some options.ttlMillis := rfl
  have ttl := options.toNat_ttlMillis
  have whole : 1 ≤ options.timeout.floorMillis := by
    simp only [Duration.floorMillis]
    omega
  have expired (now : Nat) : request.attributes.isExpired now = true ↔
      0 < options.ttlMillis.toNat ∧ options.ttlMillis.toNat < now - created :=
    Attributes.isExpired_iff lives rfl dated
  refine ⟨fun now => ⟨fun short => ?_, fun longer => ?_, fun behind => ?_,
    fun late later le => Attributes.isExpired_mono late le,
    Attributes.isExpiredInWords?_eq _ now⟩, ?_, fun a v accepted => ?_⟩
  · have fits : options.timeout.floorMillis ≤ 0xFFFFFFFF := by
      simp only [Duration.floorMillis]
      omega
    rw [expired, ← options.timeout.floorMillis_lt_iff, ttl]
    omega
  · have beyond : 0xFFFFFFFF < options.timeout.floorMillis := by
      simp only [Duration.floorMillis]
      omega
    rw [expired, ttl]
    omega
  · rw [← Bool.not_eq_true, expired]
    omega
  · rw [lives, Option.map_some, options.ttlInWords?_eq]
  · obtain ⟨identified, sound, task⟩ := World.request_of_invoke caller accepted
    rw [identified] at task ⊢
    refine ⟨task, rfl, fun s now => s.judge_eq_ignored_iff now rfl ?_⟩
    exact Attributes.isValid_iff.mpr (c.validate_request method payload options _ sound)

/-- A request with a timeout of a millisecond and a half says one millisecond, and lives on for as
long as its caller waits. -/
theorem request_lives_for_its_whole_timeout :
    let ids : MessageId.Source := { issue := fun n => .stamped 1 (BitVec.ofNat 74 n) }
    let w : World := { wall := 0, ids := ids }
    let v := w.after [.command (.addLink ⟨"client", 1, 1, 0⟩), .command (.addCaller 0 false)]
    let c := Caller.onLink 0 ⟨"client", 1, 1, 0⟩ false
    let options : CallOptions := ⟨⟨0, 1500000⟩, .forCalls, none⟩
    let request := c.request ⟨"server", 2, 1, 1⟩ none options v.mint.1
    v.callers.get? 0 = some c ∧ 1000000 ≤ options.timeout.nanos ∧ v.mint.1.millis? = some 1 ∧
      request.attributes.ttl = some 1 ∧ request.attributes.isExpired 0 = false ∧
      request.attributes.isExpired 2 = false ∧ request.attributes.isExpired 3 = true := by
  intro ids w v c options request
  have caller : v.callers.get? 0 = some c := by decide +kernel
  have long : 1000000 ≤ options.timeout.nanos := by decide
  have dated : v.mint.1.millis? = some 1 := by decide +kernel
  obtain ⟨judged, -⟩ := request_expires_with_timeout caller ⟨"server", 2, 1, 1⟩ none long dated
  have short : options.timeout.nanos < 2 ^ 32 * 1000000 := by decide
  refine ⟨caller, long, dated, by decide, (judged 0).2.2.1 (by decide), ?_,
    ((judged 3).1 short).mpr (by decide)⟩
  rw [← Bool.not_eq_true, (judged 2).1 short]
  decide

end Switchboard
