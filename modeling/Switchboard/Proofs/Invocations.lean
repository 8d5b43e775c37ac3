import Switchboard.Proofs.Traffic

/-! # Making a call

A caller that is asked for a call looks whether it is closed, takes an id, builds the request, has
it checked and enters the call in its registry; it can give up after each of these. Which requests
are refused is read off the options of the call alone (`CallOptions.defects`), and `World.Books`
says what an accepted call adds to the world. Main statement: `invalid_calls_leave_no_trace`.
-/

namespace Switchboard

open History

theorem CallOptions.ttlMillis_eq_zero {o : CallOptions} :
    o.ttlMillis = 0 ↔ o.timeout.nanos < 1000000 := by
  rw [← UInt32.toNat_inj, o.toNat_ttlMillis, Duration.floorMillis]
  simp only [UInt32.toNat_zero]
  omega

/-- The request of a call, from the entity of the caller to the method. -/
def Caller.request (c : Caller) (method : Address) (payload : Option Payload)
    (options : CallOptions) (id : MessageId) : Message where
  attributes :=
    { id := some id
      kind := .request
      source := some c.seat.entity
      sink := some method
      priority := options.priority
      ttl := some options.ttlMillis
      token := options.token }
  payload := payload

/-- A request that says everything breaks at most three rules. -/
theorem Attributes.defects_of_full (id : MessageId) (source sink : Address) (priority : Priority)
    (ttl : UInt32) (token : Option String) :
    Attributes.defects
      { id := some id, kind := .request, source := some source, sink := some sink,
        priority := priority, ttl := some ttl, token := token } .request =
      flag (!id.isValid) (.undatedId id) ++ flag (priority == .unspecified) .unspecifiedPriority ++
        flag (ttl == 0) .zeroTtl := by
  simp [defects, commonDefects, kindDefects, ttlDefects, RuleSet.kind, flag]

def CallOptions.defects (o : CallOptions) (id : MessageId) : List Defect :=
  Attributes.flag (!id.isValid) (.undatedId id) ++
    Attributes.flag (o.priority == .unspecified) .unspecifiedPriority ++
    Attributes.flag (o.ttlMillis == 0) .zeroTtl

/-- Under an id that is dated, a request is refused for its timeout or for its priority. -/
theorem CallOptions.defects_eq_nil {o : CallOptions} {id : MessageId} (dated : id.isValid = true) :
    o.defects id = [] ↔ 1000000 ≤ o.timeout.nanos ∧ o.priority ≠ .unspecified := by
  have long : 1000000 ≤ o.timeout.nanos ↔ o.ttlMillis ≠ 0 := by
    rw [ne_eq, o.ttlMillis_eq_zero, Nat.not_lt]
  rw [long]
  by_cases priority : o.priority = .unspecified <;> by_cases ttl : o.ttlMillis = 0 <;>
    simp [defects, Attributes.flag, dated, priority, ttl]

theorem CallOptions.defects_ne_nil {o : CallOptions} {id : MessageId} (dated : id.isValid = true) :
    o.defects id ≠ [] ↔ o.timeout.nanos < 1000000 ∨ o.priority = .unspecified := by
  rw [ne_eq, defects_eq_nil dated, Decidable.not_and_iff_not_or_not, Nat.not_le, Decidable.not_not]

namespace Caller

variable (c : Caller) (method : Address) (payload : Option Payload) (options : CallOptions)
  (id : MessageId)

theorem identified_draft : (c.draft method options id).identified id =
    (c.request method payload options id).attributes := by
  cases token : options.token <;>
    simp [draft, request, token, Draft.set?, Draft.set, Draft.request, Draft.identified]

theorem defects_request :
    (c.request method payload options id).attributes.defects .request = options.defects id :=
  Attributes.defects_of_full ..

theorem validate_request (sound : options.defects id = []) :
    (c.request method payload options id).attributes.validate = .ok () := by
  have own : (c.request method payload options id).attributes.kind = RuleSet.request.kind := rfl
  rw [Attributes.validate_of_kind own, Attributes.validateAs, defects_request, sound]

/-- The draft of a call becomes its request, or is refused with the defects of the options. -/
theorem finish_draft_eq : (c.draft method options id).finish id payload =
    match options.defects id with
    | [] => .ok (c.request method payload options id)
    | found => .error (ValidationError.defects found).toFailure := by
  rw [Draft.finish, c.identified_draft method payload]
  have own : (c.request method payload options id).attributes.kind = RuleSet.request.kind := rfl
  rw [Attributes.validate_of_kind own, Attributes.validateAs, defects_request]
  cases options.defects id <;> rfl

end Caller

namespace World

/-- The second world is the first one with a call that the caller has accepted: an entry in the
caller's registry, a place for the outcome, and the tasks of the deadline and of the request. All
of these are new, and everything else is as it was. -/
structure Books (w u : World) (i : CallerId) (c : Caller) (a : Accepted) (request : Message)
    (timeout : Duration) : Prop where
  caller : u.callers.get? i = some { c with pending := ⟨a.id, a.call, w.tasks.next⟩ :: c.pending }
  others : ∀ j, j ≠ i → u.callers.get? j = w.callers.get? j
  place : w.calls.get? a.call = none ∧ u.calls.get? a.call = some { caller := i, id := a.id }
  places : ∀ k, k ≠ a.call → u.calls.get? k = w.calls.get? k
  deadline : w.tasks.get? w.tasks.next = none ∧
    u.tasks.get? w.tasks.next = some ⟨.deadline i a.id timeout, false⟩
  sending : w.tasks.get? (w.tasks.next + 1) = none ∧
    u.tasks.get? (w.tasks.next + 1) = some ⟨.prepare (.request i a.id request), false⟩
  tasks : ∀ k, k ≠ w.tasks.next → k ≠ w.tasks.next + 1 → u.tasks.get? k = w.tasks.get? k
  ready : u.ready = w.ready ++ [w.tasks.next, w.tasks.next + 1]
  events : u.events = (w.now, .accepted i a.id timeout) :: w.events
  rest : u = { w with
    ids := u.ids, callers := u.callers, calls := u.calls, tasks := u.tasks, ready := u.ready,
    events := u.events }

variable {w : World} {i : CallerId} {c : Caller}

theorem books_accept (tidy : w.Tidy) (caller : w.callers.get? i = some c) (request : Message)
    (timeout : Duration) :
    w.Books (w.mint.2.accept i request w.mint.1 timeout).2 i c ⟨w.mint.1, w.calls.next⟩ request
      timeout := by
  have free := tidy.tasks.next
  have free' := tidy.tasks (w.tasks.next + 1) (Nat.le_succ _)
  constructor
  case caller => simp [caller]
  case others => intro j other; simp [other]
  case place => exact ⟨tidy.calls.next, by simp⟩
  case places =>
    intro k other
    have other : k ≠ w.calls.next := other
    simp [other]
  case deadline => exact ⟨free, by simp⟩
  case sending => exact ⟨free', by simp⟩
  case tasks => intro k first second; simp [first, second]
  case ready => simp [accept, spawn, modifyCaller, record]
  case events => rfl
  case rest => rfl

/-! ## Making a call -/

theorem invoke_of_closed (caller : w.callers.get? i = some c) (closed : c.seat.closed = true)
    (method : Address) (payload : Option Payload) (options : CallOptions) :
    w.invoke i method payload options = (.error (.unavailable "invoker is closed"), w) := by
  simp [invoke, caller, closed]

/-- An open caller refuses a call for the defects of its request, or else since another call
is pending under the id, or accepts it. -/
theorem invoke_of_open (caller : w.callers.get? i = some c) (opened : c.seat.closed = false)
    (method : Address) (payload : Option Payload) (options : CallOptions) :
    w.invoke i method payload options =
      match options.defects w.mint.1 with
      | [] =>
        if (c.pending? w.mint.1).isSome then (.error (pendingTwice w.mint.1), w.mint.2)
        else (.ok ⟨w.mint.1, w.calls.next⟩, (w.mint.2.accept i
          (c.request method payload options w.mint.1) w.mint.1 options.timeout).2)
      | found => (.error (ValidationError.defects found).toFailure, w.mint.2) := by
  simp only [invoke, caller, opened, Bool.false_eq_true, if_false,
    c.finish_draft_eq method payload options]
  cases options.defects w.mint.1 with
  | nil =>
    dsimp only
    split
    · rfl
    · simp
  | cons d ds => rfl

theorem invoke_refused {method : Address} {payload : Option Payload} {options : CallOptions}
    {e : Failure} (refused : (w.invoke i method payload options).1 = .error e) :
    (w.invoke i method payload options).2 =
      { w with ids := (w.invoke i method payload options).2.ids } := by
  rcases invoke_cases w i method payload options with
    ⟨e', he⟩ | ⟨e', he⟩ | ⟨c, m, -, -, -, -, he⟩ <;> rw [he] at refused ⊢
  · rfl
  · cases refused

/-- An open caller names an invalid argument just when the request would have defects. -/
theorem invoke_invalid_iff (caller : w.callers.get? i = some c) (opened : c.seat.closed = false)
    (method : Address) (payload : Option Payload) (options : CallOptions) :
    (∃ detail, (w.invoke i method payload options).1 = .error (.invalidArgument detail)) ↔
      options.defects w.mint.1 ≠ [] := by
  rw [invoke_of_open caller opened]
  cases options.defects w.mint.1 with
  | nil =>
    dsimp only
    split <;> simp [pendingTwice]
  | cons d ds => simp [ValidationError.toFailure]

/-- A call is accepted just when the caller is open, the request has no defects and no other call
is pending under the id. -/
theorem invoke_accepted_iff (caller : w.callers.get? i = some c) (method : Address)
    (payload : Option Payload) (options : CallOptions) :
    (∃ a, (w.invoke i method payload options).1 = .ok a) ↔
      c.seat.closed = false ∧ options.defects w.mint.1 = [] ∧ c.pending? w.mint.1 = none := by
  cases closed : c.seat.closed with
  | true => simp [invoke_of_closed caller closed]
  | false =>
    rw [invoke_of_open caller closed]
    cases options.defects w.mint.1 with
    | nil => cases c.pending? w.mint.1 <;> simp
    | cons d ds => simp

/-- An accepted call is booked with its request. -/
theorem invoke_books (tidy : w.Tidy) (caller : w.callers.get? i = some c) {method : Address}
    {payload : Option Payload} {options : CallOptions} {a : Accepted}
    (accepted : (w.invoke i method payload options).1 = .ok a) :
    a = ⟨w.mint.1, w.calls.next⟩ ∧ w.Books (w.invoke i method payload options).2 i c a
      (c.request method payload options a.id) options.timeout := by
  obtain ⟨opened, sound, vacant⟩ :=
    (invoke_accepted_iff caller method payload options).mp ⟨a, accepted⟩
  rw [invoke_of_open caller opened, sound] at accepted ⊢
  simp only [vacant, Option.isSome_none, Bool.false_eq_true, if_false] at accepted ⊢
  cases accepted
  exact ⟨rfl, books_accept tidy caller _ _⟩

/-- An id that is issued now is not that of a pending call, if ids are distinct. -/
theorem Ledger.not_pending {spare : Option (CallerId × MessageId)} (h : w.Ledger spare)
    (distinct : w.mint.2.ids.Distinct) (caller : w.callers.get? i = some c) :
    c.pending? w.mint.1 = none := by
  cases found : c.pending? w.mint.1 with
  | none => rfl
  | some p =>
    obtain ⟨pends, same⟩ := mem_pendingOf (w := w) (i := i)
      (by rw [caller, Option.bind_some, found])
    have awaits : w.mint.1 ∈ awaited i w.events := by
      rw [← h.registry i, ← same]
      exact List.mem_map_of_mem pends
    exact absurd (List.mem_filter.mp awaits).1 (h.not_accepted distinct i)

end World

/-- **A caller refuses the invalid calls and no others, and a refusal leaves no trace.** After any
run, and if the id that is issued next carries a date: a closed caller is unavailable; an open one
names an invalid argument just when the timeout is below one millisecond or the priority is
unspecified; a call that is refused uses up an id at most. An accepted call has an id under which no
call of the caller is pending; its entry, its place, the task of its deadline and the task that
sends its request are added to the world and nothing else; the request is valid and says exactly
what was asked for. If ids are distinct, the id is that of no earlier call of anyone, so that an
open caller accepts every call that is valid. -/
theorem invalid_calls_leave_no_trace {w : World} {as : List Act} (new : w.IsNew)
    (run : w.CanRun as) {i : CallerId} {c : Caller}
    (caller : (w.after as).callers.get? i = some c)
    (dated : (w.after as).mint.1.isValid = true) (method : Address) (payload : Option Payload)
    (options : CallOptions) :
    let v := w.after as
    let r := v.invoke i method payload options
    (c.seat.closed = true → r.1 = .error (.unavailable "invoker is closed")) ∧
    (c.seat.closed = false → ((∃ detail, r.1 = .error (.invalidArgument detail)) ↔
      options.timeout.nanos < 1000000 ∨ options.priority = .unspecified)) ∧
    (∀ e, r.1 = .error e → r.2 = { v with ids := r.2.ids }) ∧
    (∀ a, r.1 = .ok a → a.id = v.mint.1 ∧ c.pending? a.id = none ∧
      ∃ request ttl, v.Books r.2 i c a request options.timeout ∧
        request.attributes.validate = .ok () ∧
        ttl.toNat = min (options.timeout.nanos / 1000000) (2 ^ 32 - 1) ∧
        request =
          ⟨{ id := some a.id, kind := .request, source := some c.seat.entity, sink := some method,
             priority := options.priority, ttl := some ttl, token := options.token }, payload⟩) ∧
    (v.mint.2.ids.Distinct → (∀ j, v.mint.1 ∉ accepted j v.events) ∧
      ((∃ a, r.1 = .ok a) ↔ c.seat.closed = false ∧ 1000000 ≤ options.timeout.nanos ∧
        options.priority ≠ .unspecified)) := by
  intro v r
  have tidy : v.Tidy := (World.grows_after (.new new) run).1
  refine ⟨fun closed => ?_, fun opened => ?_, fun e => World.invoke_refused, fun a accepted => ?_,
    fun distinct => ?_⟩
  · exact congrArg Prod.fst (World.invoke_of_closed caller closed method payload options)
  · exact (World.invoke_invalid_iff caller opened method payload options).trans
      (CallOptions.defects_ne_nil dated)
  · obtain ⟨-, sound, vacant⟩ :=
      (World.invoke_accepted_iff caller method payload options).mp ⟨a, accepted⟩
    obtain ⟨rfl, books⟩ := World.invoke_books tidy caller accepted
    exact ⟨rfl, vacant, _, options.ttlMillis, books,
      c.validate_request method payload options _ sound, options.toNat_ttlMillis, rfl⟩
  · have ledger : v.Ledger none := World.ledger_after new run fun a ha b hb =>
      distinct a (Nat.lt_succ_of_lt ha) b (Nat.lt_succ_of_lt hb)
    refine ⟨ledger.not_accepted distinct, ?_⟩
    rw [← CallOptions.defects_eq_nil dated]
    exact (World.invoke_accepted_iff caller method payload options).trans
      (and_congr_right fun _ => and_iff_left (ledger.not_pending distinct caller))

/-- A caller that has a call pending refuses one that is too short, and accepts another one. -/
theorem short_call_leaves_no_trace :
    let ids : MessageId.Source := { issue := fun n => .stamped 1 (BitVec.ofNat 74 n) }
    let w : World := { wall := 0, ids := ids }
    let as : List Act := [.command (.addLink ⟨"client", 1, 1, 0⟩), .command (.addCaller 0 false),
      .command (.invoke 0 ⟨"server", 2, 1, 1⟩ none .standard)]
    let v := w.after as
    let short := v.invoke 0 ⟨"server", 2, 1, 1⟩ none ⟨⟨0, 999999⟩, .forCalls, some "secret"⟩
    let long := v.invoke 0 ⟨"server", 2, 1, 1⟩ none ⟨⟨0, 1000000⟩, .forCalls, some "secret"⟩
    w.IsNew ∧ w.CanRun as ∧ v.mint.1.isValid = true ∧ v.mint.2.ids.Distinct ∧
      (∃ detail, short.1 = .error (.invalidArgument detail)) ∧
      short.2 = { v with ids := short.2.ids } ∧
      (∃ a, long.1 = .ok a) ∧ (long.2.pendingOf 0).map (·.id) = [ids.issue 1, ids.issue 0] := by
  intro ids w as v short long
  have new : w.IsNew := ⟨0, ids, rfl⟩
  have run : w.CanRun as := by decide +kernel
  have caller : v.callers.get? 0 = some { Caller.onLink 0 ⟨"client", 1, 1, 0⟩ false with
      pending := [⟨ids.issue 0, 0, 0⟩] } := by decide +kernel
  have dated : v.mint.1.isValid = true := by decide +kernel
  have distinct : v.mint.2.ids.Distinct := by decide +kernel
  obtain ⟨-, invalid, trace, -⟩ := invalid_calls_leave_no_trace new run caller dated
    ⟨"server", 2, 1, 1⟩ none ⟨⟨0, 999999⟩, .forCalls, some "secret"⟩
  obtain ⟨-, -, -, booked, fresh⟩ := invalid_calls_leave_no_trace new run caller dated
    ⟨"server", 2, 1, 1⟩ none ⟨⟨0, 1000000⟩, .forCalls, some "secret"⟩
  obtain ⟨detail, refused⟩ := (invalid rfl).mpr (.inl (by decide))
  obtain ⟨a, accepted⟩ := (fresh distinct).2.mpr ⟨rfl, by decide, by decide⟩
  obtain ⟨hid, -, request, ttl, books, -⟩ := booked a accepted
  refine ⟨new, run, dated, distinct, ⟨detail, refused⟩, trace _ refused, ⟨a, accepted⟩, ?_⟩
  have pending : long.2.pendingOf 0 = [⟨a.id, a.call, v.tasks.next⟩, ⟨ids.issue 0, 0, 0⟩] := by
    rw [World.pendingOf, books.caller]
    rfl
  have next : v.mint.1 = ids.issue 1 := by decide +kernel
  rw [pending, ← next, ← hid]
  rfl

end Switchboard
