import Switchboard.Proofs.Traffic

/-! # No cross-talk between calls

Callers of one entity hear each other's answers, and nothing but the id of the
request tells one answer from the other. An answer that ends a call has just
been delivered to the caller of this call, while the call was pending; from
there it is traced back to the request. Main statement: `no_cross_talk`.
-/

namespace Switchboard

open History

namespace World

variable {w : World}

theorem prompt_invoke {w : World} (h : Prompt w.events) (i : CallerId) (method : Address)
    (payload : Option Payload) (options : CallOptions) :
    Prompt (w.invoke i method payload options).2.events := by
  rcases invoke_cases w i method payload options with ⟨e, he⟩ | ⟨e, he⟩ | ⟨c, m, _, _, _, _, he⟩ <;>
    rw [he]
  · exact h
  · exact h
  · simpa [Prompt] using h

theorem prompt_move {a b : Option TaskId × World} (hm : Move a b) (h : Prompt a.2.events) :
    Prompt b.2.events := by
  cases hm with
  | pass free passes =>
    simp only [proceed_keeps]
    exact h.append passes.quiet.2 _
  | @answered w t i c m id free caller alive answers =>
    rw [recordAll_events]
    refine Prompt.append ?_ (by split <;> simp [isEntry]) _
    simpa [Prompt, answers] using h
  | reply free server replies finish =>
    have hr := h.append replies.quiet.2
    simpa [Prompt, recordAll_events] using hr _
  | mute free server replies finish =>
    have hr := h.append replies.quiet.2
    simpa [recordAll_events] using hr _
  | @enrol w t r u hub free registration =>
    simp only [proceed_keeps]
    refine Prompt.append ?_ (w.onward_quiet t u) _
    simpa [Prompt] using h
  | unlist free unregistration =>
    rename_i after _
    cases after <;> simpa [AfterUnregister.events, Prompt] using h
  | broadcast free accepted =>
    rename_i after
    cases after <;> simpa [AfterSend.events, Prompt] using h
  | @call w v t i method payload options accepted free invoked =>
    have hi := prompt_invoke (w := w) h i method payload options
    rw [invoked] at hi
    exact hi
  | @callRefused w v t i method payload options e free invoked =>
    have hi := prompt_invoke (w := w) h i method payload options
    rw [invoked] at hi
    exact hi
  | _ => simpa [Prompt] using h

theorem prompt_outset {a : Act} {b : Option TaskId × World} (ho : Outset w a b)
    (h : Prompt w.events) : Prompt b.2.events := by
  cases ho with
  | invoke i method payload options owned => exact prompt_invoke h ..
  | fire due next => simpa [World.fire] using h
  | hold e owned => simpa [World.hold] using h
  | drop e side owned => simpa using h
  | _ => exact h

theorem prompt_after {as : List Act} (new : w.IsNew) (run : w.CanRun as) :
    Prompt (w.after as).events := by
  have kept : Kept (fun _ _ => True) fun a => Prompt a.2.events :=
    ⟨fun _ ho _ h => prompt_outset ho h, fun _ hm h => prompt_move hm h⟩
  refine (kept.run run (run.mono fun _ _ _ => trivial) (.new new) ?_).2
  obtain ⟨wall, ids, rfl⟩ := new
  trivial

end World

/-- While the call was pending, a valid answer to it was delivered to its own caller, and it was
this that ended the call. -/
def History.Hears (h : History) (i : CallerId) (id : MessageId) (m : Message) : Prop :=
  ∃ later τ earlier,
    h = later ++ (τ, .ended i id (.answered m)) ::
      (τ, .delivered (.engine (.caller i)) m) :: earlier ∧
    id ∈ awaited i earlier ∧ m.attributes.isResponse = true ∧
    m.attributes.validate = .ok () ∧ m.attributes.requestId = some id

theorem Message.outcome_eq_ok {m : Message} {p : Payload} (h : m.outcome = .ok p) :
    p = m.payload.getD Payload.empty ∧
      (m.attributes.commStatus = none ∨ m.attributes.commStatus = some .ok) := by
  unfold Message.outcome at h
  split at h
  · rename_i code hc
    split at h
    · cases h
    · rename_i hn
      cases h
      exact ⟨rfl, .inr (by simpa [Attributes.hasFailureStatus, hc] using hn)⟩
  · rename_i hc
    cases h
    exact ⟨rfl, .inl hc⟩

theorem Message.outcome_eq_remote {m : Message} {s : Status}
    (h : m.outcome = .error (.remote s)) : m.attributes.commStatus = some s.code ∧
      s.code ≠ .ok ∧ s.message = m.attributes.commMessage.getD "" := by
  unfold Message.outcome at h
  split at h
  · rename_i code hc
    split at h
    · rename_i hn
      cases h
      exact ⟨hc, by simpa [Attributes.hasFailureStatus, hc] using hn, rfl⟩
    · cases h
  · cases h

/-- An outcome that a caller's own link and deadline do not bring was heard. -/
theorem World.hears {w : World} (ledger : w.Ledger none) (prompt : Prompt w.events) {k : CallId}
    {call : Call} (hk : w.calls.get? k = some call) {o : Except Failure Payload}
    (ho : call.outcome = some o) (hl : ∀ timeout, o ≠ .error (.deadlineExceeded timeout))
    (hr : ∀ s, o ≠ .error (.sendFailed s)) :
    ∃ m, History.Hears w.events call.caller call.id m ∧ o = m.outcome := by
  have he := (ledger.outcomes k call hk).2
  rw [ho, eq_comm, Option.map_eq_some_iff] at he
  obtain ⟨cause, he, rfl⟩ := he
  cases cause with
  | lapsed timeout => exact absurd rfl (hl timeout)
  | refused s => exact absurd rfl (hr s)
  | answered m =>
    obtain ⟨later, τ, earlier, hs, ha⟩ := ending?_split he
    rw [hs] at prompt
    obtain ⟨hm, hd⟩ := prompt.split
    refine ⟨m, ⟨later, τ, earlier.tail, ?_, ?_, Message.answers?_eq_some hm⟩, rfl⟩
    · rw [hs]
      cases earlier with
      | nil => cases hd
      | cons e earlier =>
        cases hd
        rfl
    · cases earlier with
      | nil => cases hd
      | cons e earlier =>
        cases hd
        exact ha

/-- **There is no cross-talk between calls.** A call that ends with a payload or with a status of
the other side has it from a valid answer to this very call, delivered to its own caller while the
call was pending. If nothing answers but servers, and nobody else makes requests under the ids of
calls, that answer was made by a server for the one request that the call has sent. -/
theorem no_cross_talk {w : World} {as : List Act} (new : w.IsNew) (run : w.CanRun as)
    (distinct : (w.after as).ids.Distinct) :
    let v := w.after as
    (∀ k call, v.calls.get? k = some call →
      (∀ p, call.outcome = some (.ok p) → ∃ m, History.Hears v.events call.caller call.id m ∧
        p = m.payload.getD Payload.empty ∧
        (m.attributes.commStatus = none ∨ m.attributes.commStatus = some .ok)) ∧
      (∀ s, call.outcome = some (.error (.remote s)) →
        ∃ m, History.Hears v.events call.caller call.id m ∧
          m.attributes.commStatus = some s.code ∧ s.code ≠ .ok ∧
          s.message = m.attributes.commMessage.getD "")) ∧
    (Along (fun u a => a.Respects v.ids.HasIssued u) w as →
      ∀ i id m, History.Hears v.events i id m →
        ∃ s r p, v.Has (.answered s r m) ∧ m.IsAnswerTo r ∧
          v.Has (.delivered (.engine (.server s)) r) ∧
          v.seat? (.caller i) = some p ∧ v.Has (.sent p.link r) ∧
          r.attributes.isRequest = true ∧ r.attributes.id = some id ∧
          ∀ l r', v.Has (.sent l r') → r'.attributes.isRequest = true →
            r'.attributes.id = some id → r' = r) := by
  intro v
  have ledger := World.ledger_after new run distinct
  have prompt := World.prompt_after new run
  refine ⟨fun k call hk => ⟨fun p ho => ?_, fun s ho => ?_⟩, fun respects i id m hears => ?_⟩
  · obtain ⟨m, hm, he⟩ := World.hears ledger prompt hk ho (by simp) (by simp)
    exact ⟨m, hm, Message.outcome_eq_ok he.symm⟩
  · obtain ⟨m, hm, he⟩ := World.hears ledger prompt hk ho (by simp) (by simp)
    exact ⟨m, hm, Message.outcome_eq_remote he.symm⟩
  · have traffic := World.traffic_after new run respects distinct
    obtain ⟨later, τ, earlier, hs, ha, hm, _, hmid⟩ := hears
    -- the call was accepted, so its id is one of those that were issued
    have hsuf : earlier <:+ v.events := by
      rw [hs]
      exact ((List.suffix_cons ..).trans (List.suffix_cons ..)).trans (List.suffix_append ..)
    have hacc := accepted_suffix hsuf (List.mem_filter.mp ha).1
    have hF := ledger.issued i id hacc
    have heard : v.Has (.delivered (.engine (.caller i)) m) := ⟨τ, by rw [hs]; simp⟩
    obtain ⟨s, r, hans⟩ := World.Genuine.response (traffic.events _ heard) hm id hmid hF
    obtain ⟨hr, _, hrid, hmade, hg, hd⟩ := traffic.events _ hans
    rw [hmid, eq_comm] at hrid
    obtain ⟨i', p, hp, hacc', hsent⟩ := hg.request hr id hrid hF
    cases ledger.sole i i' id hacc hacc'
    refine ⟨s, r, p, hans, hmade, hd, hp, hsent, hr, hrid, fun l r' hl hr' hid' => ?_⟩
    exact traffic.sole r' r ⟨hr', .inl ⟨l, hl⟩⟩ ⟨hr, .inl ⟨p.link, hsent⟩⟩ id hF hid' hrid

/-- Two callers of one entity hear each other's answers, and each call ends with its own. -/
theorem no_cross_talk_on_one_entity :
    let ids : MessageId.Source := { issue := fun n => .stamped 1 (BitVec.ofNat 74 n) }
    let method : Address := ⟨"server", 2, 1, 1⟩
    let echo : Handler := ⟨0, 0, fun m => .returned m.payload⟩
    let w : World := { wall := 0, ids := ids }
    let as : List Act := [.command (.addLink ⟨"server", 2, 1, 0⟩), .command (.addServer 0),
      .command (.enter (.serve 0 method echo)), .command (.addLink ⟨"client", 1, 1, 0⟩),
      .command (.addCaller 1 false), .command (.addCaller 1 false),
      .command (.invoke 0 method (some (.ofText "a")) .standard),
      .command (.invoke 1 method (some (.ofText "b")) .standard),
      .turn 2, .turn 4, .turn 6, .turn 5, .turn 7, .turn 9]
    w.IsNew ∧ w.CanRun as ∧ (w.after as).ids.Distinct ∧
      Along (fun u a => a.Respects (w.after as).ids.HasIssued u) w as ∧
      ∃ call, (w.after as).calls.get? 0 = some call ∧ call.outcome = some (.ok (.ofText "a")) ∧
        ∃ m s r p, History.Hears (w.after as).events call.caller call.id m ∧
          (w.after as).Has (.answered s r m) ∧
          (w.after as).seat? (.caller call.caller) = some p ∧
          (w.after as).Has (.sent p.link r) := by
  intro ids method echo w as
  have new : w.IsNew := ⟨0, ids, rfl⟩
  have run : w.CanRun as := by decide +kernel
  have distinct : (w.after as).ids.Distinct := by
    have hn : (w.after as).ids.issued = 4 := by decide +kernel
    have hd : ∀ a < 4, ∀ b < 4, (w.after as).ids.issue a = (w.after as).ids.issue b → a = b := by
      decide +kernel
    unfold MessageId.Source.Distinct
    rwa [hn]
  have respects : Along (fun u a => a.Respects (w.after as).ids.HasIssued u) w as := by
    have hn : ∀ a ∈ as, a.message? = none := by decide +kernel
    refine Along.of_forall fun a ha u m hm => ?_
    rw [hn a ha] at hm
    cases hm
  have place : (((w.after as).calls.get? 0).bind (·.outcome)).bind Except.toOption =
      some (.ofText "a") := by decide +kernel
  obtain ⟨o, ho, hp⟩ := Option.bind_eq_some_iff.mp place
  obtain ⟨call, hk, ho⟩ := Option.bind_eq_some_iff.mp ho
  have ho : call.outcome = some (.ok (.ofText "a")) := by
    cases o <;> cases hp
    exact ho
  have key := no_cross_talk new run distinct
  obtain ⟨m, hears, _⟩ := (key.1 0 call hk).1 _ ho
  obtain ⟨s, r, p, hans, _, _, hseat, hsent, _⟩ := key.2 respects _ _ m hears
  exact ⟨new, run, distinct, respects, call, hk, ho, m, s, r, p, hears, hans, hseat, hsent⟩

end Switchboard
