import Switchboard.Proofs.Deeds
import Switchboard.Proofs.Enrolments
import Switchboard.Proofs.Traffic

/-! # A request is handled at most once

If requests come from callers alone, one task has the request of a call until it is sent, and it is
sent once: the hub starts one delivery for each registration, a server has one registration at most,
and a delivery enters one handler at most. A task that is refused its listener or its link has not
sent the request, and nobody else will. Main statement: `handled_at_most_once`.
-/

namespace Switchboard

open World

variable {id : MessageId}

/-- The task is still to send the request of the id. -/
inductive Job.Sends (id : MessageId) : Job → Prop
  | ask (j : Job) (i : CallerId) (x : MessageId) (m : Message)
      (use : j.use? = some (.request i x m)) (requests : m.Requests id) : Sends id j
  | send (l : LinkId) (m : Message) (after : AfterSend) (requests : m.Requests id) :
    Sends id (.send l m after)

theorem Job.Sends.of_send {l : LinkId} {m : Message} {after : AfterSend}
    (h : (Job.send l m after).Sends id) : m.Requests id := by
  cases h with
  | ask _ _ _ _ use => cases use
  | send _ _ _ requests => exact requests

theorem Job.not_sends {j : Job} (use : ∀ i x m, j.use? ≠ some (.request i x m))
    (other : ∀ l m after, j ≠ .send l m after) : ¬j.Sends id := by
  intro h
  cases h with
  | ask _ i x m use' => exact use i x m use'
  | send l m after => exact other l m after rfl

/-- The task has the request of the id from the hub. -/
inductive Job.Bears (id : MessageId) : Job → Prop
  | delivery (l : Listener) (m : Message) (requests : m.Requests id) : Bears id (.deliver l m)
  | handling (s : ServerId) (h : Handler) (m : Message) (requests : m.Requests id) :
    Bears id (.handle s h m)

/-- The event shows that the request of the id has been delivered. -/
inductive Event.Shows (id : MessageId) : Event → Prop
  | delivered (l : Listener) (m : Message) (requests : m.Requests id) : Shows id (.delivered l m)
  | handled (s : ServerId) (key : Nat) (m : Message) (requests : m.Requests id) :
    Shows id (.handled s key m)

/-- What a task sends for a call is the request of the call, and no operation sends a request. -/
structure Job.Loyal (j : Job) : Prop where
  asks : ∀ i x m, j.use? = some (.request i x m) → m.Requests x
  sends : ∀ l m i x, j = .send l m (.request i x) → m.Requests x
  starts : ∀ l m, j = .start (.send l m) → m.attributes.isRequest = false

/-- The job makes a call under the id, which is a fresh one. -/
def Job.Calls (w : World) (id : MessageId) (j : Job) : Prop :=
  id = w.mint.1 ∧ ∃ i method payload options, j = .start (.call i method (.ok payload) options) ∧
    (w.invoke i method payload options).2.ids = w.mint.2.ids

section

variable {w : World} {t : TaskId} {j j' : Job}

theorem Leads.loyal (h : Leads w t j j') (loyal : j.Loyal) : j'.Loyal := by
  have silent : (∀ i x m, j'.use? ≠ some (.request i x m)) →
      (∀ l m i x, j' ≠ .send l m (.request i x)) → (∀ l m, j' ≠ .start (.send l m)) →
      j'.Loyal := fun use send start =>
    ⟨fun i x m he => absurd he (use i x m), fun l m i x he => absurd he (send l m i x),
      fun l m he => absurd he (start l m)⟩
  cases h with
  | request j i c x m use caller listening =>
    refine ⟨by simp [Job.use?], fun l m' i' x' he => ?_, by simp⟩
    cases he
    exact loyal.asks i x m use
  | attempt j u p use seat =>
    refine ⟨fun i x m he => loyal.asks i x m (use.trans he), by simp, by simp⟩
  | wait u => exact ⟨fun i x m he => loyal.asks i x m he, by simp, by simp⟩
  | call i c method payload options m caller finish minted =>
    obtain ⟨request, identified, -⟩ := Caller.finish_draft finish
    refine ⟨fun i' x m' he => ?_, by simp, by simp⟩
    cases he
    exact ⟨request, identified⟩
  | _ => exact silent (by simp [Job.use?]) (by simp) (by simp)

/-- The task of a call that is made is to send the request of this call. -/
theorem Job.Sends.eq_mint {i : CallerId} {c : Caller} {method : Address} {options : CallOptions}
    {payload : Option Payload} {m : Message} (finish :
      (c.draft method options w.mint.1).finish w.mint.1 payload = .ok m)
    (sends : (Job.prepare (.request i w.mint.1 m)).Sends id) : id = w.mint.1 := by
  cases sends with
  | ask _ _ _ _ use requests =>
    cases use
    have identified := (Caller.finish_draft finish).2.1
    rw [requests.2] at identified
    exact Option.some.inj identified

/-- Whoever is to send the request was to send it before, or makes the call. -/
theorem Leads.sends (h : Leads w t j j') (loyal : j.Loyal) (sends : j'.Sends id) :
    j.Sends id ∨ j.Calls w id := by
  cases h with
  | request j i c x m use caller listening => exact .inl (.ask j i x m use sends.of_send)
  | attempt j u p use seat =>
    cases sends with
    | ask _ i x m use' requests => exact .inl (.ask j i x m (use.trans use') requests)
  | wait u =>
    cases sends with
    | ask _ i x m use' requests => exact .inl (.ask _ i x m use' requests)
  | startSend l m => exact absurd sends.of_send.1 (by simp [loyal.starts l m rfl])
  | reply s v m a j es draft payload server replies finish =>
    have response := (replies.finish finish).1
    rw [sends.of_send.not_response] at response
    cases response
  | post o l resource draft payload options topic m posting finish =>
    have other := (Operation.finish_posting posting finish).2
    rw [sends.of_send.1] at other
    cases other
  | call i c method payload options m caller finish minted =>
    exact .inr ⟨sends.eq_mint finish, i, method, payload, options, rfl, minted⟩
  | _ => exact absurd sends (Job.not_sends (by simp [Job.use?]) (by simp))

/-- Only a call brings another task that is to send a request. -/
theorem Leads.begins_sends (h : Leads w t j j') (begins : j'.begins = true)
    (sends : j'.Sends id) : j.Calls w id := by
  cases h with
  | call i c method payload options m caller finish minted =>
    exact ⟨sends.eq_mint finish, i, method, payload, options, rfl, minted⟩
  | broadcast l m after listener accepted recipient =>
    exact absurd sends (Job.not_sends (by simp [Job.use?]) (by simp))
  | addHandler s v method h server vacant =>
    exact absurd sends (Job.not_sends (by simp [Job.use?]) (by simp))
  | deadline i method payload options =>
    exact absurd sends (Job.not_sends (by simp [Job.use?]) (by simp))
  | _ => cases begins

/-- Whoever has the request from the hub had it before, or has it from the task that sent it. -/
theorem Leads.bears (h : Leads w t j j') (bears : j'.Bears id) :
    j.Bears id ∨ ∃ l m after, j = .send l m after ∧ m.Requests id := by
  cases h with
  | served s v hd m server alive judged =>
    cases bears with
    | handling _ _ _ requests => exact .inl (.delivery _ m requests)
  | broadcast l m after listener accepted recipient =>
    cases bears with
    | delivery _ _ requests => exact .inr ⟨l, m, after, rfl, requests⟩
  | _ => cases bears

theorem Event.Shows.bears {e : Event} (h : e.Shows id) (stems : Stems e j) : j.Bears id := by
  cases h with
  | delivered l m requests =>
    cases stems
    exact .delivery l m requests
  | handled s key m requests =>
    cases stems
    exact .delivery _ m requests

end

/-! ## How far the request is -/

namespace World

variable {w v : World} {a b : Option TaskId × World} {k : TaskId} {s : ServerId}

def Sender (w : World) (id : MessageId) (k : TaskId) : Prop :=
  ∃ x, w.tasks.get? k = some x ∧ x.job.Sends id

/-- The task is to deliver the request to the server. -/
def Copy (w : World) (id : MessageId) (s : ServerId) (k : TaskId) : Prop :=
  ∃ x m, w.tasks.get? k = some x ∧ x.job = .deliver (.engine (.server s)) m ∧ m.Requests id

/-- The task of the call was refused its listener or its link. -/
def Refused (w : World) (id : MessageId) : Prop :=
  ∃ i s, w.Has (.ended i id (.refused s))

/-- How often the server has entered a handler with a request of the id. -/
def entries (w : World) (s : ServerId) (id : MessageId) : Nat :=
  (w.events.map (·.2)).countP (Event.entersWith s id)

/-- The request has not been sent, and at most one task is to send it; none, once it was refused. -/
structure Unsent (w : World) (id : MessageId) : Prop where
  jobs : ∀ j, w.HasJob j → ¬j.Bears id
  events : ∀ e, w.Has e → ¬e.Shows id
  sole : ∀ k k', w.Sender id k → w.Sender id k' → k = k'
  refused : w.Refused id → ∀ k, ¬w.Sender id k
  issued : (∃ k, w.Sender id k) ∨ w.Refused id → w.ids.HasIssued id

/-- The request has been sent, and each server has one delivery of it under way, or has entered one
handler with it, or neither. -/
structure Sent (w : World) (id : MessageId) : Prop where
  idle : ∀ k, ¬w.Sender id k
  unrefused : ¬w.Refused id
  issued : w.ids.HasIssued id
  sole : ∀ s k k', w.Copy id s k → w.Copy id s k' → k = k'
  fresh : ∀ s k, w.Copy id s k → w.entries s id = 0
  once : ∀ s, w.entries s id ≤ 1

theorem not_issued_mint (distinct : w.mint.2.ids.Distinct) : ¬w.ids.HasIssued w.mint.1 := by
  intro hx
  obtain ⟨n, hn, he⟩ := hx
  have same : n = w.ids.issued :=
    distinct n (Nat.lt_succ_of_lt hn) w.ids.issued (Nat.lt_succ_self _) he
  exact Nat.lt_irrefl _ (same ▸ hn)

theorem issued_mint (w : World) : w.mint.2.ids.HasIssued w.mint.1 :=
  ⟨w.ids.issued, Nat.lt_succ_self _, rfl⟩

theorem invoke_sends {i : CallerId} {method : Address} {payload : Option Payload}
    {options : CallOptions} {x : Task}
    (task : (w.invoke i method payload options).2.tasks.get? k = some x)
    (sends : x.job.Sends id) : w.tasks.get? k = some x ∨ k = w.tasks.next + 1 ∧
      id = w.mint.1 ∧ (w.invoke i method payload options).2.ids = w.mint.2.ids := by
  rcases invoke_cases w i method payload options with
    ⟨e, he⟩ | ⟨e, he⟩ | ⟨c, m, -, -, finish, -, he⟩
  · rw [he] at task
    exact .inl task
  · rw [he] at task
    exact .inl task
  · have minted : (w.invoke i method payload options).2.ids = w.mint.2.ids := by simp [he]
    rw [he] at task
    simp only [accept_keeps, Table.get?_insert, Table.insert_next, mint_keeps] at task
    split at task
    · rename_i hk
      cases task
      exact .inr ⟨hk, sends.eq_mint finish, minted⟩
    · split at task
      · cases task
        exact absurd sends (Job.not_sends (by simp [Job.use?]) (by simp))
      · exact .inl task

/-- The key is that of the second new task of the later world, and the id is one of its new ids. -/
structure Anew (w v : World) (id : MessageId) (k : TaskId) : Prop where
  key : k = w.tasks.next + 1
  unissued : ¬w.ids.HasIssued id
  issued : v.ids.HasIssued id

/-- The request of a call that has just been made is to be sent by a new task. -/
theorem anew_of_invoke (tidy : w.Tidy) {i : CallerId} {method : Address}
    {payload : Option Payload} {options : CallOptions} {x : Task} (hge : w.tasks.next ≤ k)
    (task : (w.invoke i method payload options).2.tasks.get? k = some x)
    (sends : x.job.Sends id)
    (distinct : (w.invoke i method payload options).2.ids.Distinct) :
    w.Anew (w.invoke i method payload options).2 id k := by
  rcases invoke_sends task sends with old | ⟨key, hid, minted⟩
  · exact absurd (tidy.tasks.lt old) (Nat.not_lt.mpr hge)
  · rw [minted] at distinct
    exact ⟨key, hid ▸ not_issued_mint distinct, by rw [minted, hid]; exact w.issued_mint⟩

end World

open World

/-! ## One move -/

section

variable {a b : Option TaskId × World} {k : TaskId} {s : ServerId}

/-- A new task that is to send a request is that of a call that has just been made. -/
theorem Move.anew (hm : Move a b) (tidy : a.2.Tidy) (distinct : b.2.ids.Distinct) {x : Task}
    (task : b.2.tasks.get? k = some x) (sends : x.job.Sends id) (hge : a.2.tasks.next ≤ k) :
    a.2.Anew b.2 id k := by
  rcases hm.lineage tidy task with ⟨y, hy, -⟩ | ⟨w, j, rfl, -, -⟩ | ⟨-, begins, new⟩
  · exact absurd (tidy.tasks.lt hy) (Nat.not_lt.mpr hge)
  · exact absurd tidy.lt (Nat.not_lt.mpr hge)
  · rcases new with ⟨w, t, j, ha, leads⟩ | ⟨e, p, -, -, -, -, withdraw⟩
    · obtain ⟨-, i, me, pl, op, rfl, -⟩ := leads.begins_sends begins sends
      obtain ⟨u, rfl, -, ⟨acc, v, invoked, rfl⟩ | ⟨e, v, invoked, rfl⟩⟩ := hm.calling ha
      · have hv : v = (u.invoke i me pl op).2 := by rw [invoked]
        subst hv
        have other : k ≠ t := Nat.ne_of_gt (Nat.lt_of_lt_of_le tidy.lt hge)
        have task : (u.invoke i me pl op).2.tasks.get? k = some x := by simpa [other] using task
        have new := anew_of_invoke tidy.unpark hge task sends distinct
        exact ⟨new.key, new.unissued, new.issued⟩
      · have hv : v = (u.invoke i me pl op).2 := by rw [invoked]
        subst hv
        have new := anew_of_invoke tidy.unpark hge task sends distinct
        exact ⟨new.key, new.unissued, new.issued⟩
    · rw [withdraw] at sends
      exact absurd sends (Job.not_sends (by simp [Job.use?]) (by simp))

/-- A task that makes a call waits for its outcome, if it goes on. -/
theorem Move.awaits (hm : Move a b) (tidy : a.2.Tidy) {w : World} {i : CallerId}
    {method : Address} {payload : Option Payload} {options : CallOptions} {x : Task}
    (ha : a = (some k, w.park k (.start (.call i method (.ok payload) options))))
    (task : b.2.tasks.get? k = some x) : ∃ c held, x.job = .await c held := by
  obtain ⟨u, hu, free, ⟨acc, v, invoked, rfl⟩ | ⟨e, v, invoked, rfl⟩⟩ := hm.calling ha
  · rw [park_self] at task
    cases task
    exact ⟨_, _, rfl⟩
  · have task : v.tasks.get? k = some x := task
    have gone := invoke_free free (hu ▸ tidy).lt i method payload options
    rw [invoked, task] at gone
    cases gone

/-- Whoever is to send the request after a move was to send it before, or the call has just been
made. -/
theorem Move.sender (hm : Move a b) (tidy : a.2.Tidy) (loyal : ∀ j, a.2.HasJob j → j.Loyal)
    (distinct : b.2.ids.Distinct) (sender : b.2.Sender id k) :
    a.2.Sender id k ∨ a.2.Anew b.2 id k := by
  obtain ⟨x, task, sends⟩ := sender
  rcases hm.lineage tidy task with ⟨y, hy, same⟩ | ⟨w, j, rfl, leads, -⟩ | ⟨hge, -⟩
  · exact .inl ⟨y, hy, same ▸ sends⟩
  · rcases leads.sends (loyal j (hasJob_park w k j)) sends with old | ⟨-, i, me, pl, op, rfl, -⟩
    · exact .inl ⟨_, park_self w k j, old⟩
    · obtain ⟨c, held, job⟩ := hm.awaits tidy rfl task
      rw [job] at sends
      exact absurd sends (Job.not_sends (by simp [Job.use?]) (by simp))
  · exact .inr (hm.anew tidy distinct task sends hge)

/-- In the move the hub is given the request. -/
def Move.Spreads (id : MessageId) (a b : Option TaskId × World) : Prop :=
  ∃ (w : World) (t : TaskId) (l : LinkId) (m : Message) (after : AfterSend),
    a = (some t, w.park t (.send l m after)) ∧ w.tasks.get? t = none ∧ m.Requests id ∧
      b = (none, (w.broadcast m).recordAll (after.events t (.ok ())))

/-- The request is with a task from the hub only if it was so before the move, or if the hub has
just been given it. -/
theorem Move.bears (hm : Move a b) (tidy : a.2.Tidy) {j' : Job} (hj : b.2.HasJob j')
    (bears : j'.Bears id) : (∃ j, a.2.HasJob j ∧ j.Bears id) ∨ Move.Spreads id a b := by
  rcases hm.leads tidy hj with old | ⟨w, t, j, rfl, leads⟩ | ⟨e, p, -, -, -, -, rfl⟩
  · exact .inl ⟨j', old, bears⟩
  · rcases leads.bears bears with before | ⟨l, m, after, rfl, requests⟩
    · exact .inl ⟨j, hasJob_park w t j, before⟩
    · obtain ⟨u, hu, free, sent⟩ := hm.sending rfl
      have kept : u.HasJob j' → ∃ j, (w.park t (.send l m after)).HasJob j ∧ j.Bears id :=
        fun old => ⟨j', (Prod.mk.inj hu).2 ▸ old.of_sub ((Table.Sub.refl _).set free _), bears⟩
      cases sent with
      | waits =>
        rcases hj.of_set (sleep_tasks ..) with rfl | old
        · cases bears
        · exact .inl (kept old)
      | refused refusal other => exact .inl (kept (hj.of_same (recordAll_tasks ..)))
      | ended refusal => exact .inl (kept hj.of_complete)
      | passed accepts => exact .inr ⟨u, t, l, m, _, hu, free, requests, rfl⟩
  · cases bears

/-- A listener or a handler has been given the request only if it had been before the move, or if a
task had it from the hub. -/
theorem Move.shows (hm : Move a b) {e : Event} (has : b.2.Has e) (shows : e.Shows id) :
    a.2.Has e ∨ ∃ j, a.2.HasJob j ∧ j.Bears id := by
  obtain ⟨es, events, -, deeds⟩ := hm.deeds
  obtain ⟨τ, he⟩ := has
  rw [events, List.mem_append] at he
  rcases he with he | he
  · have marks : e.marks = true := by cases shows <;> rfl
    obtain ⟨w, t, j, rfl, stems, -⟩ := deeds _ he marks
    exact .inr ⟨j, hasJob_park w t j, shows.bears stems⟩
  · exact .inl ⟨τ, he⟩

/-- Who is refused was to send the request, and is gone. -/
theorem Move.refusal (hm : Move a b) (loyal : ∀ j, a.2.HasJob j → j.Loyal)
    (refused : b.2.Refused id) :
    a.2.Refused id ∨ ∃ t, a.2.Sender id t ∧ b.2.tasks.get? t = none := by
  obtain ⟨es, events, -, deeds⟩ := hm.deeds
  obtain ⟨i, s, τ, he⟩ := refused
  rw [events, List.mem_append] at he
  rcases he with he | he
  · obtain ⟨w, t, j, rfl, stems, gone⟩ := deeds _ he rfl
    have loyal := loyal j (hasJob_park w t j)
    refine .inr ⟨t, ⟨_, park_self w t j, ?_⟩, gone rfl⟩
    cases stems with
    | unheard _ _ m _ _ use => exact .ask j i id m use (loyal.asks i id m use)
    | unsent _ _ l m _ => exact .send l m _ (loyal.sends l m i id rfl)
  · exact .inl ⟨i, s, τ, he⟩

/-- A delivery that is under way after a move was so before, or the hub has just been given the
message by its sender. -/
theorem Move.copy (hm : Move a b) (tidy : a.2.Tidy) (copy : b.2.Copy id s k) :
    a.2.Copy id s k ∨ ∃ t, a.2.Sender id t := by
  obtain ⟨x, m, task, job, requests⟩ := copy
  rcases hm.lineage tidy task with ⟨y, hy, same⟩ | ⟨w, j, -, -, other⟩ | ⟨-, -, new⟩
  · exact .inl ⟨y, m, hy, same ▸ job, requests⟩
  · exact absurd job (other _ m)
  · rw [job] at new
    rcases new with ⟨w, t, j, rfl, leads⟩ | ⟨e, p, -, -, -, -, withdraw⟩
    · cases leads with
      | broadcast l m after listener accepted recipient =>
        exact .inr ⟨t, _, park_self w t _, .send l m after requests⟩
    · cases withdraw

/-- A server enters a handler with the request at most once in a move, and then it is by a delivery
that is over. -/
theorem Move.entries (hm : Move a b) (s : ServerId) (id : MessageId) :
    b.2.entries s id = a.2.entries s id ∨ b.2.entries s id = a.2.entries s id + 1 ∧
      ∃ k, a.2.Copy id s k ∧ ¬b.2.Copy id s k := by
  obtain ⟨es, events, few, deeds⟩ := hm.deeds
  have sum : b.2.entries s id =
      (es.map (·.2)).countP (Event.entersWith s id) + a.2.entries s id := by
    rw [World.entries, events, List.map_append, List.countP_append]
    rfl
  rcases Nat.eq_zero_or_pos ((es.map (·.2)).countP (Event.entersWith s id)) with none | some
  · exact .inl (by rw [sum, none, Nat.zero_add])
  · have most : (es.map (·.2)).countP (Event.entersWith s id) ≤
        (es.map (·.2)).countP Event.enters := by
      refine List.countP_mono_left fun e _ he => ?_
      cases e with
      | handled s' key m => rfl
      | _ => cases he
    obtain ⟨e, he, enters⟩ := List.countP_pos_iff.mp some
    obtain ⟨entry, listed, rfl⟩ := List.mem_map.mp he
    obtain ⟨τ, e⟩ := entry
    refine .inr ⟨by omega, ?_⟩
    cases e with
    | handled s' key m =>
      simp only [Event.entersWith, Bool.and_eq_true, beq_iff_eq] at enters
      obtain ⟨⟨rfl, request⟩, identified⟩ := enters
      obtain ⟨w, t, j, rfl, stems, -⟩ := deeds _ listed rfl
      cases stems
      refine ⟨t, ⟨_, m, park_self w t _, rfl, request, identified⟩, fun copy => ?_⟩
      obtain ⟨x, m', task, job, -⟩ := copy
      exact hm.delivers rfl task _ m' job
    | _ => cases enters

namespace World

/-- Nobody has entered a handler with a request that nobody has been given. -/
theorem entries_eq_zero {w : World} (events : ∀ e, w.Has e → ¬e.Shows id) (s : ServerId) :
    w.entries s id = 0 := by
  refine List.countP_eq_zero.mpr fun e he enters => ?_
  obtain ⟨entry, listed, rfl⟩ := List.mem_map.mp he
  obtain ⟨τ, e⟩ := entry
  cases e with
  | handled s' key m =>
    simp only [Event.entersWith, Bool.and_eq_true, beq_iff_eq] at enters
    exact events _ ⟨τ, listed⟩ (.handled s' key m ⟨enters.1.2, enters.2⟩)
  | _ => cases enters

/-- What a step does about the request, apart from giving it to the hub. -/
structure Treats (w v : World) (id : MessageId) : Prop where
  issued : w.ids.HasIssued id → v.ids.HasIssued id
  sender : ∀ k, v.Sender id k → w.Sender id k ∨ w.Anew v id k
  refused : v.Refused id → w.Refused id ∨ ∃ t, w.Sender id t ∧ v.tasks.get? t = none
  events : ∀ e, v.Has e → e.Shows id → w.Has e ∨ ∃ j, w.HasJob j ∧ j.Bears id
  copy : ∀ s k, v.Copy id s k → w.Copy id s k ∨ ∃ t, w.Sender id t
  entries : ∀ s, v.entries s id = w.entries s id ∨ v.entries s id = w.entries s id + 1 ∧
    ∃ k, w.Copy id s k ∧ ¬v.Copy id s k

theorem Treats.move (hm : Move a b) (tidy : a.2.Tidy) (loyal : ∀ j, a.2.HasJob j → j.Loyal)
    (distinct : b.2.ids.Distinct) : a.2.Treats b.2 id where
  issued := hm.grows.hasIssued
  sender _ := hm.sender tidy loyal distinct
  refused := hm.refusal loyal
  events _ := hm.shows
  copy _ _ := hm.copy tidy
  entries s := hm.entries s id

variable {w v : World}

/-- As long as the hub is not given the request it stays unsent. -/
theorem Unsent.treat (h : w.Unsent id) (treats : w.Treats v id)
    (jobs : ∀ j', v.HasJob j' → j'.Bears id → ∃ j, w.HasJob j ∧ j.Bears id) : v.Unsent id := by
  -- whoever was known to send the request, or was refused, excludes that the id is new
  have old : (∃ k, w.Sender id k) ∨ w.Refused id → ∀ k, v.Sender id k → w.Sender id k :=
    fun known k hk => (treats.sender k hk).resolve_right fun new => new.unissued (h.issued known)
  refine ⟨fun j' hj bears => ?_, fun e he shows => ?_, fun k k' hk hk' => ?_, fun hx k hk => ?_,
    fun hx => ?_⟩
  · obtain ⟨j, hj, bears⟩ := jobs j' hj bears
    exact h.jobs j hj bears
  · rcases treats.events e he shows with old | ⟨j, hj, bears⟩
    · exact h.events e old shows
    · exact h.jobs j hj bears
  · rcases treats.sender k hk with before | new
    · exact h.sole k k' before (old (.inl ⟨k, before⟩) k' hk')
    · rcases treats.sender k' hk' with before' | new'
      · exact h.sole k k' (old (.inl ⟨k', before'⟩) k hk) before'
      · exact new.key.trans new'.key.symm
  · rcases treats.refused hx with before | ⟨t, ht, gone⟩
    · exact h.refused before k (old (.inr before) k hk)
    · -- the task that was refused was the only one
      have same := h.sole k t (old (.inl ⟨t, ht⟩) k hk) ht
      obtain ⟨x, task, -⟩ := hk
      rw [same, gone] at task
      cases task
  · rcases hx with ⟨k, hk⟩ | hx
    · rcases treats.sender k hk with before | new
      · exact treats.issued (h.issued (.inl ⟨k, before⟩))
      · exact new.issued
    · rcases treats.refused hx with before | ⟨t, ht, -⟩
      · exact treats.issued (h.issued (.inr before))
      · exact treats.issued (h.issued (.inl ⟨t, ht⟩))

/-- A request that has been sent is not sent again, and its deliveries come to their ends. -/
theorem Sent.treat (h : w.Sent id) (treats : w.Treats v id) : v.Sent id := by
  have copies : ∀ s k, v.Copy id s k → w.Copy id s k := by
    intro s k copy
    refine (treats.copy s k copy).resolve_right fun hx => ?_
    obtain ⟨t, ht⟩ := hx
    exact h.idle t ht
  refine ⟨fun k hk => ?_, fun hx => ?_, treats.issued h.issued, fun s k k' hk hk' => ?_,
    fun s k copy => ?_, fun s => ?_⟩
  · rcases treats.sender k hk with old | new
    · exact h.idle k old
    · exact new.unissued h.issued
  · rcases treats.refused hx with old | ⟨t, ht, -⟩
    · exact h.unrefused old
    · exact h.idle t ht
  · exact h.sole s k k' (copies s k hk) (copies s k' hk')
  · have fresh := h.fresh s k (copies s k copy)
    rcases treats.entries s with same | ⟨-, k', before, gone⟩
    · rw [same, fresh]
    · rw [h.sole s k' k before (copies s k copy)] at gone
      exact absurd copy gone
  · rcases treats.entries s with same | ⟨more, k', before, -⟩
    · rw [same]
      exact h.once s
    · exact Nat.le_of_eq (by rw [more, h.fresh s k' before])

/-! ## The hub passes the request on -/

/-- An engine is given a message once. -/
theorem Enrolled.recipients_sole {w : World} (h : w.Enrolled) {m : Message} {e : EngineId}
    {n n' : Nat} (hn : (w.hub.recipients m)[n]? = some (.engine e))
    (hn' : (w.hub.recipients m)[n']? = some (.engine e)) : n = n' := by
  rw [Hub.recipients, List.getElem?_map] at hn hn'
  obtain ⟨r, hr, own⟩ := Option.map_eq_some_iff.mp hn
  obtain ⟨r', hr', own'⟩ := Option.map_eq_some_iff.mp hn'
  have listed := (List.mem_filter.mp (List.mem_of_getElem? hr)).1
  have listed' := (List.mem_filter.mp (List.mem_of_getElem? hr')).1
  have same := h.sole listed listed' own own'
  have bound : n < (w.hub.registrations.filter (·.accepts m)).length :=
    (List.getElem?_eq_some_iff.mp hr).1
  exact (List.getElem?_inj bound (h.nodup.filter _)).mp (by rw [hr, hr', same])

/-- The hub gives each server the request once, and whoever was to send it is done. -/
theorem Unsent.spread (h : a.2.Unsent id) (tidy : a.2.Tidy) (enrolled : a.2.Enrolled)
    (spreads : Move.Spreads id a b) : b.2.Sent id := by
  obtain ⟨w, t, l, m, after, rfl, free, requests, rfl⟩ := spreads
  have sender : (w.park t (.send l m after)).Sender id t :=
    ⟨_, park_self w t _, .send l m after requests⟩
  have old : ∀ {k x}, w.tasks.get? k = some x →
      (w.park t (.send l m after)).tasks.get? k = some x :=
    fun task => (Table.Sub.refl _).set free _ _ _ task
  have ids : ((w.broadcast m).recordAll (after.events t (.ok ()))).ids = w.ids := by simp
  have tasks : ((w.broadcast m).recordAll (after.events t (.ok ()))).tasks =
      (w.broadcast m).tasks := by simp
  have events : ∀ e, ((w.broadcast m).recordAll (after.events t (.ok ()))).Has e →
      w.Has e ∨ ∃ r, e = .finished t r := by
    intro e he
    rcases has_recordAll.mp he with new | old
    · cases after with
      | report p => exact .inr ⟨_, by simpa [AfterSend.events] using new⟩
      | _ => cases new
    · exact .inl ((has_congr (broadcast_events ..)).mp old)
  generalize (w.broadcast m).recordAll (after.events t (.ok ())) = v at ids tasks events ⊢
  have unshown : ∀ e, v.Has e → ¬e.Shows id := by
    intro e he shows
    rcases events e he with old | ⟨r, rfl⟩
    · exact h.events e old shows
    · cases shows
  have copies : ∀ {s k}, v.Copy id s k →
      ∃ n, k = w.tasks.next + n ∧ (w.hub.recipients m)[n]? = some (.engine (.server s)) := by
    intro s k copy
    obtain ⟨x, m', task, job, requests'⟩ := copy
    rcases broadcast_task tidy.unpark.tasks (tasks ▸ task) with before | ⟨n, _, rfl, recipient, rfl⟩
    · exact absurd (job ▸ .delivery _ m' requests') (h.jobs _ ⟨k, x, old before, rfl⟩)
    · cases job
      exact ⟨n, rfl, recipient⟩
  refine ⟨fun k hk => ?_, fun hx => ?_, ?_, fun s k k' hk hk' => ?_,
    fun s k copy => entries_eq_zero unshown s, fun s => ?_⟩
  · obtain ⟨x, task, sends⟩ := hk
    rcases broadcast_task tidy.unpark.tasks (tasks ▸ task) with before | ⟨_, _, -, -, rfl⟩
    · rw [h.sole k t ⟨x, old before, sends⟩ sender, free] at before
      cases before
    · exact absurd sends (Job.not_sends (by simp [Job.use?]) (by simp))
  · obtain ⟨i, s, ended⟩ := hx
    rcases events _ ended with before | ⟨r, he⟩
    · exact h.refused ⟨i, s, before⟩ t sender
    · cases he
  · rw [ids]
    exact h.issued (.inl ⟨t, sender⟩)
  · obtain ⟨n, rfl, recipient⟩ := copies hk
    obtain ⟨n', rfl, recipient'⟩ := copies hk'
    exact congrArg (w.tasks.next + ·) (enrolled.recipients_sole recipient recipient')
  · rw [entries_eq_zero unshown s]
    exact Nat.zero_le 1

end World

variable {w : World} {act : Act}

theorem Outset.sender (ho : Outset w act b) (tidy : w.Tidy) (distinct : b.2.ids.Distinct)
    (sender : b.2.Sender id k) : w.Sender id k ∨ w.Anew b.2 id k := by
  obtain ⟨x, task, sends⟩ := sender
  rcases ho.lineage task with old | ⟨hge, -, ⟨o, -, start⟩ | ⟨l, m, -, deliver⟩ |
    ⟨i, method, payload, options, rfl, -⟩⟩
  · exact .inl ⟨x, old, sends⟩
  · rw [start] at sends
    exact absurd sends (Job.not_sends (by simp [Job.use?]) (by simp))
  · rw [deliver] at sends
    exact absurd sends (Job.not_sends (by simp [Job.use?]) (by simp))
  · cases ho with
    | invoke _ _ _ _ owned => exact .inr (anew_of_invoke tidy hge task sends distinct)
    | idle c same starts => exact .inl ⟨x, task, sends⟩

theorem Outset.bears (ho : Outset w act b)
    (callers : ∀ m, act.message? = some m → m.attributes.isRequest = false) {j : Job}
    (hj : b.2.HasJob j) (bears : j.Bears id) : w.HasJob j := by
  rcases ho.leads hj with old | ⟨o, -, rfl⟩ | ⟨l, m, rfl, rfl⟩ |
    ⟨i, method, payload, options, -, new⟩
  · exact old
  · cases bears
  · cases bears with
    | delivery _ _ requests => exact absurd requests.1 (by simp [callers m rfl])
  · rcases new with rfl | ⟨c, m, -, -, -, rfl⟩ <;> cases bears

theorem Outset.loyal (ho : Outset w act b)
    (callers : ∀ m, act.message? = some m → m.attributes.isRequest = false)
    (loyal : ∀ j, w.HasJob j → j.Loyal) : ∀ j, b.2.HasJob j → j.Loyal := by
  intro j hj
  rcases ho.leads hj with old | ⟨o, ha, rfl⟩ | ⟨l, m, -, rfl⟩ |
    ⟨i, method, payload, options, -, rfl | ⟨c, m, -, finish, -, rfl⟩⟩
  · exact loyal j old
  · refine ⟨by simp [Job.use?], by simp, fun l m he => ?_⟩
    cases he
    rcases ha with rfl | rfl <;> exact callers m rfl
  · exact ⟨by simp [Job.use?], by simp, by simp⟩
  · exact ⟨by simp [Job.use?], by simp, by simp⟩
  · obtain ⟨request, identified, -⟩ := Caller.finish_draft finish
    refine ⟨fun i' x m' he => ?_, by simp, by simp⟩
    cases he
    exact ⟨request, identified⟩

/-- At the outset of an act nothing is marked. -/
theorem Outset.unmarked (ho : Outset w act b) {e : Event} (marks : e.marks = true)
    (has : b.2.Has e) : w.Has e := by
  obtain ⟨es, events, none⟩ := ho.deeds
  obtain ⟨τ, he⟩ := has
  rw [events, List.mem_append] at he
  rcases he with he | he
  · rw [none _ he] at marks
    cases marks
  · exact ⟨τ, he⟩

theorem Outset.entries (ho : Outset w act b) (s : ServerId) (id : MessageId) :
    b.2.entries s id = w.entries s id := by
  obtain ⟨es, events, none⟩ := ho.deeds
  have few : (es.map (·.2)).countP (Event.entersWith s id) = 0 := by
    refine List.countP_eq_zero.mpr fun e he enters => ?_
    obtain ⟨entry, listed, rfl⟩ := List.mem_map.mp he
    have marks := none entry listed
    obtain ⟨τ, e⟩ := entry
    cases e with
    | handled s' key m => cases marks
    | _ => cases enters
  rw [World.entries, events, List.map_append, List.countP_append, few, Nat.zero_add]
  rfl

namespace World

theorem Treats.outset (ho : Outset w act b) (tidy : w.Tidy)
    (callers : ∀ m, act.message? = some m → m.attributes.isRequest = false)
    (distinct : b.2.ids.Distinct) : w.Treats b.2 id where
  issued := (ho.grows tidy).hasIssued
  sender _ := ho.sender tidy distinct
  refused hx := by
    obtain ⟨i, s, ended⟩ := hx
    exact .inl ⟨i, s, ho.unmarked rfl ended⟩
  events e he shows := .inl (ho.unmarked (by cases shows <;> rfl) he)
  copy s k copy := by
    obtain ⟨x, m, task, job, requests⟩ := copy
    rcases ho.lineage task with old | ⟨-, -, ⟨o, -, start⟩ | ⟨l, m', rfl, deliver⟩ |
      ⟨i, method, payload, options, -, new⟩⟩
    · exact .inl ⟨x, m, old, job, requests⟩
    · cases start.symm.trans job
    · cases deliver.symm.trans job
      exact absurd requests.1 (by simp [callers m rfl])
    · rcases new with deadline | ⟨c, m, -, -, -, prepare⟩
      · cases deadline.symm.trans job
      · cases prepare.symm.trans job
  entries s := .inl (ho.entries s id)

/-- What is known of the request of an id: the tasks are loyal to it, and it has been sent or it
has not. -/
structure Once (w : World) (id : MessageId) : Prop where
  loyal : ∀ j, w.HasJob j → j.Loyal
  phase : w.Unsent id ∨ w.Sent id

theorem Once.new (h : w.IsNew) : w.Once id := by
  obtain ⟨wall, ids, rfl⟩ := h
  refine ⟨?_, .inl ⟨?_, ?_, ?_, ?_, ?_⟩⟩ <;> simp [HasJob, Has, Sender, Refused, Table.get?]

theorem Once.move (h : a.2.Once id) (hm : Move a b) (tidy : a.2.Tidy) (enrolled : a.2.Enrolled)
    (distinct : b.2.ids.Distinct) : b.2.Once id := by
  refine ⟨fun j' hj => ?_, ?_⟩
  · rcases hm.leads tidy hj with old | ⟨w, t, j, rfl, leads⟩ | ⟨e, p, -, -, -, -, rfl⟩
    · exact h.loyal j' old
    · exact leads.loyal (h.loyal j (hasJob_park w t j))
    · exact ⟨by simp [Job.use?], by simp, by simp⟩
  · have treats : a.2.Treats b.2 id := .move hm tidy h.loyal distinct
    rcases h.phase with unsent | sent
    · by_cases spreads : Move.Spreads id a b
      · exact .inr (unsent.spread tidy enrolled spreads)
      · exact .inl (unsent.treat treats fun j' hj bears =>
          (hm.bears tidy hj bears).resolve_right spreads)
    · exact .inr (sent.treat treats)

theorem Once.outset (h : w.Once id) (ho : Outset w act b) (tidy : w.Tidy)
    (callers : ∀ m, act.message? = some m → m.attributes.isRequest = false)
    (distinct : b.2.ids.Distinct) : b.2.Once id := by
  have treats : w.Treats b.2 id := .outset ho tidy callers distinct
  refine ⟨ho.loyal callers h.loyal, h.phase.imp (fun unsent => ?_) fun sent => sent.treat treats⟩
  exact unsent.treat treats fun j hj bears => ⟨j, ho.bears callers hj bears, bears⟩

theorem Once.kept (id : MessageId) :
    Kept (fun _ a => ∀ m, a.message? = some m → m.attributes.isRequest = false)
      fun a => ((InTurn a ∧ a.2.Listening) ∧ a.2.Enrolled) ∧ (a.2.ids.Distinct → a.2.Once id) :=
  (Enrolled.kept.mono fun _ _ _ => trivial).add
    (fun tidy ho callers _ _ h distinct =>
      (h ((ho.grows tidy).distinct distinct)).outset ho tidy callers distinct)
    (fun tidy hm before _ h distinct =>
      (h (hm.grows.distinct distinct)).move hm tidy before.2 distinct)

theorem once_after {as : List Act} (new : w.IsNew) (run : w.CanRun as)
    (callers : ∀ a ∈ as, ∀ m, a.message? = some m → m.attributes.isRequest = false)
    (distinct : (w.after as).ids.Distinct) (id : MessageId) : (w.after as).Once id :=
  ((Once.kept id).run run (Along.of_forall fun a ha _ => callers a ha) (.new new)
    ⟨⟨⟨.new new, .new new⟩, .new new⟩, fun _ => .new new⟩).2.2 distinct

end World

end

theorem Cause.refused_of_sendFailed {cause : Cause} {status : Status}
    (h : cause.outcome = .error (.sendFailed status)) : ∃ s, cause = .refused s := by
  cases cause with
  | answered m =>
    simp only [outcome, Message.outcome] at h
    split at h
    · split at h <;> cases h
    · cases h
  | lapsed timeout => cases h
  | refused s => exact ⟨s, rfl⟩

/-- **A request is handled at most once, and not at all if it could not be sent.** If nobody but
callers sends requests, and the ids of a run are distinct, then no server enters a handler twice
with the request of one call; and if a call has once had the outcome that its request could not be
sent, its request is never delivered to any listener and enters no handler, before or after. -/
theorem handled_at_most_once {w : World} {as : List Act} (new : w.IsNew) (run : w.CanRun as)
    (callers : ∀ a ∈ as, ∀ m, a.message? = some m → m.attributes.isRequest = false)
    (distinct : (w.after as).ids.Distinct) :
    (∀ s id, (w.after as).entries s id ≤ 1) ∧
    ∀ ps qs k call status, as = ps ++ qs → (w.after ps).calls.get? k = some call →
      call.outcome = some (.error (.sendFailed status)) → ∀ m, m.Requests call.id →
        (∀ l, ¬(w.after as).Has (.delivered l m)) ∧
          ∀ s key, ¬(w.after as).Has (.handled s key m) := by
  refine ⟨fun s id => ?_, fun ps qs k call status has place failed m requests => ?_⟩
  · rcases (World.once_after new run callers distinct id).phase with unsent | sent
    · rw [World.entries_eq_zero unsent.events s]
      exact Nat.zero_le 1
    · exact sent.once s
  · have once := World.once_after new run callers distinct call.id
    subst has
    obtain ⟨runPs, runQs⟩ := Along.append.mp run
    have grows := (World.grows_after (World.grows_after (.new new) runPs).1 runQs).2
    rw [World.after_append] at distinct once ⊢
    have ledger := World.ledger_after new runPs (grows.distinct distinct)
    have first := (ledger.outcomes k call place).2
    rw [failed] at first
    obtain ⟨cause, ending, outcome⟩ := Option.map_eq_some_iff.mp first.symm
    obtain ⟨s, rfl⟩ := Cause.refused_of_sendFailed outcome
    obtain ⟨later, τ, earlier, events, -⟩ := History.ending?_split ending
    have refused : ((w.after ps).after qs).Refused call.id :=
      ⟨call.caller, s, World.Has.of_suffix ⟨τ, by simp [events]⟩ grows.events⟩
    rcases once.phase with unsent | sent
    · exact ⟨fun l has => unsent.events _ has (.delivered l m requests),
        fun s key has => unsent.events _ has (.handled s key m requests)⟩
    · exact absurd refused sent.unrefused

/-- A request is handled, once; the next one is refused by its link, and reaches nobody. -/
theorem handled_once_and_refused :
    let ids : MessageId.Source := { issue := fun n => .stamped 1 (BitVec.ofNat 74 n) }
    let method : Address := ⟨"server", 2, 1, 1⟩
    let echo : Handler := ⟨0, 0, fun m => .returned m.payload⟩
    let down : Status := ⟨.unavailable, "down"⟩
    let w : World := { wall := 0, ids := ids }
    let as : List Act := [.command (.addLink ⟨"server", 2, 1, 0⟩), .command (.addServer 0),
      .command (.enter (.serve 0 method echo)), .command (.addLink ⟨"client", 1, 1, 0⟩),
      .command (.addCaller 1 false), .command (.invoke 0 method none .standard), .turn 2, .turn 3,
      .turn 4, .command (.setFault 1 .send ⟨0, some down⟩),
      .command (.invoke 0 method none .standard), .turn 6]
    w.IsNew ∧ w.CanRun as ∧
      (∀ a ∈ as, ∀ m, a.message? = some m → m.attributes.isRequest = false) ∧
      (w.after as).ids.Distinct ∧ 0 < (w.after as).entries 0 (ids.issue 0) ∧
      (w.after as).entries 0 (ids.issue 0) ≤ 1 ∧
      ∀ m, m.Requests (ids.issue 2) → ∀ l, ¬(w.after as).Has (.delivered l m) := by
  intro ids method echo down w as
  have new : w.IsNew := ⟨0, ids, rfl⟩
  have run : w.CanRun as := by decide +kernel
  have callers : ∀ a ∈ as, ∀ m, a.message? = some m → m.attributes.isRequest = false := by
    have none : ∀ a ∈ as, a.message? = none := by decide +kernel
    intro a ha m hm
    rw [none a ha] at hm
    cases hm
  have distinct : (w.after as).ids.Distinct := by
    have issued : (w.after as).ids.issued = 3 := by decide +kernel
    unfold MessageId.Source.Distinct
    rw [issued]
    decide +kernel
  have entered : 0 < (w.after as).entries 0 (ids.issue 0) := by decide +kernel
  obtain ⟨once, unsent⟩ := handled_at_most_once new run callers distinct
  refine ⟨new, run, callers, distinct, entered, once 0 _, fun m requests => ?_⟩
  have accepts : ids.issue 2 ∈ History.accepted 0 (w.after as).events := by decide +kernel
  have ends : History.ending? 0 (ids.issue 2) (w.after as).events = some (.refused down) := by
    decide +kernel
  have ledger := World.ledger_after new run distinct
  obtain ⟨k, call, place, caller, hid⟩ := ledger.placed 0 _ accepts
  have failed : call.outcome = some (.error (.sendFailed down)) := by
    rw [(ledger.outcomes k call place).2, caller, hid, ends]
    rfl
  exact (unsent as [] k call down (by simp) place failed m (hid ▸ requests)).1

end Switchboard
