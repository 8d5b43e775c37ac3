import Switchboard.Proofs.Trials
import Switchboard.Proofs.AtMostOnce

/-! # Who sends a request

A call has one task that sends its request, and that asks for the listener of its caller until it
does so (`World.OneTask`). It is the only one but those outside who passes such a request to a link,
and by then the listener is registered (`World.newly_sent`). Afterwards, as after a refusal, nobody
asks for the listener on the call's behalf, and nobody ever will (`World.Settled`).
-/

namespace Switchboard

open World History

variable {i : CallerId} {id : MessageId}

/-- The call for whose sake the task asks for its caller's listener. -/
def Job.asks? (j : Job) : Option (CallerId × MessageId) :=
  match j.use? with
  | some (.request i id _) => some (i, id)
  | _ => none

/-- The call whose request the task is to send. -/
def Job.makes? : Job → Option (CallerId × MessageId)
  | .send _ _ (.request i id) => some (i, id)
  | j => j.asks?

theorem Job.asks_of_use {j : Job} {m : Message} (h : j.use? = some (.request i id m)) :
    j.asks? = some (i, id) := by
  simp [asks?, h]

theorem Job.makes_of_asks {j : Job} (h : j.asks? = some (i, id)) : j.makes? = some (i, id) := by
  cases j with
  | send l m after => cases h
  | _ => exact h

/-- Whoever makes a call has made it before, or is to begin with it now. -/
theorem Leads.makes {w : World} {t : TaskId} {j j' : Job} (h : Leads w t j j')
    (makes : j'.makes? = some (i, id)) :
    j.makes? = some (i, id) ∧ (j'.asks? = some (i, id) → j.asks? = some (i, id)) ∨
      j.Calls w id := by
  cases h with
  | request j i' c id' m use caller listening =>
    cases makes
    exact .inl ⟨Job.makes_of_asks (Job.asks_of_use use), fun asks => by cases asks⟩
  | attempt j u p use seat =>
    cases u with
    | request i' id' m =>
      cases makes
      have asks := Job.asks_of_use use
      exact .inl ⟨Job.makes_of_asks asks, fun _ => asks⟩
    | serve s method h => cases makes
  | wait u =>
    cases u with
    | request i' id' m =>
      cases makes
      exact .inl ⟨rfl, fun _ => rfl⟩
    | serve s method h => cases makes
  | call i' c method payload options m caller finish minted =>
    cases makes
    exact .inr ⟨rfl, _, method, payload, options, rfl, minted⟩
  | _ => cases makes

namespace World

variable {w v : World} {a b : Option TaskId × World} {k : TaskId}

def Makes (w : World) (k : TaskId) (i : CallerId) (id : MessageId) : Prop :=
  ∃ x, w.tasks.get? k = some x ∧ x.job.makes? = some (i, id)

def AsksFor (w : World) (k : TaskId) (i : CallerId) (id : MessageId) : Prop :=
  ∃ x, w.tasks.get? k = some x ∧ x.job.asks? = some (i, id)

theorem AsksFor.makes (h : w.AsksFor k i id) : w.Makes k i id := by
  obtain ⟨x, task, asks⟩ := h
  exact ⟨x, task, Job.makes_of_asks asks⟩

/-- Some link has refused the call its request, or the listener for its answer. -/
def Turned (w : World) (i : CallerId) (id : MessageId) : Prop :=
  ∃ s, w.Has (.ended i id (.refused s))

/-- One task at most makes the call, and none asks for its listener any more once the call was
refused. -/
structure OneTask (w : World) (i : CallerId) (id : MessageId) : Prop where
  sole : ∀ k k', w.Makes k i id → w.Makes k' i id → k = k'
  issued : (∃ k, w.Makes k i id) ∨ w.Turned i id → w.ids.HasIssued id
  refused : w.Turned i id → ∀ k, ¬w.AsksFor k i id

structure Settled (w : World) (i : CallerId) (id : MessageId) : Prop where
  issued : w.ids.HasIssued id
  idle : ∀ k, ¬w.AsksFor k i id

/-- What a step makes of the tasks of a call. -/
structure Follows (w v : World) (i : CallerId) (id : MessageId) : Prop where
  issued : w.ids.HasIssued id → v.ids.HasIssued id
  tasks : ∀ k, v.Makes k i id →
    w.Makes k i id ∧ (v.AsksFor k i id → w.AsksFor k i id) ∨ w.Anew v id k
  refused : v.Turned i id → w.Turned i id ∨ ∃ k, w.Makes k i id ∧ v.tasks.get? k = none

theorem Follows.asks (h : w.Follows v i id) (asks : v.AsksFor k i id) :
    w.AsksFor k i id ∨ w.Anew v id k :=
  (h.tasks k asks.makes).imp_left fun old => old.2 asks

theorem Settled.follow (h : w.Settled i id) (follows : w.Follows v i id) : v.Settled i id := by
  refine ⟨follows.issued h.issued, fun k asks => ?_⟩
  rcases follows.asks asks with old | new
  · exact h.idle k old
  · exact new.unissued h.issued

theorem OneTask.follow (h : w.OneTask i id) (follows : w.Follows v i id) : v.OneTask i id := by
  -- whoever was known to make the call, or its refusal, excludes that the id is new
  have old : (∃ k, w.Makes k i id) ∨ w.Turned i id → ∀ k, v.Makes k i id → w.Makes k i id :=
    fun known k hk => ((follows.tasks k hk).resolve_right fun new =>
      new.unissued (h.issued known)).1
  refine ⟨fun k k' hk hk' => ?_, fun known => ?_, fun turned k asks => ?_⟩
  · rcases follows.tasks k hk with ⟨before, -⟩ | new
    · exact h.sole k k' before (old (.inl ⟨k, before⟩) k' hk')
    · rcases follows.tasks k' hk' with ⟨before, -⟩ | new'
      · exact absurd (h.issued (.inl ⟨k', before⟩)) new.unissued
      · exact new.key.trans new'.key.symm
  · rcases known with ⟨k, hk⟩ | turned
    · rcases follows.tasks k hk with ⟨before, -⟩ | new
      · exact follows.issued (h.issued (.inl ⟨k, before⟩))
      · exact new.issued
    · rcases follows.refused turned with before | ⟨k, makes, -⟩
      · exact follows.issued (h.issued (.inr before))
      · exact follows.issued (h.issued (.inl ⟨k, makes⟩))
  · rcases follows.refused turned with before | ⟨t, makes, gone⟩
    · rcases follows.asks asks with asked | new
      · exact h.refused before k asked
      · exact new.unissued (h.issued (.inr before))
    · -- the task that was refused was the only one
      have same := h.sole k t (old (.inl ⟨t, makes⟩) k asks.makes) makes
      obtain ⟨x, task, -⟩ := asks
      rw [same, gone] at task
      cases task

theorem OneTask.new (h : w.IsNew) : w.OneTask i id := by
  obtain ⟨wall, ids, rfl⟩ := h
  refine ⟨?_, ?_, ?_⟩ <;> simp [Makes, Turned, Has, Table.get?]

end World

theorem Job.sends_of_finish {c : Caller} {method : Address} {options : CallOptions}
    {payload : Option Payload} {m : Message}
    (finish : (c.draft method options id).finish id payload = .ok m) :
    (Job.prepare (.request i id m)).Sends id := by
  obtain ⟨request, identified, -⟩ := Caller.finish_draft finish
  exact .ask _ i id m rfl ⟨request, identified⟩

theorem World.Follows.move {a b : Option TaskId × World} (hm : Move a b) (tidy : a.2.Tidy)
    (distinct : b.2.ids.Distinct) : a.2.Follows b.2 i id where
  issued := hm.grows.hasIssued
  tasks k makes := by
    obtain ⟨x, task, makes⟩ := makes
    have asked : b.2.AsksFor k i id → x.job.asks? = some (i, id) := by
      intro asks
      obtain ⟨y, task', asks⟩ := asks
      cases task.symm.trans task'
      exact asks
    rcases hm.lineage tidy task with ⟨y, hy, same⟩ | ⟨w, j, rfl, leads, -⟩ | ⟨hge, begins, new⟩
    · exact .inl ⟨⟨y, hy, same ▸ makes⟩, fun asks => ⟨y, hy, same ▸ asked asks⟩⟩
    · rcases leads.makes makes with ⟨made, asks⟩ | ⟨-, i', method, payload, options, rfl, -⟩
      · have task := park_self w k j
        exact .inl ⟨⟨⟨j, false⟩, task, made⟩, fun hx => ⟨⟨j, false⟩, task, asks (asked hx)⟩⟩
      · obtain ⟨c, held, job⟩ := hm.awaits tidy rfl task
        rw [job] at makes
        cases makes
    · refine .inr (hm.anew tidy distinct task ?_ hge)
      rcases new with ⟨w, t, j, -, leads⟩ | ⟨e, p, -, -, -, -, withdraw⟩
      · generalize x.job = j' at leads makes begins
        cases leads with
        | call i' c method payload options m caller finish minted =>
          cases makes
          exact Job.sends_of_finish finish
        | addHandler s u method h server vacant => cases makes
        | deadline i' method payload options => cases makes
        | broadcast l m after listener accepted recipient => cases makes
        | _ => cases begins
      · rw [withdraw] at makes
        cases makes
  refused turned := by
    obtain ⟨es, events, -, deeds⟩ := hm.deeds
    obtain ⟨s, τ, he⟩ := turned
    rw [events, List.mem_append] at he
    rcases he with he | he
    · obtain ⟨w, t, j, rfl, stems, gone⟩ := deeds _ he rfl
      refine .inr ⟨t, ⟨_, park_self w t j, ?_⟩, gone rfl⟩
      cases stems with
      | unheard _ _ m _ _ use => exact Job.makes_of_asks (Job.asks_of_use use)
      | unsent _ _ l m _ => rfl
    · exact .inl ⟨s, τ, he⟩

theorem World.Follows.outset {w : World} {act : Act} {b : Option TaskId × World}
    (ho : Outset w act b) (tidy : w.Tidy) (distinct : b.2.ids.Distinct) :
    w.Follows b.2 i id where
  issued := (ho.grows tidy).hasIssued
  tasks k makes := by
    obtain ⟨x, task, makes⟩ := makes
    rcases ho.lineage task with old | ⟨hge, -, ⟨o, -, start⟩ | ⟨l, m, -, deliver⟩ |
      ⟨i', method, payload, options, rfl, new⟩⟩
    · refine .inl ⟨⟨x, old, makes⟩, fun asks => ?_⟩
      obtain ⟨y, task', asks⟩ := asks
      cases task.symm.trans task'
      exact ⟨x, old, asks⟩
    · rw [start] at makes
      cases makes
    · rw [deliver] at makes
      cases makes
    · rcases new with deadline | ⟨c, m, -, finish, -, prepare⟩
      · rw [deadline] at makes
        cases makes
      · rw [prepare] at makes
        cases makes
        have sends : x.job.Sends w.mint.1 := prepare ▸ Job.sends_of_finish finish
        cases ho with
        | invoke _ _ _ _ owned => exact .inr (anew_of_invoke tidy hge task sends distinct)
        | idle c same starts => exact absurd (tidy.tasks.lt task) (Nat.not_lt.mpr hge)
  refused turned := by
    obtain ⟨s, ended⟩ := turned
    exact .inl ⟨s, ho.unmarked rfl ended⟩

theorem World.OneTask.kept :
    Kept (fun _ _ => True) fun a => a.2.ids.Distinct → ∀ i id, a.2.OneTask i id where
  outset tidy ho _ h distinct i id :=
    (h ((ho.grows tidy).distinct distinct) i id).follow (.outset ho tidy distinct)
  move tidy hm h distinct i id :=
    (h (hm.grows.distinct distinct) i id).follow (.move hm tidy distinct)

theorem World.Settled.kept (i : CallerId) (id : MessageId) :
    Kept (fun _ _ => True) fun a => a.2.ids.Distinct → a.2.Settled i id where
  outset tidy ho _ h distinct :=
    (h ((ho.grows tidy).distinct distinct)).follow (.outset ho tidy distinct)
  move tidy hm h distinct := (h (hm.grows.distinct distinct)).follow (.move hm tidy distinct)

/-! ## Who sends requests -/

theorem Event.mem_sending? {es : List Event} {l : LinkId} {m : Message} :
    (l, m) ∈ es.filterMap Event.sending? ↔ .sent l m ∈ es := by
  have sends : ∀ e : Event, e.sending? = some (l, m) ↔ e = .sent l m := by
    intro e
    cases e <;> simp [sending?]
  simp [List.mem_filterMap, sends]

theorem Move.hand {a b : Option TaskId × World} (hm : Move a b) {t : TaskId}
    (runs : a.1 = some t) : ∃ (w : World) (j : Job), a = (some t, w.park t j) := by
  cases hm with
  | remove seat unowned alive unheld => cases runs
  | _ =>
    cases runs
    exact ⟨_, _, rfl⟩

theorem Moves.grows {a b : Option TaskId × World} (hm : Moves a b) : a.2.Grows b.2 := by
  induction hm with
  | refl => exact .refl _
  | tail _ last ih => exact ih.trans last.grows

theorem World.ne_of_passed {w v : World} {xs : List (LinkId × Message)} {x : LinkId × Message}
    (seen : v.dispatched = w.dispatched ++ xs) (hx : x ∈ xs) : v.dispatched ≠ w.dispatched := by
  intro same
  have empty : xs = [] := List.self_eq_append_right.mp (same.symm.trans seen)
  simp [empty] at hx

theorem Move.sends {a b : Option TaskId × World} (hm : Move a b) (tidy : a.2.Tidy)
    {xs : List (LinkId × Message)} (seen : b.2.dispatched = a.2.dispatched ++ xs)
    {l : LinkId} {m : Message} (hx : (l, m) ∈ xs) :
    ∃ (w : World) (t : TaskId) (j : Job) (after : AfterSend), a = (some t, w.park t j) ∧
      Leads w t j (.send l m after) ∧ b.1 = some t ∧
      b.2.tasks.get? t = some ⟨.send l m after, false⟩ := by
  have loud := ne_of_passed seen hx
  cases runs : a.1 with
  | none =>
    obtain ⟨e, p, side, rfl⟩ := hm.idle runs
    exact absurd (seen_congr (by simp)) loud
  | some t =>
    obtain ⟨w, j, rfl⟩ := hm.hand runs
    have task := park_self w t j
    by_cases passed : ∃ m, Broadcasts (some t, w.park t j) b m
    · obtain ⟨m, passed⟩ := passed
      exact absurd (passed.ends tidy rfl task).2.1 loud
    · cases hm.hands tidy rfl task fun m passed' => passed ⟨m, passed'⟩ with
      | waits idle same task => exact absurd same loud
      | ends idle same gone refused => exact absurd same loud
      | goes j' runs task empty sent =>
        rw [List.append_cancel_left (seen.symm.trans sent), Option.mem_toList] at hx
        obtain ⟨v, j₀, ha, leads, -⟩ := hm.goes runs task
        obtain ⟨-, rfl⟩ := running_inj ha
        cases j' with
        | send l' m' after =>
          cases hx
          exact ⟨v, t, j, after, ha, leads, runs, task⟩
        | _ => cases hx

/-- A task that passes the request of its call to a link has found the listener for the answer
registered, or has just registered it. -/
theorem Move.sends_request {a b : Option TaskId × World} (hm : Move a b) {w : World}
    {t : TaskId} {j : Job} {m : Message} {c : Caller} (ha : a = (some t, w.park t j))
    (use : j.use? = some (.request i id m)) (caller : w.callers.get? i = some c)
    (runs : b.1 = some t) (loud : b.2.dispatched ≠ a.2.dispatched) :
    a.2.cell? (.caller i) = some .registered ∨
      b.2.events = (w.now, .sent c.seat.link m) ::
        (w.now, .attempted (.caller i) (.ok ())) :: w.events := by
  subst ha
  cases hm.pursues rfl use with
  | asks events => exact absurd (seen_congr events) loud
  | finds registered events => exact .inl registered
  | registers events => exact .inr (by simp [events, onward, caller, Use.engine])
  | fails idle =>
    rw [idle] at runs
    cases runs

namespace World

variable {w : World} {a : Act} {l : LinkId} {m : Message}

/-- Someone outside passes the message to the link in the act, by an operation of its own. -/
def SendsAlone (w : World) (a : Act) (l : LinkId) (m : Message) : Prop :=
  ∃ k, w.turn? a = some (k, .start (.send l m))

/-- In the act the task of a call passes the request of this call to a link, and the caller's
listener has been registered before, be it in this act. -/
structure Requests (w : World) (a : Act) (i : CallerId) (id : MessageId) (l : LinkId)
    (m : Message) : Prop where
  turn : ∃ k j, w.turn? a = some (k, j) ∧ j.use? = some (.request i id m)
  listening : .ok () ∈ w.attempts (.caller i) ∨
    [.attempted (.caller i) (.ok ()), .sent l m] <+: w.newly a

/-- Whose turn it is has asked for the listener for the sake of a call only as the task of this
call. -/
theorem use_of_seeks {j : Job} {i : CallerId} {id : MessageId}
    (h : j.seeks? = some (.request i id m)) : j.use? = some (.request i id m) := by
  cases j with
  | start o => cases o <;> cases h
  | _ => exact h

/-- A task that has passed the request of its call to a link asks for no listener any more. -/
theorem OneTask.settled {k : TaskId} {i : CallerId} {id : MessageId} (h : w.OneTask i id)
    (task : w.tasks.get? k = some ⟨.send l m (.request i id), false⟩) : w.Settled i id := by
  have makes : w.Makes k i id := ⟨_, task, rfl⟩
  refine ⟨h.issued (.inl ⟨k, makes⟩), fun k' asks => ?_⟩
  obtain rfl := h.sole k k' makes asks.makes
  obtain ⟨x, task', asks⟩ := asks
  cases task.symm.trans task'
  cases asks

/-- **A request is sent by someone outside, or by the task of its call once the listener for the
answer is registered.** No task asks for this listener on the call's behalf any more. -/
theorem newly_sent (tidy : w.Tidy) (possible : a.IsPossible w) (turn : InTurn (none, w))
    (tally : ∀ e, w.Tally e) (one : w.ids.Distinct → ∀ i id, w.OneTask i id)
    (distinct : (w.act a).ids.Distinct) (sent : .sent l m ∈ w.newly a)
    (request : m.attributes.isRequest = true) :
    w.SendsAlone a l m ∨ ∃ i id, w.Requests a i id l m ∧ (w.act a).Settled i id := by
  obtain ⟨b, c, d, ho, before, last, after, xs, seen, hx⟩ :=
    newly_moved (fun _ _ _ => rfl) tidy possible (Event.mem_sending?.mpr sent)
  obtain ⟨tidyC, turnC, tallyC⟩ := Tally.kept.moves before (tidy.outset ho)
    (Tally.kept.outset tidy ho trivial ⟨turn, tally⟩)
  obtain ⟨tidyD, oneD⟩ := OneTask.kept.moves (before.tail last) (tidy.outset ho)
    (OneTask.kept.outset tidy ho trivial one)
  obtain ⟨v, t, j, then_, rfl, leads, runs, task⟩ := last.sends tidyC seen hx
  cases leads with
  | request j i caller id m use known listening =>
    obtain ⟨⟨j₀, taken, sought⟩, silent⟩ :=
      seeking ho before rfl (park_self v t j) (Job.seeks_of_use use)
    have settled := (oneD (after.grows.distinct distinct) i id).settled task
    refine .inr ⟨i, id, ⟨⟨t, j₀, taken, use_of_seeks sought⟩, ?_⟩,
      ((Settled.kept i id).moves after tidyD fun _ => settled).2 distinct⟩
    rcases last.sends_request rfl use known runs (ne_of_passed seen hx) with registered | events
    · have same : (v.park t j).attempts (.caller i) = w.attempts (.caller i) := seen_congr silent
      exact .inl (same ▸ (tallyC (.caller i)).ok_mem.mpr registered)
    · obtain ⟨more, all⟩ := after.grows.events
      have first : (w.act a).events = (more ++ [(v.now, .sent caller.seat.link m),
          (v.now, .attempted (.caller i) (.ok ()))]) ++ w.events := by
        rw [← silent, ← all, events]
        simp
      refine .inr ⟨(more.map (·.2)).reverse, ?_⟩
      simp [newly_of_events first]
  | startSend l m =>
    obtain ⟨j₀, taken, rfl⟩ := turn?_of_moves (F := fun j => j = .start (.send l m))
      (fun _ _ _ _ leads _ same => by rw [same] at leads; cases leads) ho before rfl
      (park_self v t _) rfl
    exact .inl ⟨t, taken⟩
  | reply s u r m j es draft payload server replies finish =>
    have response := (replies.finish finish).1
    rw [Attributes.isResponse_of_isRequest request] at response
    cases response
  | post o l resource draft payload options topic m posting finish =>
    rw [(Operation.finish_posting posting finish).2] at request
    cases request

end World

end Switchboard
