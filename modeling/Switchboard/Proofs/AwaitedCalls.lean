import Switchboard.Proofs.Invocations
import Switchboard.Proofs.Redemptions
import Switchboard.Proofs.Senders

/-! # A call that is made and waited for

Who makes a call in one operation and waits for its outcome is told what the handler of the method
ended with: the call starts on its course in the middle of a turn, and its task waits in the place
of the call from then on. Main statement: `CompletedCall.resolution`.
-/

namespace Switchboard

open World History

/-- Whether a call is accepted depends on the callers, the ids and the places of calls. -/
theorem World.invoke_fst_congr {u w : World} (callers : u.callers = w.callers) (ids : u.ids = w.ids)
    (calls : u.calls = w.calls) (i : CallerId) (method : Address) (payload : Option Payload)
    (options : CallOptions) :
    (u.invoke i method payload options).1 = (w.invoke i method payload options).1 := by
  have minted : u.mint.1 = w.mint.1 := by rw [mint, mint, ids]
  cases here : w.callers.get? i with
  | none => simp [invoke, callers, here]
  | some c =>
    have here' : u.callers.get? i = some c := callers ▸ here
    cases closed : c.seat.closed with
    | true => rw [invoke_of_closed here closed, invoke_of_closed here' closed]
    | false =>
      rw [invoke_of_open here closed, invoke_of_open here' closed, minted, calls]
      cases options.defects w.mint.1 with
      | nil => dsimp only; split <;> rfl
      | cons d ds => rfl

theorem Outset.taken {w : World} {a : Act} {b : Option TaskId × World} (ho : Outset w a b)
    {t : TaskId} {j : Job} (turn : w.turn? a = some (t, j)) :
    ∃ u : World, b = (some t, u.park t j) ∧ u.callers = w.callers ∧ u.ids = w.ids ∧
      u.calls = w.calls := by
  rcases turn?_cases turn with ⟨rfl, task⟩ | ⟨o, rfl, rfl, rfl⟩
  · cases ho with
    | take t j' ready task' =>
      cases task.symm.trans task'
      exact ⟨_, rfl, rfl, rfl, rfl⟩
    | discard t j' ready task' => cases task.symm.trans task'
    | stale t ready none => cases task.symm.trans none
  · cases ho with
    | enter o allowed => exact ⟨_, rfl, rfl, rfl, rfl⟩
    | idle c same starts => exact absurd rfl (starts o).1

/-- A task that makes a call which is accepted looks for its outcome next. -/
theorem Move.calls {a b : Option TaskId × World} (hm : Move a b) {w : World} {t : TaskId}
    {i : CallerId} {method : Address} {payload : Option Payload} {options : CallOptions}
    {accepted : World.Accepted}
    (ha : a = (some t, w.park t (.start (.call i method (.ok payload) options))))
    (accepts : (w.invoke i method payload options).1 = .ok accepted) :
    ∃ (u : World) (c : Caller) (m : Message),
      a = (some t, u.park t (.start (.call i method (.ok payload) options))) ∧
      u.tasks.get? t = none ∧ u.callers.get? i = some c ∧
      (c.draft method options u.mint.1).finish u.mint.1 payload = .ok m ∧
      accepted = ⟨u.mint.1, u.calls.next⟩ ∧
      b = (some t, (u.mint.2.accept i m u.mint.1 options.timeout).2.park t
        (.await accepted.call (some i))) := by
  obtain ⟨u, hu, free, made⟩ := hm.calling ha
  have same : u.park t (.start (.call i method (.ok payload) options)) =
      w.park t (.start (.call i method (.ok payload) options)) :=
    (Prod.mk.inj (hu.symm.trans ha)).2
  have accepts : (u.invoke i method payload options).1 = .ok accepted := by
    rw [← accepts]
    exact invoke_fst_congr (u := u) (w := w) (congrArg (·.callers) same) (congrArg (·.ids) same)
      (congrArg (·.calls) same) i method payload options
  rcases invoke_cases u i method payload options with
    ⟨e, he⟩ | ⟨e, he⟩ | ⟨c, m, caller, -, finish, -, he⟩ <;> rw [he] at accepts made <;>
    cases accepts
  refine ⟨u, c, m, hu, free, caller, finish, rfl, ?_⟩
  rcases made with ⟨accepted', v, invoked, hb⟩ | ⟨e, v, invoked, -⟩ <;> cases invoked
  exact hb

section

variable {a b : Option TaskId × World} {u : World} {t : TaskId} {payload : Option Payload}
  {options : CallOptions}

/-- A call that is made by a task is on its course. -/
theorem Errand.course_of_call {x : Errand} {c : Caller} {k : CallId} (hm : Move a b)
    (ha : a = (some t, u.park t (.start (.call x.caller x.method (.ok payload) options))))
    (hb : b = (some t, (u.mint.2.accept x.caller x.request u.mint.1 options.timeout).2.park t
      (.await k (some x.caller))))
    (free : u.tasks.get? t = none) (tidy : a.2.Tidy) (ledger : a.2.Ledger none)
    (listening : a.2.Listening) (forsaken : a.2.Forsaken) (traffic : a.2.Traffic (· = x.id))
    (caller : u.callers.get? x.caller = some c) (id : x.id = u.mint.1)
    (finish : (c.draft x.method options u.mint.1).finish u.mint.1 payload = .ok x.request)
    (distinct : b.2.ids.Distinct) : x.Course b := by
  have unaccepted : ∀ i, x.id ∉ accepted i a.2.events := by
    subst ha hb
    exact fun i => id ▸ ledger.not_accepted distinct i
  have seat : b.2.seat? (.caller x.caller) = some c.seat := by
    subst hb
    simp [seat?, caller]
  have seat' : a.2.seat? (.caller x.caller) = some c.seat := by
    subst ha
    simp [seat?, caller]
  have held : a.2.Held (.caller x.caller) := by
    subst ha
    exact ⟨_, hasJob_park u t _, rfl⟩
  have lt : t < u.tasks.next := by
    subst ha
    exact tidy.lt
  refine course_of_accepted traffic unaccepted (ledger.move hm tidy distinct)
    (listening.move hm tidy) ?_ ⟨c.seat, seat, (Caller.finish_draft finish).2.2.2.1⟩ ?_
    ⟨u.tasks.next + 1, ?_⟩ (fun j hj => ?_) (fun s r m answered => ?_) fun t' j runs task => ?_
  · subst hb
    simp [accepted, id]
  · intro hx
    obtain ⟨p, hp, gone⟩ := hx
    cases seat.symm.trans hp
    exact forsaken _ _ seat' gone held
  · have other : u.tasks.next + 1 ≠ t := Nat.ne_of_gt (Nat.lt_succ_of_lt lt)
    subst hb
    simp [other, id]
  · subst ha hb
    rcases hj.of_set rfl with rfl | hj
    · exact .inr trivial
    · rcases hj.of_accept with rfl | rfl | ⟨t', y, task, job⟩
      · exact .inr trivial
      · exact .inr ⟨id ▸ x.requests, fun _ => ⟨rfl, rfl⟩⟩
      · have other : t' ≠ t := by
          rintro rfl
          cases free.symm.trans task
        exact .inl ⟨t', y, by simpa [other] using task, job⟩
  · subst ha hb
    obtain ⟨τ, mem⟩ := answered
    exact ⟨τ, by simpa using mem⟩
  · subst hb
    cases runs
    cases (park_self ..).symm.trans task
    intro carries
    cases carries with
    | use _ m use => cases use

/-- The task that makes the call is the only one that asks for its outcome. -/
theorem World.redeeming_of_call {i : CallerId} {method : Address} {m : Message} (hm : Move a b)
    (ha : a = (some t, u.park t (.start (.call i method (.ok payload) options))))
    (hb : b = (some t, (u.mint.2.accept i m u.mint.1 options.timeout).2.park t
      (.await u.calls.next (some i))))
    (tidy : a.2.Tidy) (unsought : a.2.Unsought u.calls.next) :
    b.2.Places u.calls.next i u.mint.1 ∧ b.2.Sole u.calls.next t ∧
      Redeeming b i u.mint.1 u.calls.next t := by
  have free : a.2.calls.get? u.calls.next = none := by
    subst ha
    exact tidy.calls.next
  refine ⟨?_, fun t' x task awaits => ?_, ?_⟩
  · subst hb
    exact ⟨{ caller := i, id := u.mint.1 }, by simp, rfl, rfl⟩
  · rcases hm.asksFor tidy task awaits with ⟨y, before, awaits⟩ | ⟨runs, -⟩
    · exact absurd awaits (unsought free t' y before)
    · subst ha
      cases runs
      rfl
  · subst hb
    exact .asks (some i) rfl (park_self ..)

end

/-! ## Until it is completed -/

/-- A completed call that its task waits for. In the act the task makes the call, and it is
accepted; from then on the way between the caller and the server of the method is clear; nobody else
brings in requests or answers under the call's id or asks for its outcome; the request comes in time
when the server is handed it; the call is ended neither by a link that refuses it nor by its
deadline; and nothing is left to do for it, also not for the task that waits. -/
structure CompletedCall (w : World) (as : List Act) (act : Act) (bs : List Act) (t : TaskId)
    (i : CallerId) (s : ServerId) (method : Address) (payload : Option Payload)
    (options : CallOptions) (accepted : World.Accepted) : Prop where
  new : w.IsNew
  run : w.CanRun (as ++ act :: bs)
  made : (w.after as).turn? act = some (t, .start (.call i method (.ok payload) options))
  accepts : ((w.after as).invoke i method payload options).1 = .ok accepted
  sound : (w.after (as ++ act :: bs)).ids.Sound
  spares : ∀ a ∈ as ++ bs, a.Spares accepted.id
  unsought : ∀ a ∈ as ++ bs, a.awaits? ≠ some accepted.call
  way : Along (fun v _ => v.Way i s method) ((w.after as).act act) bs
  inTime : Along (fun v a => ∀ m, v.Dispatches a s m → m.attributes.id = some accepted.id →
    m.attributes.isExpired v.wall = false) ((w.after as).act act) bs
  unrefused : ∀ status,
    ending? i accepted.id (w.after (as ++ act :: bs)).events ≠ some (.refused status)
  timely : ∀ timeout,
    ending? i accepted.id (w.after (as ++ act :: bs)).events ≠ some (.lapsed timeout)
  done : ∀ j, (w.after (as ++ act :: bs)).HasJob j → ¬j.Carries i s accepted.id
  told : t ∉ (w.after (as ++ act :: bs)).ready

namespace CompletedCall

variable {w : World} {as bs : List Act} {act : Act} {t : TaskId} {i : CallerId} {s : ServerId}
  {method : Address} {payload : Option Payload} {options : CallOptions}
  {accepted : World.Accepted}

/-- The act that makes the call brings in no message, and asks for no outcome. -/
theorem quiet (h : CompletedCall w as act bs t i s method payload options accepted) :
    act.message? = none ∧ act.awaits? = none := by
  rcases turn?_cases h.made with ⟨rfl, -⟩ | ⟨o, rfl, -, start⟩
  · exact ⟨rfl, rfl⟩
  · cases start
    exact ⟨rfl, rfl⟩

theorem spared (h : CompletedCall w as act bs t i s method payload options accepted) :
    ∀ a ∈ as ++ act :: bs, a.Spares accepted.id := by
  intro a ha
  rcases List.mem_append.mp ha with ha | ha
  · exact h.spares a (List.mem_append_left _ ha)
  · rcases List.mem_cons.mp ha with rfl | ha
    · exact fun m hm => by cases h.quiet.1.symm.trans hm
    · exact h.spares a (List.mem_append_right _ ha)

/-- When the task has the call in hand, nobody has asked for the outcome or brought in a message
under the id of the call, and else things are as in every run. -/
theorem outset (h : CompletedCall w as act bs t i s method payload options accepted) :
    ∃ b, Outset (w.after as) act b ∧ Moves b (none, (w.after as).act act) ∧ b.2.Tidy ∧ InTurn b ∧
      b.2.Listening ∧ b.2.Forsaken ∧ b.2.Unsought accepted.call ∧
      (b.2.ids.Distinct → b.2.Ledger none ∧ b.2.Traffic (· = accepted.id)) := by
  obtain ⟨runAs, possible, -⟩ := Along.append.mp h.run
  obtain ⟨tidy, -⟩ := World.grows_after (.new h.new) runAs
  obtain ⟨b, ho, moves⟩ := World.act_moves tidy.tasks possible
  have reach : ∀ {Q : World → Act → Prop} {P : Option TaskId × World → Prop}, Kept Q P →
      Along Q w as → Q (w.after as) act → P (none, w) → P b := fun kept before now start =>
    kept.outset tidy ho now (kept.run runAs before (.new h.new) start).2
  have anything : Along (fun _ _ => True) w as := runAs.mono fun _ _ _ => trivial
  have turn := reach InTurn.kept anything trivial (.new h.new)
  obtain ⟨listening, forsaken⟩ :=
    reach Forsaken.kept anything trivial ⟨.new h.new, .new h.new⟩
  have unsought := reach (Unsought.kept accepted.call)
    (Along.of_forall fun a ha _ => h.unsought a (List.mem_append_left _ ha))
    (by simp [h.quiet.2]) (Unsought.new h.new _)
  have traffic := reach (Traffic.kept (F := (· = accepted.id)))
    (Along.of_forall fun a ha v => (h.spares a (List.mem_append_left _ ha)).respects v)
    (Act.Spares.respects (fun m hm => by cases h.quiet.1.symm.trans hm) _)
    ⟨fun _ => .new h.new, fun _ => .new h.new⟩
  exact ⟨b, ho, moves, tidy.outset ho, turn, listening, forsaken, unsought,
    fun distinct => ⟨traffic.1 distinct, traffic.2 distinct⟩⟩

/-- After the act that makes it the call is on its course, and its task is on its way to the
outcome. -/
theorem start (h : CompletedCall w as act bs t i s method payload options accepted)
    (Outcome : Message → Except Failure Payload → Prop) :
    ∃ x : Errand, x.caller = i ∧ x.server = s ∧ x.id = accepted.id ∧ x.method = method ∧
      x.request.payload = payload ∧ x.Outcome = Outcome x.request ∧
      x.Course (none, (w.after as).act act) ∧
      (InTurn (none, (w.after as).act act) ∧
        ((w.after as).act act).Places accepted.call i accepted.id) ∧
      ((w.after as).act act).Sole accepted.call t ∧
      Redeeming (none, (w.after as).act act) i accepted.id accepted.call t := by
  obtain ⟨b, ho, moves, tidyB, turn, listening, forsaken, unsought, faithful⟩ := h.outset
  obtain ⟨u, hb, callers, ids, calls⟩ := ho.taken h.made
  have accepts := (invoke_fst_congr callers ids calls i method payload options).trans h.accepts
  -- the first move makes the call, and the others keep it on its course
  rcases moves.cases_head with rfl | ⟨c, hm, rest⟩
  · cases hb
  obtain ⟨u, caller, m, ha, free, here, finish, rfl, hc⟩ := hm.calls hb accepts
  have tidyC := tidyB.move hm
  have soundY : ((w.after as).act act).ids.Sound := by
    obtain ⟨-, -, runBs⟩ := Along.append.mp h.run
    obtain ⟨tidyY, -⟩ := InTurn.kept.moves rest tidyC (turn.move hm tidyB)
    have sound := h.sound
    rw [World.after_append, World.after_cons] at sound
    exact (World.grows_after tidyY runBs).2.sound sound
  have soundC : c.2.ids.Sound := (Moves.grows rest).sound soundY
  obtain ⟨ledger, traffic⟩ := faithful (hm.grows.distinct soundC.distinct)
  obtain ⟨request, identified, -, -, sink, -, valid⟩ := Caller.finish_draft finish
  let x : Errand :=
    { caller := i, server := s, id := u.mint.1, method := method, request := m,
      Outcome := Outcome m, requests := ⟨request, identified⟩, valid := valid, sink := sink }
  have course : x.Course c := Errand.course_of_call (x := x) hm ha hc free tidyB ledger listening
    forsaken traffic here rfl finish soundC.distinct
  obtain ⟨place, sole, redeeming⟩ := redeeming_of_call hm ha hc tidyB unsought
  obtain ⟨-, ⟨base, sole⟩, redeems⟩ := (Redeeming.kept _ _ _ t).moves rest tidyC
    ⟨⟨⟨turn.move hm tidyB, place⟩, sole⟩, fun _ => ⟨course.ledger, redeeming⟩⟩
  refine ⟨x, rfl, rfl, rfl, rfl, ?_, rfl, ?_, base, sole, (redeems soundY.distinct).2⟩
  · obtain ⟨same, -⟩ := Draft.finish_ok finish
    exact congrArg Message.payload same
  · exact ((Errand.course_kept x).moves rest tidyC fun _ => course).2 soundY

/-- The outcomes of the call: what the server makes of the request at the moments when it is handed
it. -/
theorem allows (h : CompletedCall w as act bs t i s method payload options accepted) {x : Errand}
    (caller : x.caller = i) (server : x.server = s) (id : x.id = accepted.id)
    (called : x.method = method)
    (outcomes : ∀ p a q v, bs = p ++ a :: q →
      (((w.after as).act act).after p).Dispatches a s x.request →
      (((w.after as).act act).after p).servers.get? s = some v →
      x.Outcome (v.outcome method x.request)) :
    Along x.Allows ((w.after as).act act) bs := by
  subst caller server called
  refine Along.of_split fun p a q hb => ?_
  subst hb
  exact ⟨h.way.split, id ▸ h.spares a (by simp),
    fun dispatches => h.inTime.split _ dispatches (id ▸ x.requests.2),
    fun dispatches v server => outcomes p a q v rfl dispatches server⟩

/-- **Who makes a call and waits is told what the server made of it**: its task is told what the
server made of the very request of the call at a moment when it was handed it. -/
theorem resolution (h : CompletedCall w as act bs t i s method payload options accepted) :
    ∃ request p a q v, request.payload = payload ∧ bs = p ++ a :: q ∧
      (((w.after as).act act).after p).Dispatches a s request ∧
      (((w.after as).act act).after p).servers.get? s = some v ∧
      (w.after (as ++ act :: bs)).resolution? t = some (v.outcome method request) := by
  obtain ⟨runAs, possible, runBs⟩ := Along.append.mp h.run
  have tidy := (World.grows_act (World.grows_after (.new h.new) runAs).1 possible).1
  obtain ⟨x, caller, server, id, called, carries, outcomes, course, base, sole, redeeming⟩ :=
    h.start fun m o => ∃ p a q v, bs = p ++ a :: q ∧
      (((w.after as).act act).after p).Dispatches a s m ∧
      (((w.after as).act act).after p).servers.get? s = some v ∧ o = v.outcome method m
  have allows := h.allows caller server id called fun p a q v hb dispatches here =>
    outcomes ▸ ⟨p, a, q, v, hb, dispatches, here, rfl⟩
  have nobody : Along (fun _ a => a.awaits? ≠ some accepted.call) ((w.after as).act act) bs :=
    Along.of_forall fun a ha _ => h.unsought a (List.mem_append_right _ ha)
  have after : w.after (as ++ act :: bs) = ((w.after as).act act).after bs := by
    rw [World.after_append, World.after_cons]
  have sound : (((w.after as).act act).after bs).ids.Sound := after ▸ h.sound
  -- the call keeps on its course, and its task on its way to the outcome
  have ended := ((Errand.course_kept x).run runBs allows tidy fun _ => course).2 sound
  obtain ⟨-, ⟨⟨-, place⟩, -⟩, redeems⟩ := (Redeeming.kept _ _ _ t).run runBs nobody tidy
    ⟨⟨base, sole⟩, fun _ => ⟨course.ledger, redeeming⟩⟩
  have prompt := World.prompt_after h.new h.run
  have traffic := World.traffic_after (F := (· = accepted.id)) h.new h.run
    (Along.of_forall fun a ha v => (h.spared a ha).respects v) h.sound.distinct
  subst caller server called
  rw [after] at prompt traffic ⊢
  obtain ⟨call, o, here, outcome, fits⟩ := ended.resolved prompt (id ▸ traffic) (id ▸ place)
    (fun status => id ▸ after ▸ h.unrefused status) (fun timeout => id ▸ after ▸ h.timely timeout)
    fun j hj => id ▸ h.done j (after ▸ hj)
  obtain ⟨cause, ending, rfl⟩ := ended.ledger.cause place here outcome
  have resolved := (redeems sound.distinct).2.resolution ended.ledger place ending
    (after ▸ h.told)
  rw [outcomes] at fits
  obtain ⟨p, a, q, v, hb, dispatches, server, same⟩ := fits
  exact ⟨x.request, p, a, q, v, carries, hb, dispatches, server, same ▸ resolved⟩

end CompletedCall

end Switchboard
