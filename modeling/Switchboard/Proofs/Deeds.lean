import Switchboard.Proofs.Wakes
import Switchboard.Proofs.Registrations

/-! # Who does what

Messages are delivered, handled and answered in the turns of tasks, and the task whose turn it is
has had the message in hand from the start of its turn. So each of these events can be put down to
one task, which a server's delivery needs whole: the task that delivers the message runs its handler
and answers it. Main statements: what happens in an act is the deed of the task whose turn it is
(`World.newly_dealt`), and a task that does not take its turn stays as it is (`World.act_keeps`).
-/

namespace Switchboard

/-- A message is delivered, handled or answered. -/
def Event.deals : Event → Bool
  | .delivered _ _ => true
  | .handled _ _ _ => true
  | .answered _ _ _ => true
  | _ => false

/-- A message is dealt with, or the task of a call is refused what it needs. -/
def Event.marks : Event → Bool
  | .ended _ _ (.refused _) => true
  | e => e.deals

def Event.enters : Event → Bool
  | .handled _ _ _ => true
  | _ => false

def Event.entersWith (s : ServerId) (id : MessageId) : Event → Bool
  | .handled s' _ m => s' == s && m.attributes.isRequest && m.attributes.id == some id
  | _ => false

/-- The message that the task is to hand to a listener. -/
def Job.delivery? : Job → Option (Listener × Message)
  | .deliver l m => some (l, m)
  | _ => none

theorem Job.delivery?_eq_some {j : Job} {l : Listener} {m : Message} :
    j.delivery? = some (l, m) ↔ j = .deliver l m := by
  cases j <;> simp [delivery?]

inductive Stems : Event → Job → Prop
  | delivered (l : Listener) (m : Message) : Stems (.delivered l m) (.deliver l m)
  | handled (s : ServerId) (key : Nat) (m : Message) :
    Stems (.handled s key m) (.deliver (.engine (.server s)) m)
  | unserved (s : ServerId) (m r : Message) :
    Stems (.answered s m r) (.deliver (.engine (.server s)) m)
  | ended (s : ServerId) (h : Handler) (m r : Message) : Stems (.answered s m r) (.handle s h m)
  | unheard (i : CallerId) (id : MessageId) (m : Message) (s : Status) (j : Job)
      (use : j.use? = some (.request i id m)) :
    Stems (.ended i id (.refused s)) j
  | unsent (i : CallerId) (id : MessageId) (l : LinkId) (m : Message) (s : Status) :
    Stems (.ended i id (.refused s)) (.send l m (.request i id))

theorem Event.marks_of_deals {e : Event} (h : e.deals = true) : e.marks = true := by
  cases e with
  | ended i id cause => cases h
  | _ => exact h

theorem Event.enters_of_not_marks {e : Event} (h : e.marks = false) : e.enters = false := by
  cases e with
  | handled s key m => cases h
  | _ => rfl

/-- What follows the end of a handler's job was the deed of its delivery, too. -/
theorem Stems.back {e : Event} {w : World} {t : TaskId} {j j' : Job} (h : Stems e j')
    (deals : e.deals = true) (leads : Leads w t j j') (other : ∀ l m, j' ≠ .deliver l m) :
    Stems e j := by
  cases h with
  | ended s hd m r =>
    cases leads with
    | served s v hd m server alive judged => exact .unserved s m r
  | delivered l m => exact absurd rfl (other l m)
  | handled s key m => exact absurd rfl (other _ m)
  | unserved s m r => exact absurd rfl (other _ m)
  | _ => cases deals

/-- The task has the message in hand for the server: it is to deliver it, or is at its handler. -/
inductive Job.InHand (s : ServerId) (m : Message) : Job → Prop
  | delivery : InHand s m (.deliver (.engine (.server s)) m)
  | handling (h : Handler) : InHand s m (.handle s h m)

theorem Leads.inHand {w : World} {t : TaskId} {j j' : Job} {s : ServerId} {m : Message}
    (h : Leads w t j j') (other : ∀ l m, j' ≠ .deliver l m) (hand : j'.InHand s m) :
    j.InHand s m := by
  cases hand with
  | delivery => exact absurd rfl (other _ m)
  | handling hd =>
    cases h with
    | served s v hd m server alive judged => exact .delivery

theorem Stems.inHand {s : ServerId} {m r : Message} {j : Job} (h : Stems (.answered s m r) j) :
    j.InHand s m := by
  cases h with
  | unserved => exact .delivery
  | ended _ h => exact .handling h

theorem Job.InHand.stems {s : ServerId} {m : Message} {j : Job} (h : j.InHand s m) (r : Message) :
    Stems (.answered s m r) j := by
  cases h with
  | delivery => exact .unserved s m r
  | handling h => exact .ended s h m r

/-- The server receives the message, enters a handler with it, or answers it. -/
inductive Event.Concerns (s : ServerId) (m : Message) : Event → Prop
  | delivered : Concerns s m (.delivered (.engine (.server s)) m)
  | handled (key : Nat) : Concerns s m (.handled s key m)
  | answered (r : Message) : Concerns s m (.answered s m r)

theorem Event.Concerns.deals {s : ServerId} {m : Message} {e : Event} (h : e.Concerns s m) :
    e.deals = true := by
  cases h <;> rfl

theorem Event.Concerns.inHand {s : ServerId} {m : Message} {e : Event} {j : Job}
    (h : e.Concerns s m) (stems : Stems e j) : j.InHand s m := by
  cases h with
  | answered r => exact stems.inHand
  | _ =>
    cases stems
    exact .delivery

theorem World.onward_marks (w : World) (t : TaskId) (u : Use) :
    ∀ e ∈ (w.onward t u).1, e.marks = false := by
  cases u with
  | request i id m =>
    simp only [onward]
    cases w.callers.get? i <;> simp [Event.marks, Event.deals]
  | serve s method h => simp [onward, Event.marks, Event.deals]

/-- Events of which none is marked enter no handler. -/
theorem countP_enters_of_not_marks {es : List Event} (none : ∀ e ∈ es, e.marks = false) :
    es.countP Event.enters = 0 :=
  List.countP_eq_zero.mpr fun e he => by simp [Event.enters_of_not_marks (none e he)]

theorem Passes.deeds {w : World} {t : TaskId} {j : Job} {es : List Event} {next : Option Job}
    (h : Passes w t j es next) :
    es.countP Event.enters ≤ 1 ∧ ∀ e ∈ es, e.marks = true → e.deals = true ∧ Stems e j := by
  have idle : (∀ e ∈ es, e.marks = false) →
      es.countP Event.enters ≤ 1 ∧ ∀ e ∈ es, e.marks = true → e.deals = true ∧ Stems e j := by
    intro none
    refine ⟨Nat.le_succ_of_le (Nat.le_of_eq (countP_enters_of_not_marks none)),
      fun e he marks => ?_⟩
    rw [none e he] at marks
    cases marks
  cases h with
  | noted key m => simp [Stems.delivered, Event.enters, Event.deals]
  | unexpected i c m caller alive unasked =>
    cases c.reportsUnexpected <;>
      simp [Stems.delivered, Event.marks, Event.deals, Event.enters]
  | ignored s v m server alive judged => simp [Stems.delivered, Event.enters, Event.deals]
  | served s v h m server alive judged =>
    simp [Stems.delivered, Stems.handled, Event.enters, Event.deals]
  | useAtOnce u registered => exact idle (w.onward_marks t u)
  | use u registered => exact idle (w.onward_marks t u)
  | sendRefused l m after s refusal other =>
    cases after <;> exact idle (by simp [AfterSend.events, Event.marks, Event.deals])
  | unregisterRefused l source sink listener after s refusal =>
    cases after <;> exact idle (by simp [AfterUnregister.events, Event.marks, Event.deals])
  | _ => exact idle (by simp [Event.marks, Event.deals])

theorem Replies.deeds {w : World} {s : ServerId} {m : Message} {j : Job} {es : List Event}
    {draft : Draft} {payload : Option Payload} (h : Replies w s m j es draft payload) :
    es.countP Event.enters = 0 ∧ (∀ e ∈ es, e.deals = true ∧ Stems e j) ∧
      ∀ r, Stems (.answered s m r) j := by
  cases h with
  | ended h => exact ⟨rfl, by simp, fun r => .ended s h m r⟩
  | unserved v draft server alive judged =>
    exact ⟨rfl, by simp [Stems.delivered, Event.deals], fun r => .unserved s m r⟩

open World

/-- The event is a deed of the running task, which is gone when it has been refused. -/
def Move.Deed (a b : Option TaskId × World) (e : Event) : Prop :=
  ∃ (w : World) (t : TaskId) (j : Job), a = (some t, w.park t j) ∧ Stems e j ∧
    (e.deals = false → b.2.tasks.get? t = none)

/-- What is recorded from the one world to the other is the deed of the running task, and enters one
handler at most. -/
def Move.Logs (a b : Option TaskId × World) : Prop :=
  ∃ es, b.2.events = es ++ a.2.events ∧ (es.map (·.2)).countP Event.enters ≤ 1 ∧
    ∀ e ∈ es, e.2.marks = true → Move.Deed a b e.2

/-- An event that is no refusal is a deed of the task that it stems from. -/
theorem Move.Deed.of_deals {w : World} {t : TaskId} {j : Job} {b : Option TaskId × World}
    {e : Event} (deals : e.deals = true) (stems : Stems e j) :
    Move.Deed (some t, w.park t j) b e :=
  ⟨w, t, j, rfl, stems, fun other => absurd (deals.symm.trans other) (by simp)⟩

theorem Move.Logs.of_events {a b : Option TaskId × World} (es : List Event) (now : Nat)
    (events : b.2.events = (es.map fun e => (now, e)).reverse ++ a.2.events)
    (once : es.countP Event.enters ≤ 1) (deeds : ∀ e ∈ es, e.marks = true → Move.Deed a b e) :
    Move.Logs a b := by
  refine ⟨_, events, by simpa [Function.comp_def] using once, fun entry mem marks => ?_⟩
  obtain ⟨e, he, rfl⟩ := List.mem_map.mp (List.mem_reverse.mp mem)
  exact deeds e he marks

theorem Move.Logs.idle {a b : Option TaskId × World} (es : History)
    (events : b.2.events = es ++ a.2.events) (unmarked : ∀ e ∈ es, e.2.marks = false) :
    Move.Logs a b := by
  have few := countP_enters_of_not_marks (List.forall_mem_map.mpr unmarked)
  refine ⟨es, events, Nat.le_succ_of_le (Nat.le_of_eq few), fun e he marks => ?_⟩
  rw [unmarked e he] at marks
  cases marks

/-- A call that is refused takes its task with it. -/
theorem Move.Logs.refused {w u : World} {t : TaskId} {j : Job} {i : CallerId} {id : MessageId}
    {s : Status} (free : w.tasks.get? t = none) (tasks : u.tasks = w.tasks) (es : History)
    (events : u.events = es ++ w.events) (unmarked : ∀ e ∈ es, e.2.marks = false)
    (stems : Stems (.ended i id (.refused s)) j) :
    Move.Logs (some t, w.park t j) (none, u.complete i id (.refused s)) := by
  have few := countP_enters_of_not_marks (List.forall_mem_map.mpr unmarked)
  refine ⟨(u.now, .ended i id (.refused s)) :: es, by simp [events], ?_, fun e he marks => ?_⟩
  · rw [List.map_cons, List.countP_cons_of_neg (by simp [Event.enters]), few]
    exact Nat.zero_le 1
  · rcases List.mem_cons.mp he with rfl | he
    · exact ⟨w, t, j, rfl, stems, fun _ => gone_of_complete (tasks ▸ free) i id (.refused s)⟩
    · rw [unmarked e he] at marks
      cases marks

theorem World.invoke_marks (w : World) (i : CallerId) (method : Address) (payload : Option Payload)
    (options : CallOptions) : ∃ es, (w.invoke i method payload options).2.events = es ++ w.events ∧
      ∀ e ∈ es, e.2.marks = false := by
  rcases invoke_cases w i method payload options with
    ⟨e, he⟩ | ⟨e, he⟩ | ⟨c, m, -, -, -, -, he⟩ <;> rw [he]
  · exact ⟨[], rfl, by simp⟩
  · exact ⟨[], rfl, by simp⟩
  · exact ⟨[(w.now, .accepted i w.mint.1 options.timeout)], rfl,
      by simp [Event.marks, Event.deals]⟩

theorem Move.deeds {a b : Option TaskId × World} (hm : Move a b) : Move.Logs a b := by
  cases hm with
  | @pass w t j es next free passes =>
    obtain ⟨once, deeds⟩ := passes.deeds
    refine .of_events es w.now (by simp) once fun e he marks => ?_
    obtain ⟨deals, stems⟩ := deeds e he marks
    exact .of_deals deals stems
  | @expire w t i id timeout free =>
    exact .idle [(w.now, .ended i id (.lapsed timeout))] (by simp)
      (by simp [Event.marks, Event.deals])
  | @answered w t i c m id free caller alive answers =>
    have told : ∀ e ∈ if (c.pending? id).isNone && c.reportsUnexpected then [Event.unexpected i m]
        else [], e.marks = false := by
      split <;> simp [Event.marks, Event.deals]
    generalize (if (c.pending? id).isNone && c.reportsUnexpected then [Event.unexpected i m]
      else []) = es at told ⊢
    refine .of_events (.delivered (.engine (.caller i)) m :: .ended i id (.answered m) :: es) w.now
      (by simp [recordAll_events]) (by simp [countP_enters_of_not_marks told, Event.enters])
      fun e he marks => ?_
    simp only [List.mem_cons] at he
    rcases he with rfl | rfl | he
    · exact .of_deals rfl (.delivered _ m)
    · cases marks
    · rw [told e he] at marks
      cases marks
  | @reply w t s v m r j es draft payload free server replies finish =>
    obtain ⟨none, deeds, answers⟩ := replies.deeds
    refine .of_events (es ++ [.answered s m r, .sent v.seat.link r]) w.now
      (by simp [recordAll_events]) (by simp [none, Event.enters]) fun e he marks => ?_
    simp only [List.mem_append, List.mem_cons, List.not_mem_nil, or_false] at he
    rcases he with he | rfl | rfl
    · exact .of_deals (deeds e he).1 (deeds e he).2
    · exact .of_deals rfl (answers r)
    · cases marks
  | @mute w t s v m j es draft payload e free server replies finish =>
    obtain ⟨none, deeds, answers⟩ := replies.deeds
    exact .of_events es w.now (by simp [recordAll_events]) (by simp [none]) fun e he _ =>
      .of_deals (deeds e he).1 (deeds e he).2
  | @enrol w t r u hub free registration =>
    refine .idle ((((w.onward t u).1.map fun e => (w.now, e)).reverse) ++
      [(w.now, .attempted u.engine (.ok ()))]) (by simp) fun e he => ?_
    simp only [List.mem_append, List.mem_reverse, List.mem_map, List.mem_singleton] at he
    rcases he with ⟨e, he, rfl⟩ | rfl
    · exact w.onward_marks t u e he
    · rfl
  | @failRequest w t r i id m s free refusal =>
    exact .refused free (by simp) [(w.now, .attempted (.caller i) (.error s))] (by simp)
      (by simp [Event.marks, Event.deals]) (.unheard i id m s _ rfl)
  | @failServe w t r sv method h s free refusal =>
    exact .idle [(w.now, .finished t (.error (.failure (.transport s)))),
      (w.now, .attempted (.server sv) (.error s))] (by simp) (by simp [Event.marks, Event.deals])
  | @enlist w t r p hub free registration =>
    exact .idle [(w.now, .finished t (p.result (.ok ())))] (by simp)
      (by simp [Event.marks, Event.deals])
  | @unlist w t l source sink listener after hub free unregistration =>
    refine .idle ((after.events t (.ok ())).map fun e => (w.now, e)).reverse
      (by simp [recordAll_events]) ?_
    cases after <;> simp [AfterUnregister.events, Event.marks, Event.deals]
  | @refuse w t l m i id s free refusal =>
    exact .refused free rfl [] rfl (by simp) (.unsent i id l m s)
  | @broadcast w t l m after free accepted =>
    refine .idle ((after.events t (.ok ())).map fun e => (w.now, e)).reverse
      (by simp [recordAll_events]) ?_
    cases after <;> simp [AfterSend.events, Event.marks, Event.deals]
  | @closeDeaf w t e p free seat opened unregistered =>
    exact .idle [(w.now, .finished t (.ok ()))] (by simp) (by simp [Event.marks, Event.deals])
  | @post w t o l resource draft payload options link topic m free posting linked onTopic finish =>
    exact .idle [(w.now, .sent l m)] (by simp) (by simp [Event.marks, Event.deals])
  | @postInvalid w t o l resource draft payload options link topic e free posting linked onTopic
      finish =>
    exact .idle [(w.now, .finished t (.error (.failure e)))] (by simp)
      (by simp [Event.marks, Event.deals])
  | @call w v t i method payload options accepted free hi =>
    obtain ⟨es, events, none⟩ := invoke_marks w i method payload options
    rw [hi] at events
    exact .idle es (by simpa using events) none
  | @callRefused w v t i method payload options e free hi =>
    obtain ⟨es, events, none⟩ := invoke_marks w i method payload options
    rw [hi] at events
    exact .idle ((v.now, .resolved t (.error e)) :: es) (by simpa using events)
      (by simpa [Event.marks, Event.deals] using none)
  | _ => exact .idle [] (by simp) (by simp)

/-- A delivery is done with in one move. -/
theorem Move.delivers {a b : Option TaskId × World} (hm : Move a b) {w : World} {t : TaskId}
    {l : Listener} {m : Message} (ha : a = (some t, w.park t (.deliver l m))) {x : Task}
    (task : b.2.tasks.get? t = some x) (l' : Listener) (m' : Message) : x.job ≠ .deliver l' m' := by
  have gone : ∀ {u : World}, u.tasks.get? t = none → u.tasks.get? t ≠ some x := by
    intro u free task
    rw [free] at task
    cases task
  obtain ⟨u, -, free, delivers⟩ := hm.delivering ha
  cases delivers with
  | @passed l m es next passes =>
    cases next with
    | none => exact absurd task (gone (by simpa using free))
    | some j =>
      have hx : ⟨j, false⟩ = x := by simpa using task
      rw [← hx]
      exact fun he => passes.next_ne_deliver l' m' (congrArg some he)
  | answered caller alive answers =>
    exact absurd task (gone (by simpa using gone_of_complete (by simpa using free) ..))
  | replied server alive judged finish =>
    rw [park_self] at task
    cases task
    simp
  | muted server alive judged => exact absurd task (gone (by simpa using free))

/-- No message is dealt with at the outset of an act, and no call refused. -/
theorem Outset.deeds {w : World} {a : Act} {b : Option TaskId × World} (ho : Outset w a b) :
    ∃ es, b.2.events = es ++ w.events ∧ ∀ e ∈ es, e.2.marks = false := by
  cases ho with
  | invoke i method payload options owned => exact invoke_marks w i method payload options
  | fire due next => exact ⟨[], by simp [World.fire], by simp⟩
  | hold e owned => exact ⟨[], by simp [World.hold], by simp⟩
  | drop e side owned => exact ⟨[], by simp, by simp⟩
  | _ => exact ⟨[], rfl, by simp⟩

namespace World

variable {w : World} {a : Act} {k : TaskId}

/-! ## What happens in an act -/

theorem eventsSince_of_events {v : World} {es : History}
    (events : v.events = es ++ w.events) :
    v.eventsSince w.events.length = (es.map (·.2)).reverse := by
  simp [eventsSince, events]

/-- The events of an act, in the order in which they happen. -/
def newly (w : World) (a : Act) : List Event := (w.act a).eventsSince w.events.length

theorem newly_of_events {es : History} (events : (w.act a).events = es ++ w.events) :
    w.newly a = (es.map (·.2)).reverse :=
  eventsSince_of_events events

/-- The task that runs in an act, with the job that it has in hand at first. -/
def turn? (w : World) : Act → Option (TaskId × Job)
  | .turn t =>
    match w.tasks.get? t with
    | some ⟨j, false⟩ => some (t, j)
    | _ => none
  | .command (.enter o) => some (w.tasks.next, .start o)
  | _ => none

/-- It takes its turn, or is new and starts an operation. -/
theorem turn?_cases {j : Job} (h : w.turn? a = some (k, j)) :
    a = .turn k ∧ w.tasks.get? k = some ⟨j, false⟩ ∨
      ∃ o, a = .command (.enter o) ∧ k = w.tasks.next ∧ j = .start o := by
  unfold turn? at h
  split at h
  · split at h
    · rename_i task
      cases h
      exact .inl ⟨rfl, task⟩
    · cases h
  · cases h
    exact .inr ⟨_, rfl, rfl, rfl⟩
  · cases h

/-- At the outset of an act its task runs and has its job in hand, or no task runs. -/
theorem turn?_of_outset {b : Option TaskId × World} (ho : Outset w a b) :
    b.1 = (w.turn? a).map Prod.fst ∧
      ∀ t j, w.turn? a = some (t, j) → b.2.tasks.get? t = some ⟨j, false⟩ := by
  cases ho with
  | take t j ready task =>
    refine ⟨by simp [turn?, task], fun t' j' runs => ?_⟩
    simp only [turn?, task, Option.some.injEq, Prod.mk.injEq] at runs
    obtain ⟨rfl, rfl⟩ := runs
    exact park_self ..
  | discard t j ready task => simp [turn?, task]
  | stale t ready task => simp [turn?, task]
  | enter o allowed =>
    refine ⟨rfl, fun t' j' runs => ?_⟩
    simp only [turn?, Option.some.injEq, Prod.mk.injEq] at runs
    obtain ⟨rfl, rfl⟩ := runs
    exact park_self ..
  | idle c same starts =>
    cases c with
    | enter o => exact absurd rfl (starts o).1
    | _ => exact ⟨rfl, fun _ _ runs => by cases runs⟩
  | _ => exact ⟨rfl, fun _ _ runs => by cases runs⟩

/-- What the running task has in hand in the middle of an act stems from what it had at first. -/
theorem turn?_of_moves {F : Job → Prop}
    (back : ∀ u t j j', Leads u t j j' → (∀ l m, j' ≠ .deliver l m) → F j' → F j)
    {b c : Option TaskId × World} (ho : Outset w a b) (hm : Moves b c) {j : Job}
    (runs : c.1 = some k) (task : c.2.tasks.get? k = some ⟨j, false⟩) (hj : F j) :
    ∃ j₀, w.turn? a = some (k, j₀) ∧ F j₀ := by
  induction hm generalizing j with
  | refl =>
    obtain ⟨running, hand⟩ := turn?_of_outset ho
    obtain ⟨⟨t, j₀⟩, turn, rfl⟩ := Option.map_eq_some_iff.mp (running.symm.trans runs)
    cases task.symm.trans (hand t j₀ turn)
    exact ⟨j, turn, hj⟩
  | tail _ last ih =>
    obtain ⟨u, j₀, rfl, leads, other⟩ := last.goes runs task
    exact ih rfl (park_self u k j₀) (back u k j₀ j leads other hj)

/-- The act is the turn of a task, and the event is a deed of this task. -/
def Deals (w : World) (a : Act) (e : Event) : Prop :=
  ∃ k j, a = .turn k ∧ w.tasks.get? k = some ⟨j, false⟩ ∧ Stems e j

/-- What the running task may still deal with in the middle of an act is a deed of the task whose
turn it is. -/
theorem dealing {b c : Option TaskId × World} (ho : Outset w a b) (hm : Moves b c) {j : Job}
    {e : Event} (runs : c.1 = some k) (task : c.2.tasks.get? k = some ⟨j, false⟩)
    (deals : e.deals = true) (stems : Stems e j) : a = .turn k ∧ w.Deals a e := by
  obtain ⟨j₀, turn, stems⟩ := turn?_of_moves
    (fun _ _ _ _ leads other stems => Stems.back stems deals leads other) ho hm runs task stems
  rcases turn?_cases turn with ⟨rfl, task⟩ | ⟨o, -, -, rfl⟩
  · exact ⟨rfl, k, j₀, rfl, task, stems⟩
  · cases stems with
    | _ => cases deals

theorem moves_dealt {b c : Option TaskId × World} (ho : Outset w a b) (hm : Moves b c) :
    ∃ es, c.2.events = es ++ w.events ∧ ∀ e ∈ es, e.2.deals = true → w.Deals a e.2 := by
  induction hm with
  | refl =>
    obtain ⟨es, events, none⟩ := ho.deeds
    refine ⟨es, events, fun e he deals => ?_⟩
    have marks := Event.marks_of_deals deals
    rw [none e he] at marks
    cases marks
  | tail before last ih =>
    obtain ⟨es, events, dealt⟩ := ih
    obtain ⟨es', events', -, deeds⟩ := last.deeds
    refine ⟨es' ++ es, by rw [events', events, List.append_assoc], fun e he deals => ?_⟩
    rcases List.mem_append.mp he with he | he
    · obtain ⟨u, t, j, rfl, stems, -⟩ := deeds e he (Event.marks_of_deals deals)
      exact (dealing ho before rfl (park_self u t j) deals stems).2
    · exact dealt e he deals

/-- **A message is dealt with in the turn of a task that has it in hand.** -/
theorem newly_dealt (tidy : w.Tidy) (possible : a.IsPossible w) {e : Event} (he : e ∈ w.newly a)
    (deals : e.deals = true) : w.Deals a e := by
  obtain ⟨b, ho, hm⟩ := act_moves tidy.tasks possible
  obtain ⟨es, events, dealt⟩ := moves_dealt ho hm
  rw [newly_of_events events, List.mem_reverse, List.mem_map] at he
  obtain ⟨e, he, rfl⟩ := he
  exact dealt e he deals

/-- A task that is at a handler was at it before the act, or has taken its turn in it, with the
message in hand. -/
theorem act_handling (tidy : w.Tidy) (possible : a.IsPossible w) {x : Task} {s : ServerId}
    {h : Handler} {m : Message} (task : (w.act a).tasks.get? k = some x)
    (job : x.job = .handle s h m) :
    (∃ y, w.tasks.get? k = some y ∧ y.job = .handle s h m) ∨
      a = .turn k ∧ ∃ j, w.tasks.get? k = some ⟨j, false⟩ ∧ j.InHand s m := by
  obtain ⟨b, ho, hm⟩ := act_moves tidy.tasks possible
  suffices ∀ c, Moves b c → c.2.Tidy ∧ ∀ x, c.2.tasks.get? k = some x → x.job = .handle s h m →
      (∃ y, w.tasks.get? k = some y ∧ y.job = .handle s h m) ∨
        a = .turn k ∧ ∃ j, w.tasks.get? k = some ⟨j, false⟩ ∧ j.InHand s m from
    (this _ hm).2 x task job
  intro c hc
  induction hc with
  | refl =>
    refine ⟨tidy.outset ho, fun x task job => ?_⟩
    rcases ho.lineage task with old | ⟨-, begins, -⟩
    · exact .inl ⟨x, old, job⟩
    · rw [job] at begins
      cases begins
  | @tail c d before last ih =>
    obtain ⟨tidy, ih⟩ := ih
    refine ⟨tidy.move last, fun x task job => ?_⟩
    rcases last.lineage tidy task with ⟨y, hy, same⟩ | ⟨u, j, rfl, leads, other⟩ | ⟨-, begins, -⟩
    · exact ih y hy (same ▸ job)
    · have hand : j.InHand s m := leads.inHand other (by rw [job]; exact .handling h)
      obtain ⟨ha, k', j', ha', task', stems⟩ :=
        dealing (e := .answered s m m) ho before rfl (park_self u k j) rfl (hand.stems m)
      cases ha.symm.trans ha'
      exact .inr ⟨ha, j', task', stems.inHand⟩
    · rw [job] at begins
      cases begins

/-- A task that does not run is left alone by a move; only deadlines of calls are cancelled. -/
theorem Wakeful.keeps {b c : Option TaskId × World} (h : b.2.Wakeful) (hm : Move b c)
    (tidy : b.2.Tidy) {x : Task} (task : b.2.tasks.get? k = some x) (other : b.1 ≠ some k)
    (never : x.job.call? = none) : c.2.tasks.get? k = some x := by
  rcases hm.stays tidy task other with same | ⟨-, i, id, p, pending, rfl⟩
  · exact same
  · obtain ⟨c, caller, pending⟩ := Option.bind_eq_some_iff.mp pending
    have mem : p ∈ b.2.pendingOf i := by
      rw [pendingOf, caller]
      exact List.mem_of_find?_eq_some pending
    have call : x.job.call?.isSome = true := (h.due i p mem).2 x task
    rw [never] at call
    cases call

theorem Wakeful.act_keeps (h : w.Wakeful) (tidy : w.Tidy) (possible : a.IsPossible w) {x : Task}
    (task : w.tasks.get? k = some x) (alive : x.cancelled = false) (other : a ≠ .turn k)
    (never : x.job.call? = none) : (w.act a).tasks.get? k = some x := by
  obtain ⟨b, ho, hm⟩ := act_moves tidy.tasks possible
  suffices ∀ c, Moves b c → (c.2.Tidy ∧ c.2.Wakeful) ∧ c.1 ≠ some k ∧ c.2.tasks.get? k = some x from
    (this _ hm).2.2
  intro c hc
  induction hc with
  | refl =>
    refine ⟨⟨tidy.outset ho, h.outset ho tidy⟩, fun runs => other (ho.turn tidy task runs), ?_⟩
    rcases ho.stays tidy task with same | ⟨cancelled, -⟩
    · exact same
    · rw [alive] at cancelled
      cases cancelled
  | tail _ last ih =>
    obtain ⟨⟨tidy, h⟩, idle, task⟩ := ih
    exact ⟨⟨tidy.move last, h.move last tidy⟩, fun goes => idle (last.ran goes),
      h.keeps last tidy task idle never⟩

end World

end Switchboard
