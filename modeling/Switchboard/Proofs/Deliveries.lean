import Switchboard.Proofs.Queueing

/-! # What listeners receive

What a listener has received and what waits for it in the queue is at all times what was addressed
to it, and in the same order if deliveries take their turns in the order of the queue. Main
statement: `received_as_addressed`.
-/

namespace Switchboard

/-- The message that the task is to pass to the hub through a link. -/
def Job.sending? : Job → Option (LinkId × Message)
  | .send l m _ => some (l, m)
  | _ => none

def Event.sending? : Event → Option (LinkId × Message)
  | .sent l m => some (l, m)
  | _ => none

namespace World

/-- What a link has in hand for the hub in an act: the running task has waited for its delay, or
has just passed the message to it. -/
def atLink (w : World) (a : Act) : List (LinkId × Message) :=
  ((w.turn? a).bind fun x => x.2.sending?).toList ++ (w.newly a).filterMap Event.sending?

/-- What is passed to the hub in an act, unless the task is still to wait for the link's delay or
the link refuses. -/
def passes (w : World) (a : Act) : List Message :=
  if (w.turn? a).any fun x => ((w.act a).tasks.get? x.1).isNone then
    ((w.atLink a).filter fun x => (w.refusal? x.1 .send).isNone).map (·.2)
  else []

def received (l : Listener) : World → List Act → List Message
  | _, [] => []
  | w, a :: as => w.receives l a ++ received l (w.act a) as

/-- What is addressed to a listener in a run: of every message that is passed to the hub, one copy
for each of its registrations on the hub that accept it. An act that passes a message on has done
with the hub before, so these are the registrations at that moment. -/
def addressed (l : Listener) : World → List Act → List Message
  | _, [] => []
  | w, a :: as => (w.passes a).flatMap ((w.act a).hub.copies l) ++ addressed l (w.act a) as

end World

namespace World

variable {α : Type} {w v : World} {a : Act}

def seen (w : World) (f : Event → Option α) : List α := w.events.reverse.filterMap (f ·.2)

theorem seen_congr {f : Event → Option α} (events : v.events = w.events) : v.seen f = w.seen f := by
  rw [seen, seen, events]

theorem seen_append {f : Event → Option α} {es : History} (events : v.events = es ++ w.events) :
    v.seen f = w.seen f ++ (es.map (·.2)).reverse.filterMap f := by
  rw [seen, seen, events, List.reverse_append, List.filterMap_append, ← List.map_reverse,
    List.filterMap_map]
  rfl

@[simp] theorem record_seen (w : World) (e : Event) (f : Event → Option α) :
    (w.record e).seen f = w.seen f ++ (f e).toList := by
  cases h : f e <;> simp [seen, record, h]

@[simp] theorem recordAll_seen (w : World) (es : List Event) (f : Event → Option α) :
    (w.recordAll es).seen f = w.seen f ++ es.filterMap f := by
  induction es generalizing w with
  | nil => simp
  | cons e es ih =>
    rw [recordAll_cons, ih, record_seen, List.append_assoc, List.filterMap_cons]
    cases f e <;> rfl

@[simp] theorem complete_seen (w : World) (i : CallerId) (id : MessageId) (cause : Cause)
    (f : Event → Option α) :
    (w.complete i id cause).seen f = w.seen f ++ (f (.ended i id cause)).toList := by
  rw [← record_seen]
  exact seen_congr (by simp)

@[simp] theorem proceed_seen (w : World) (t : TaskId) (es : List Event) (next : Option Job)
    (f : Event → Option α) : (w.proceed t es next).seen f = w.seen f ++ es.filterMap f := by
  rw [← recordAll_seen]
  cases next <;> rfl

@[simp] theorem park_seen (w : World) (t : TaskId) (j : Job) (f : Event → Option α) :
    (w.park t j).seen f = w.seen f := rfl

@[simp] theorem withHub_seen (w : World) (h : Hub) (f : Event → Option α) :
    { w with hub := h }.seen f = w.seen f := rfl

@[simp] theorem mint_seen (w : World) (f : Event → Option α) : w.mint.2.seen f = w.seen f := rfl

@[simp] theorem modifySeat_seen (w : World) (g : Seat → Seat) (e : EngineId)
    (f : Event → Option α) : (w.modifySeat g e).seen f = w.seen f := seen_congr (by simp)

@[simp] theorem modifyServer_seen (w : World) (s : ServerId) (g : Server → Server)
    (f : Event → Option α) : (w.modifyServer s g).seen f = w.seen f := rfl

@[simp] theorem settleCell_seen (w : World) (e : EngineId) (r : Except Status Unit)
    (f : Event → Option α) : (w.settleCell e r).seen f = w.seen f := seen_congr (by simp)

@[simp] theorem broadcast_seen (w : World) (m : Message) (f : Event → Option α) :
    (w.broadcast m).seen f = w.seen f := seen_congr (by simp)

theorem invoke_seen (w : World) {f : Event → Option α}
    (other : ∀ i id timeout, f (.accepted i id timeout) = none) (i : CallerId) (method : Address)
    (payload : Option Payload) (options : CallOptions) :
    (w.invoke i method payload options).2.seen f = w.seen f := by
  rcases invoke_cases w i method payload options with
    ⟨e, he⟩ | ⟨e, he⟩ | ⟨c, m, -, -, -, -, he⟩ <;> rw [he]
  · rfl
  · have recorded : (w.mint.2.accept i m w.mint.1 options.timeout).2.seen f =
        (w.record (.accepted i w.mint.1 options.timeout)).seen f :=
      seen_congr (by simp)
    exact recorded.trans (by simp [other])

/-- At the outset of an act nothing happens but that a call is accepted. -/
theorem seen_outset {f : Event → Option α}
    (other : ∀ i id timeout, f (.accepted i id timeout) = none) {b : Option TaskId × World}
    (ho : Outset w a b) : b.2.seen f = w.seen f := by
  cases ho with
  | invoke i method payload options owned => exact invoke_seen w other ..
  | fire due next => exact seen_congr (by simp [World.fire])
  | hold e owned => exact seen_congr (by simp [World.hold])
  | drop e side owned => exact seen_congr (by simp)
  | _ => rfl

theorem newly_seen (tidy : w.Tidy) (possible : a.IsPossible w) (f : Event → Option α) :
    (w.act a).seen f = w.seen f ++ (w.newly a).filterMap f := by
  obtain ⟨es, events⟩ := (grows_act tidy possible).2.events
  rw [newly_of_events events.symm, seen_append events.symm]

/-! ## What links pass to the hub -/

abbrev dispatched (w : World) : List (LinkId × Message) := w.seen Event.sending?

/-- A task that uses its engine's listener passes a request to a link, or has done. -/
theorem onward_sends (w : World) (t : TaskId) (u : Use) :
    (w.onward t u).1.filterMap Event.sending? = ((w.onward t u).2.bind Job.sending?).toList := by
  cases u with
  | request i id m =>
    simp only [onward]
    split <;> rfl
  | serve s method h => rfl

end World

open World

/-- What a task that only passes on passes to a link it has in hand next. A message that it has in
hand is refused. -/
theorem Passes.sends {w : World} {t : TaskId} {j : Job} {es : List Event} {next : Option Job}
    (h : Passes w t j es next) :
    es.filterMap Event.sending? = (next.bind Job.sending?).toList ∧
      ∀ x, j.sending? = some x → next = none ∧ (w.refusal? x.1 .send).isSome = true := by
  cases h with
  | unexpected i c m caller alive unasked =>
    cases c.reportsUnexpected <;> simp [Event.sending?, Job.sending?]
  | useAtOnce u registered => exact ⟨w.onward_sends t u, by simp [Job.sending?]⟩
  | use u registered => exact ⟨w.onward_sends t u, by simp [Job.sending?]⟩
  | seatless u j job seat => rcases job with rfl | rfl <;> simp [Job.sending?]
  | sendRefused l m after s refusal other =>
    refine ⟨by cases after <;> rfl, fun x hx => ⟨rfl, ?_⟩⟩
    cases hx
    simp [refusal]
  | unregisterRefused l source sink listener after s refusal =>
    cases after <;> simp [AfterUnregister.events, Event.sending?, Job.sending?]
  | _ => simp [Event.sending?, Job.sending?]

/-- What becomes of a task that passes nothing to the hub in a move: it goes on with what it has
passed to a link, if anything, or waits, or has ended and was refused what it had in hand. -/
inductive Hands (a b : Option TaskId × World) (t : TaskId) (j : Job) : Prop
  | goes (j' : Job) (runs : b.1 = some t) (task : b.2.tasks.get? t = some ⟨j', false⟩)
      (empty : j.sending? = none) (sent : b.2.dispatched = a.2.dispatched ++ j'.sending?.toList)
  | waits (idle : b.1 = none) (sent : b.2.dispatched = a.2.dispatched)
      (task : (b.2.tasks.get? t).isSome = true)
  | ends (idle : b.1 = none) (sent : b.2.dispatched = a.2.dispatched)
      (gone : b.2.tasks.get? t = none)
      (refused : ∀ x, j.sending? = some x → (a.2.refusal? x.1 .send).isSome = true)

theorem Move.hands {a b : Option TaskId × World} (hm : Move a b) (tidy : a.2.Tidy) {t : TaskId}
    {j : Job} (runs : a.1 = some t) (task : a.2.tasks.get? t = some ⟨j, false⟩)
    (quiet : ∀ m, ¬Broadcasts a b m) : Hands a b t j := by
  have hand : ∀ {w : World} {t' : TaskId} {j' : Job}, a = (some t', w.park t' j') →
      t' = t ∧ j' = j := fun heq => running_task heq runs task
  have ends : ∀ {w v : World} {t' : TaskId} {j' : Job}, a = (some t', w.park t' j') →
      b = (none, v) → v.dispatched = w.dispatched → v.tasks.get? t' = none →
      j'.sending? = none → Hands a b t j := by
    intro w v t' j' ha hb sent gone empty
    obtain ⟨rfl, rfl⟩ := hand ha
    subst ha hb
    exact .ends rfl sent gone (by simp [empty])
  cases hm with
  | remove seat unowned alive unheld => cases runs
  | @pass w t' j' es next free passes =>
    obtain ⟨rfl, rfl⟩ := hand rfl
    obtain ⟨sent, refused⟩ := passes.sends
    cases next with
    | none =>
      exact .ends rfl (by simp [sent]) (by simpa using free)
        fun x hx => (refused x hx).2
    | some j'' =>
      refine .goes j'' rfl (by simp) (Option.eq_none_iff_forall_ne_some.mpr fun x hx => ?_)
        (by simp [sent])
      cases (refused x hx).1
  | doze free dozes => exact .waits rfl rfl (by simp [(hand rfl).1])
  | rest free => exact .waits rfl rfl (by simp [(hand rfl).1])
  | arm free => exact .waits rfl rfl (by simp [(hand rfl).1])
  | wait free seat attempting => exact .waits rfl (by simp) (by simp [(hand rfl).1])
  | await free place pending => exact .waits rfl rfl (by simp [(hand rfl).1])
  | @broadcast w t' l m after free accepted =>
    exact absurd ⟨w, t', l, after, rfl, free, accepted, rfl⟩ (quiet m)
  | @refuse w t' l m i id s free refusal =>
    obtain ⟨rfl, rfl⟩ := hand rfl
    refine .ends rfl (by simp [Event.sending?]) (gone_of_complete free ..) fun x hx => ?_
    cases hx
    exact Option.isSome_of_eq_some refusal
  | @enrol w t' r u hub free registration =>
    obtain ⟨rfl, rfl⟩ := hand rfl
    have sent := w.onward_sends t' u
    cases next : (w.onward t' u).2 with
    | none =>
      refine .ends rfl ?_ (by simpa [next] using free) fun x hx => by cases hx
      rw [next] at sent
      simp [sent, Event.sending?]
    | some j' =>
      rw [next] at sent
      exact .goes j' rfl (by simp) rfl (by simp [sent, Event.sending?])
  | @reply w t' s v m r j es draft payload free server replies finish =>
    obtain ⟨rfl, rfl⟩ := hand rfl
    refine .goes _ rfl (park_self ..) (by cases replies <;> rfl) ?_
    cases replies <;> simp [Event.sending?, Job.sending?]
  | @mute w t' s v m j es draft payload e free server replies finish =>
    exact ends rfl rfl (by cases replies <;> simp [Event.sending?]) (by simpa using free)
      (by cases replies <;> rfl)
  | @claim w t' u p free seat vacant =>
    obtain ⟨rfl, rfl⟩ := hand rfl
    exact .goes _ rfl (park_self ..) rfl (by simp [Job.sending?])
  | @addHandler w t' s v method h free server vacant =>
    obtain ⟨rfl, rfl⟩ := hand rfl
    exact .goes _ rfl (park_self ..) rfl (by simp [Job.sending?])
  | @closeListening w t' e p free seat opened registered =>
    obtain ⟨rfl, rfl⟩ := hand rfl
    exact .goes _ rfl (park_self ..) rfl (by simp [Job.sending?])
  | @post w t' o l resource draft payload options link topic m free posting linked onTopic finish =>
    obtain ⟨rfl, rfl⟩ := hand rfl
    exact .goes _ rfl (park_self ..) rfl (by simp [Job.sending?, Event.sending?])
  | @call w v t' i method payload options accepted free invoked =>
    obtain ⟨rfl, rfl⟩ := hand rfl
    have sent : (w.invoke i method payload options).2.dispatched = w.dispatched :=
      invoke_seen w (fun _ _ _ => rfl) i method payload options
    rw [invoked] at sent
    exact .goes _ rfl (park_self ..) rfl (by simp [Job.sending?, show v.dispatched = _ from sent])
  | @callRefused w v t' i method payload options e free invoked =>
    have sent : (w.invoke i method payload options).2.dispatched = w.dispatched :=
      invoke_seen w (fun _ _ _ => rfl) i method payload options
    have gone := invoke_free free tidy.lt i method payload options
    rw [invoked] at sent gone
    exact ends rfl rfl (by simpa [Event.sending?] using sent) gone rfl
  | @expire w t' i id timeout free =>
    exact ends rfl rfl (by simp [Event.sending?]) (gone_of_complete free ..) rfl
  | @answered w t' i c m id free caller alive answers =>
    refine ends rfl rfl ?_ ?_ rfl
    · split <;> simp [Event.sending?]
    · simpa using gone_of_complete (w := w.record _) free i id (.answered m)
  | @failRequest w t' r i id m s free refusal =>
    exact ends rfl rfl (by simp [Event.sending?])
      (gone_of_complete (by simpa using free) i id (.refused s)) rfl
  | @failServe w t' r sv method h s free refusal =>
    exact ends rfl rfl (by simp [Event.sending?]) (by simpa using free) rfl
  | @unlist w t' l source sink listener after hub free unregistration =>
    refine ends rfl rfl ?_ (by simpa using free) rfl
    cases after <;> simp [AfterUnregister.events, Event.sending?]
  | _ => exact ends rfl rfl (by simp [Event.sending?]) (by simpa using (by assumption)) rfl

namespace World

variable {w : World} {a : Act} {l : Listener} {q : List Message} {b c : Option TaskId × World}
  {sent : List (LinkId × Message)}

/-- What has become, in the middle of an act, of what its task has in hand for the hub. -/
inductive Handing (w : World) (a : Act) (l : Listener) (q : List Message)
    (sent : List (LinkId × Message)) (c : Option TaskId × World) : Prop
  /-- It still has it in hand. -/
  | busy (t : TaskId) (j₀ j : Job) (turn : w.turn? a = some (t, j₀)) (runs : c.1 = some t)
      (task : c.2.tasks.get? t = some ⟨j, false⟩)
      (hand : j₀.sending?.toList ++ sent = j.sending?.toList) (links : c.2.links = w.links)
      (queued : c.2.queued l = q)
  /-- It waits, or there is no such task. -/
  | waits (idle : c.1 = none)
      (task : ∀ t j₀, w.turn? a = some (t, j₀) → (c.2.tasks.get? t).isSome = true)
      (queued : c.2.queued l = q)
  /-- It has ended, and what its link accepts has been passed to the hub. -/
  | done (t : TaskId) (j₀ : Job) (turn : w.turn? a = some (t, j₀)) (idle : c.1 = none)
      (gone : c.2.tasks.get? t = none) (old : t < c.2.tasks.next)
      (queued : c.2.queued l = q ++
        (((j₀.sending?.toList ++ sent).filter fun x => (w.refusal? x.1 .send).isNone).map
          (·.2)).flatMap (c.2.hub.copies l))

end World

/-- Between turns there is nothing to do but to let engines go away. -/
theorem Move.idle {a b : Option TaskId × World} (hm : Move a b) (idle : a.1 = none) :
    ∃ e p side, b = (none, a.2.remove e p side) := by
  cases hm with
  | @remove w e p side => exact ⟨e, p, side, rfl⟩
  | _ => cases idle

namespace World

variable {w : World} {a : Act} {l : Listener} {q : List Message} {b c : Option TaskId × World}
  {sent : List (LinkId × Message)} {m : Message} {t : TaskId} {j₀ j : Job}

theorem Posted.idle (posted : Posted b) (hm : Move b c) (tidy : b.2.Tidy) (turn : InTurn b)
    (idle : b.1 = none) (l : Listener) :
    c.1 = none ∧ c.2.dispatched = b.2.dispatched ∧ c.2.hub = b.2.hub ∧
      c.2.queued l = b.2.queued l ∧
        ∀ t, t < b.2.tasks.next → c.2.tasks.get? t = b.2.tasks.get? t := by
  have queued : c.2.queued l = b.2.queued l := by
    refine posted.queued hm tidy turn (fun m passed => ?_) l
    obtain ⟨w, t, l, after, rfl, -⟩ := passed
    cases idle
  obtain ⟨e, p, side, rfl⟩ := hm.idle idle
  refine ⟨rfl, seen_congr (by simp), by simp, queued, fun t old => ?_⟩
  simp only [remove_keeps]
  split
  · rw [Table.get?_insert, if_neg (Nat.ne_of_lt old)]
  · rfl

/-- The task passes on what it has in hand, which its link accepts, and ends. -/
theorem Broadcasts.ends (passed : Broadcasts b c m) (tidy : b.2.Tidy) (runs : b.1 = some t)
    (task : b.2.tasks.get? t = some ⟨j, false⟩) :
    c.1 = none ∧ c.2.dispatched = b.2.dispatched ∧ c.2.tasks.get? t = none ∧
      ∃ l, j.sending? = some (l, m) ∧ b.2.refusal? l .send = none := by
  obtain ⟨u, t', l, after, rfl, free, accepted, rfl⟩ := passed
  cases runs
  obtain rfl : Job.send l m after = j := by simpa using task
  refine ⟨rfl, ?_, ?_, l, rfl, accepted⟩
  · cases after <;> simp [AfterSend.events, Event.sending?]
  · obtain ⟨-, -, kept⟩ := broadcast_spawns u m (u.hub.recipients m) tidy.unpark.tasks
    simpa [broadcast, free] using kept t tidy.lt

/-- The task that has something in hand for the hub makes a move. -/
theorem Handing.go (hm : Move b c) (tidy : b.2.Tidy) (turn : InTurn b) (posted : Posted b)
    (taken : w.turn? a = some (t, j₀)) (runs : b.1 = some t)
    (task : b.2.tasks.get? t = some ⟨j, false⟩)
    (hand : j₀.sending?.toList ++ sent = j.sending?.toList) (links : b.2.links = w.links) :
    ∃ more, c.2.dispatched = b.2.dispatched ++ more ∧
      w.Handing a l (b.2.queued l) (sent ++ more) c := by
  have refusal : ∀ l', b.2.refusal? l' .send = w.refusal? l' .send := fun l' => by
    rw [refusal?, refusal?, links]
  have old := Nat.lt_of_lt_of_le (tidy.tasks.lt task) (hm.next_le tidy)
  by_cases passed : ∃ m, Broadcasts b c m
  · obtain ⟨m, passed⟩ := passed
    obtain ⟨idle, events, gone, l', sends, accepted⟩ := passed.ends tidy runs task
    rw [refusal] at accepted
    refine ⟨[], by simpa using events, .done t j₀ taken idle gone old ?_⟩
    rw [passed.queued (fun k hk => turn.bounded k hk) l, List.append_nil, hand, sends]
    simp [accepted]
  · have quiet : ∀ m, ¬Broadcasts b c m := fun m passed' => passed ⟨m, passed'⟩
    have same := posted.queued hm tidy turn quiet l
    cases hm.hands tidy runs task quiet with
    | goes j' runs task empty events =>
      refine ⟨_, events, .busy t j₀ j' taken runs task ?_ (hm.links.trans links) same⟩
      rw [← List.append_assoc, hand, empty]
      rfl
    | waits idle events task =>
      refine ⟨[], by simpa using events, .waits idle (fun t' j' taken' => ?_) same⟩
      cases taken.symm.trans taken'
      exact task
    | ends idle events gone refused =>
      refine ⟨[], by simpa using events, .done t j₀ taken idle gone old ?_⟩
      have none : (j.sending?.toList.filter fun x => (w.refusal? x.1 .send).isNone) = [] := by
        refine List.filter_eq_nil_iff.mpr fun x hx => ?_
        have refused := refused x (Option.mem_toList.mp hx)
        rw [refusal] at refused
        simp [Option.isSome_iff_ne_none.mp refused]
      rw [List.append_nil, hand, none, same]
      simp

theorem Handing.move (h : w.Handing a l q sent b) (hm : Move b c) (tidy : b.2.Tidy)
    (turn : InTurn b) (posted : Posted b) :
    ∃ more, c.2.dispatched = b.2.dispatched ++ more ∧ w.Handing a l q (sent ++ more) c := by
  cases h with
  | busy t j₀ j taken runs task hand links queued =>
    exact queued ▸ Handing.go hm tidy turn posted taken runs task hand links
  | waits idle task queued =>
    obtain ⟨idle, events, -, same, kept⟩ := posted.idle hm tidy turn idle l
    refine ⟨[], by simpa using events, .waits idle (fun t j₀ taken => ?_) (same.trans queued)⟩
    obtain ⟨x, there⟩ := Option.isSome_iff_exists.mp (task t j₀ taken)
    rw [kept t (tidy.tasks.lt there), there]
    rfl
  | done t j₀ taken idle gone old queued =>
    obtain ⟨idle, events, hub, same, kept⟩ := posted.idle hm tidy turn idle l
    refine ⟨[], by simpa using events, .done t j₀ taken idle ((kept t old).trans gone)
      (Nat.lt_of_lt_of_le old (hm.next_le tidy)) ?_⟩
    rw [List.append_nil, same, hub, queued]

end World

namespace World

variable {w : World} {a : Act} {l : Listener} {b : Option TaskId × World}

theorem Handing.outset (ho : Outset w a b) : w.Handing a l (b.2.queued l) [] b := by
  obtain ⟨runs, task⟩ := turn?_of_outset ho
  cases turn : w.turn? a with
  | none =>
    rw [turn] at runs
    exact .waits runs (fun t j taken => by simp [turn] at taken) rfl
  | some x =>
    obtain ⟨t, j⟩ := x
    rw [turn] at runs
    refine .busy t j j turn runs (task t j turn) (List.append_nil _) ?_ rfl
    cases ho with
    | take t j ready task => rfl
    | enter o allowed => rfl
    | _ => cases runs

/-- **In an act a listener is handed what takes its turn, and its copies of what is passed to the
hub join the queue.** -/
theorem queued_act (tidy : w.Tidy) (turn : InTurn (none, w)) (posted : Posted (none, w))
    (possible : a.IsPossible w) (hub : ∀ m, a ≠ .inbound l m) :
    (w.queued l ++ (w.passes a).flatMap ((w.act a).hub.copies l)).Perm
        (w.receives l a ++ (w.act a).queued l) ∧
      (w.InOrder a → w.queued l ++ (w.passes a).flatMap ((w.act a).hub.copies l) =
        w.receives l a ++ (w.act a).queued l) := by
  obtain ⟨b, ho, hm⟩ := act_moves tidy.tasks possible
  have handing : ∀ c, Moves b c → c.2.Tidy ∧ InTurn c ∧ Posted c ∧
      ∃ sent, c.2.dispatched = w.dispatched ++ sent ∧ w.Handing a l (b.2.queued l) sent c := by
    intro c hc
    induction hc with
    | refl =>
      exact ⟨tidy.outset ho, turn.outset ho tidy, posted.outset ho turn, [],
        (seen_outset (fun _ _ _ => rfl) ho).trans (List.append_nil _).symm, .outset ho⟩
    | tail _ last ih =>
      obtain ⟨tidy, turn, posted, sent, events, handing⟩ := ih
      obtain ⟨more, events', handing⟩ := handing.move last tidy turn posted
      exact ⟨tidy.move last, turn.move last tidy, posted.move last tidy turn, sent ++ more,
        by rw [events', events, List.append_assoc], handing⟩
  obtain ⟨-, -, -, sent, events, handing⟩ := handing _ hm
  obtain rfl : (w.newly a).filterMap Event.sending? = sent :=
    List.append_cancel_left ((newly_seen tidy possible _).symm.trans events)
  have joined : (w.act a).queued l =
      b.2.queued l ++ (w.passes a).flatMap ((w.act a).hub.copies l) := by
    cases handing with
    | busy t j₀ j taken runs => cases runs
    | waits idle task queued =>
      have none : w.passes a = [] := by
        refine if_neg fun gone => ?_
        obtain ⟨⟨t, j⟩, taken, gone⟩ := (Option.any_eq_true ..).mp gone
        have there : ((w.act a).tasks.get? t).isSome = true := task t j taken
        rw [Option.isNone_iff_eq_none.mp gone] at there
        cases there
      rw [none, queued, List.flatMap_nil, List.append_nil]
    | done t j₀ taken idle gone old queued =>
      have passes : w.passes a = ((j₀.sending?.toList ++ (w.newly a).filterMap
          Event.sending?).filter fun x => (w.refusal? x.1 .send).isNone).map (·.2) := by
        rw [World.passes, atLink, taken, if_pos (by simp [gone])]
        rfl
      rw [passes, queued]
  obtain ⟨perm, order⟩ := queued_outset ho tidy turn posted hub
  rw [joined, ← List.append_assoc]
  exact ⟨perm.append_right _, fun inOrder => congrArg (· ++ _) (order inOrder)⟩

end World

/-! ## What is recorded of deliveries -/

def Event.deliveredTo? (l : Listener) : Event → Option Message
  | .delivered l' m => if l' = l then some m else none
  | _ => none

/-- The listener takes note of what it is handed; an engine that is gone does not. -/
def World.attends (w : World) : Listener → Bool
  | .plain _ => true
  | .engine e => (w.seat? e).any fun p => !p.gone

theorem World.attends_caller {w : World} {i : CallerId} {c : Caller}
    (caller : w.callers.get? i = some c) : w.attends (.engine (.caller i)) = !c.seat.gone := by
  simp [attends, seat?, caller]

theorem World.attends_server {w : World} {s : ServerId} {v : Server}
    (server : w.servers.get? s = some v) : w.attends (.engine (.server s)) = !v.seat.gone := by
  simp [attends, seat?, server]

theorem World.attends_of_gone {w : World} {e : EngineId}
    (gone : ∀ p, w.seat? e = some p → p.gone = true) : w.attends (.engine e) = false := by
  cases seat : w.seat? e with
  | none => simp [attends, seat]
  | some p => simp [attends, seat, gone p seat]

def World.Undelivering (a : Option TaskId × World) : Prop :=
  ∀ t x l m, a.1 = some t → a.2.tasks.get? t = some x → x.job ≠ .deliver l m

theorem Move.unheard {a b : Option TaskId × World} (hm : Move a b) (none : Undelivering a)
    (l : Listener) : b.2.seen (Event.deliveredTo? l) = a.2.seen (Event.deliveredTo? l) := by
  obtain ⟨es, events, -, deeds⟩ := hm.deeds
  have silent : (es.map (·.2)).reverse.filterMap (Event.deliveredTo? l) = [] := by
    refine List.filterMap_eq_nil_iff.mpr fun e he => ?_
    rw [List.mem_reverse, List.mem_map] at he
    obtain ⟨e, he, rfl⟩ := he
    cases event : e.2 with
    | delivered l' m =>
      obtain ⟨w, t, j, rfl, stems, -⟩ := deeds e he (by rw [event]; rfl)
      rw [event] at stems
      cases stems
      exact absurd rfl (none t _ l' m rfl (park_self ..))
    | _ => rfl
  rw [seen_append events, silent, List.append_nil]

/-- A delivery is recorded as received if its listener takes note of it. -/
theorem Move.heard {a b : Option TaskId × World} (hm : Move a b) {w : World} {t : TaskId}
    {l : Listener} {m : Message} (ha : a = (some t, w.park t (.deliver l m))) (l' : Listener) :
    b.2.seen (Event.deliveredTo? l') = a.2.seen (Event.deliveredTo? l') ++
      if a.2.attends l then ((Job.deliver l m).deliveryTo? l').toList else [] := by
  have told : ∀ (u : World) (es : List Event), u.attends l = true →
      es.filterMap (Event.deliveredTo? l') = [] →
      (Event.delivered l m :: es).filterMap (Event.deliveredTo? l') =
        if u.attends l then ((Job.deliver l m).deliveryTo? l').toList else [] := by
    intro u es attends silent
    rw [if_pos attends]
    by_cases own : l = l' <;> simp [Event.deliveredTo?, Job.deliveryTo?, own, silent]
  obtain ⟨u, rfl, free, delivers⟩ := hm.delivering ha
  have recorded : (u.record (.delivered l m)).seen (Event.deliveredTo? l') =
      u.seen (Event.deliveredTo? l') ++
        [Event.delivered l m].filterMap (Event.deliveredTo? l') :=
    recordAll_seen u [_] _
  cases delivers with
  | @passed l m es next passes =>
    rw [proceed_seen, park_seen]
    refine congrArg (u.seen (Event.deliveredTo? l') ++ ·) ?_
    cases passes with
    | noted key m => exact told u _ rfl rfl
    | lost e m gone =>
      exact (if_neg (Bool.eq_false_iff.mp (attends_of_gone gone))).symm
    | unexpected i c m caller alive unasked =>
      refine told u _ (by simp [attends_caller caller, alive]) ?_
      split <;> rfl
    | ignored s v m server alive judged =>
      exact told u _ (by simp [attends_server server, alive]) rfl
    | served s v h m server alive judged =>
      exact told u _ (by simp [attends_server server, alive]) rfl
    | seatless u' _ eq seat => rcases eq with eq | eq <;> cases eq
  | @answered i c m id caller alive answers =>
    have silent : (if (c.pending? id).isNone && c.reportsUnexpected then [Event.unexpected i m]
        else []).filterMap (Event.deliveredTo? l') = [] := by
      split <;> rfl
    have heard := told u [] (by simp [attends_caller caller, alive]) rfl
    rw [recordAll_seen, complete_seen, silent, recorded, heard]
    exact (List.append_nil _).trans (List.append_nil _)
  | @replied s v m r draft link server alive judged finish =>
    have heard := told u [] (by simp [attends_server server, alive]) rfl
    rw [park_seen, record_seen, record_seen, mint_seen, recorded, heard]
    exact (List.append_nil _).trans (List.append_nil _)
  | @muted s v m draft server alive judged =>
    have heard := told u [] (by simp [attends_server server, alive]) rfl
    rw [mint_seen, recorded, heard]
    rfl

namespace World

variable {w u : World} {a : Act} {l : Listener} {t : TaskId} {m : Message}

/-- After the first move of an act nothing more is received in it. -/
theorem unheard_moves {b c : Option TaskId × World} (hm : Moves b c) (tidy : b.2.Tidy)
    (none : Undelivering b) (l : Listener) :
    c.2.seen (Event.deliveredTo? l) = b.2.seen (Event.deliveredTo? l) := by
  suffices c.2.Tidy ∧ Undelivering c ∧
      c.2.seen (Event.deliveredTo? l) = b.2.seen (Event.deliveredTo? l) from this.2.2
  induction hm with
  | refl => exact ⟨tidy, none, rfl⟩
  | tail _ last ih =>
    obtain ⟨tidy, none, same⟩ := ih
    refine ⟨tidy.move last, fun t x l m goes task job => ?_, (last.unheard none l).trans same⟩
    obtain ⟨u, j, -, -, other⟩ := last.goes goes task
    exact other l m job

/-- **What a listener is handed in an act is recorded as received**, unless it is an engine that is
gone. -/
theorem heard_act (tidy : w.Tidy) (possible : a.IsPossible w) (l : Listener) :
    (w.newly a).filterMap (Event.deliveredTo? l) = if w.attends l then w.receives l a else [] := by
  obtain ⟨b, ho, hm⟩ := act_moves tidy.tasks possible
  have start : b.2.seen (Event.deliveredTo? l) = w.seen (Event.deliveredTo? l) :=
    seen_outset (fun _ _ _ => rfl) ho
  refine List.append_cancel_left ((newly_seen tidy possible _).symm.trans ?_)
  by_cases delivers : ∃ t l' m, w.turn? a = some (t, .deliver l' m)
  · obtain ⟨t, l', m, turn⟩ := delivers
    have receives : w.receives l a = ((Job.deliver l' m).deliveryTo? l).toList := by
      simp [World.receives, turn]
    obtain ⟨runs, hand⟩ := turn?_of_outset ho
    rw [turn] at runs
    obtain ⟨rfl, -⟩ | ⟨o, -, -, start⟩ := turn?_cases turn
    · have attends : b.2.attends l' = w.attends l' := by
        cases ho with
        | _ => rfl
      rcases hm.cases_head with rfl | ⟨d, first, rest⟩
      · cases runs
      · obtain ⟨u, parked⟩ := first.parked runs (hand t _ turn)
        have none : Undelivering d := by
          intro t x l m goes task job
          obtain ⟨-, -, -, -, other⟩ := first.goes goes task
          exact other l m job
        have same := unheard_moves rest ((tidy.outset ho).move first) none l
        rw [show (w.act (.turn t)).seen (Event.deliveredTo? l) = _ from same,
          first.heard parked, start, attends, receives]
        by_cases own : l' = l
        · rw [own]
        · simp [Job.deliveryTo?, own]
    · cases start
  · have none : Undelivering b := by
      intro t x l' m runs task job
      obtain ⟨running, hand⟩ := turn?_of_outset ho
      obtain ⟨⟨t', j⟩, turn, rfl⟩ := Option.map_eq_some_iff.mp (running.symm.trans runs)
      cases (hand t' j turn).symm.trans task
      exact delivers ⟨t', l', m, job ▸ turn⟩
    have receives : w.receives l a = [] := by
      rw [World.receives, Option.toList_eq_nil_iff, Option.eq_none_iff_forall_ne_some]
      intro m handed
      obtain ⟨⟨t, j⟩, turn, job⟩ := Option.bind_eq_some_iff.mp handed
      obtain rfl := Job.deliveryTo?_eq_some.mp job
      exact delivers ⟨t, l, m, turn⟩
    have same := unheard_moves hm (tidy.outset ho) none l
    rw [receives, ite_self, List.append_nil]
    exact same.trans start

end World

/-! ## What becomes of a send -/

/-- The send that somebody asked for and is told about. -/
def Job.asked? : Job → Option (LinkId × Message × Report)
  | .start (.send l m) => some (l, m, .plain)
  | .send l m (.report r) => some (l, m, r)
  | _ => none

namespace World

variable {w u : World} {a : Act} {t : TaskId} {j : Job} {l : LinkId} {m : Message} {r : Report}

/-- What an act makes of a send that somebody asked for. -/
inductive Sending (w : World) (a : Act) (t : TaskId) (l : LinkId) (m : Message) (r : Report) : Prop
  /-- The link takes its time. -/
  | waits (task : (w.act a).tasks.get? t = some ⟨.send l m (.report r), false⟩)
      (passes : w.passes a = [])
  /-- The link refuses. -/
  | refused (s : Status) (refusal : w.refusal? l .send = some s)
      (told : .finished t (r.result (.error s)) ∈ w.newly a) (passes : w.passes a = [])
  /-- The message has been passed to the hub. -/
  | passed (told : .finished t (r.result (.ok ())) ∈ w.newly a) (passes : w.passes a = [m])

theorem Sending.of_wait (turn : w.turn? a = some (t, j))
    (task : (w.act a).tasks.get? t = some ⟨.send l m (.report r), false⟩) :
    w.Sending a t l m r :=
  .waits task (if_neg (by simp [turn, task]))

theorem Sending.of_end (es : History) (turn : w.turn? a = some (t, j))
    (gone : (w.act a).tasks.get? t = none) {n : Nat}
    (events : (w.act a).events =
      (n, .finished t (r.result ((w.refusal? l .send).elim (.ok ()) .error))) :: es ++ w.events)
    (hand : j.sending?.toList ++ (es.map (·.2)).reverse.filterMap Event.sending? = [(l, m)]) :
    w.Sending a t l m r := by
  have newly := newly_of_events events
  have atLink : w.atLink a = [(l, m)] := by
    rw [World.atLink, turn, newly, ← hand]
    simp [Event.sending?]
  have passes : w.passes a = if (w.refusal? l .send).isNone then [m] else [] := by
    rw [World.passes, atLink, if_pos (by simp [turn, gone])]
    cases refusal : w.refusal? l .send <;> simp [refusal]
  cases refusal : w.refusal? l .send with
  | none => exact .passed (by simp [newly, refusal]) (by simp [passes, refusal])
  | some s => exact .refused s refusal (by simp [newly, refusal]) (by simp [passes, refusal])

theorem sendNow_report (fresh : u.tasks.Fresh) (free : u.tasks.get? t = none)
    (old : t < u.tasks.next) :
    (u.sendNow t l m (.report r)).tasks.get? t = none ∧
      (u.sendNow t l m (.report r)).events =
        (u.now, .finished t (r.result ((u.refusal? l .send).elim (.ok ()) .error))) ::
          u.events := by
  unfold sendNow
  cases u.refusal? l .send with
  | none =>
    obtain ⟨-, -, kept⟩ := broadcast_spawns u m (u.hub.recipients m) fresh
    exact ⟨(kept t old).trans free, by simp [afterSend]⟩
  | some s => exact ⟨free, rfl⟩

/-- A send that starts is passed to its link, which takes its time or not. -/
theorem send_report (fresh : u.tasks.Fresh) (free : u.tasks.get? t = none)
    (old : t < u.tasks.next) :
    (u.send t l m (.report r)).tasks.get? t = some ⟨.send l m (.report r), false⟩ ∨
      (u.send t l m (.report r)).tasks.get? t = none ∧
      (u.send t l m (.report r)).events =
        (u.now, .finished t (r.result ((u.refusal? l .send).elim (.ok ()) .error))) ::
          (u.now, .sent l m) :: u.events := by
  simp only [send]
  split
  · exact .inr (sendNow_report (u := u.record (.sent l m)) fresh free old)
  · exact .inl (by simp)

/-- **A send is told what became of its message**: it was passed to the hub or refused. -/
theorem sending_act (tidy : w.Tidy) (turn : w.turn? a = some (t, j))
    (asked : j.asked? = some (l, m, r)) : w.Sending a t l m r := by
  have starts : ∀ u : World, u.tasks.Fresh → u.tasks.get? t = none → t < u.tasks.next →
      u.refusal? l .send = w.refusal? l .send → u.events = w.events →
      w.act a = u.send t l m (.report r) → j.sending? = none → w.Sending a t l m r := by
    intro u fresh free old refusal events act empty
    rcases send_report (u := u) (l := l) (m := m) (r := r) fresh free old with task | ⟨gone, ended⟩
    · exact .of_wait turn (act ▸ task)
    · exact .of_end [(u.now, .sent l m)] turn (act ▸ gone)
        (by rw [act, ended, refusal, events]; rfl) (by rw [empty]; rfl)
  rcases turn?_cases turn with ⟨rfl, task⟩ | ⟨o, rfl, rfl, rfl⟩
  · have fresh : (w.without t).tasks.Fresh := tidy.tasks.erase t
    have free : (w.without t).tasks.get? t = none := by simp
    have old : t < (w.without t).tasks.next := tidy.tasks.lt task
    have act : w.act (.turn t) = ((w.without t).work t j).releaseAfter t j.holds :=
      run_of_task task
    cases j with
    | send l' m' after =>
      cases after with
      | report r' =>
        cases asked
        obtain ⟨gone, ended⟩ := sendNow_report (l := l) (m := m) (r := r) fresh free old
        exact .of_end [] turn ((congrArg (·.tasks.get? t) act).trans gone)
          ((congrArg World.events act).trans ended) rfl
      | _ => cases asked
    | start o =>
      cases o with
      | send l' m' =>
        cases asked
        exact starts _ fresh free old rfl rfl act rfl
      | _ => cases asked
    | _ => cases asked
  · cases o with
    | send l' m' =>
      cases asked
      exact starts { w with tasks := w.tasks.reserve.2 } tidy.tasks.reserve tidy.tasks.next
        (Nat.lt_succ_self _) rfl rfl rfl rfl
    | _ => cases asked

end World

/-! ## Whole runs -/

section Runs

open World

variable {w : World} {as : List Act} {l : Listener}

/-- What waits at the start of a run and what is addressed to a listener in it is what the listener
receives in it and what waits in the end. -/
theorem received_run (tidy : w.Tidy) (turn : InTurn (none, w)) (posted : Posted (none, w))
    (run : w.CanRun as) (hub : ∀ m, .inbound l m ∉ as) :
    (w.queued l ++ addressed l w as).Perm (received l w as ++ (w.after as).queued l) ∧
      (Along InOrder w as →
        w.queued l ++ addressed l w as = received l w as ++ (w.after as).queued l) := by
  induction as generalizing w with
  | nil => exact ⟨by simp [addressed, received], fun _ => by simp [addressed, received]⟩
  | cons a as ih =>
    obtain ⟨possible, rest⟩ := run
    obtain ⟨tidy', turn', posted'⟩ := Posted.kept.act possible trivial tidy ⟨turn, posted⟩
    obtain ⟨later, laterOrder⟩ := ih tidy' turn' posted' rest fun m later =>
      hub m (List.mem_cons_of_mem a later)
    obtain ⟨now, nowOrder⟩ := queued_act (l := l) tidy turn posted possible fun m inbound =>
      hub m (inbound ▸ List.mem_cons_self)
    rw [addressed, received, after_cons, ← List.append_assoc, List.append_assoc (w.receives l a)]
    refine ⟨(now.append_right _).trans ?_, fun inOrder => ?_⟩
    · rw [List.append_assoc]
      exact later.append_left _
    · rw [nowOrder inOrder.1, List.append_assoc, laterOrder inOrder.2]

/-- **Listeners receive exactly what is addressed to them.** In a run in which nothing comes to the
listener past the hub, what it has been handed, with what still waits for it, is what was addressed
to it: of each message that a link passed to the hub, one copy for each of the listener's
registrations at that moment that match the message, and nothing of what a link refused. If
deliveries take their turns in the order of the queue, it is in the order in which the messages were
passed on. What waits is for deliveries that have not run, each of which is ready to. Each act of
the run records what its listener is handed as received, and tells a sender what became of its
message. -/
theorem received_as_addressed (new : w.IsNew) (run : w.CanRun as)
    (hub : ∀ m, .inbound l m ∉ as) :
    (received l w as ++ (w.after as).queued l).Perm (addressed l w as) ∧
    (Along InOrder w as → received l w as ++ (w.after as).queued l = addressed l w as) ∧
    ((∀ k x m, (w.after as).tasks.get? k = some x → x.job ≠ .deliver l m) →
      (w.after as).queued l = []) ∧
    (∀ k x m, (w.after as).tasks.get? k = some x → x.job = .deliver l m →
      k ∈ (w.after as).ready ∧ x.cancelled = false) ∧
    (∀ r m, r.accepts m = true ↔ Registration.Matches r m) ∧
    ∀ p a q, as = p ++ a :: q →
      ((w.after p).newly a).filterMap (Event.deliveredTo? l) =
        (if (w.after p).attends l then (w.after p).receives l a else []) ∧
      ∀ t j link m r, (w.after p).turn? a = some (t, j) → j.asked? = some (link, m, r) →
        (w.after p).Sending a t link m r := by
  have empty : w.queued l = [] := by
    obtain ⟨wall, ids, rfl⟩ := new
    rfl
  obtain ⟨perm, order⟩ := received_run (.new new) (.new new) (.new new) run hub
  rw [empty, List.nil_append] at perm order
  refine ⟨perm.symm, fun inOrder => (order inOrder).symm, fun none => ?_, fun k x m task job => ?_,
    fun r m => Registration.accepts_iff, fun p a q split => ?_⟩
  · refine List.filterMap_eq_nil_iff.mpr fun k _ => Option.eq_none_iff_forall_ne_some.mpr ?_
    intro m waits
    obtain ⟨x, task, job⟩ := deliveryTo?_eq_some.mp waits
    exact none k x m task job
  · have known : Along (fun _ _ => True) w as := run.mono fun _ _ _ => trivial
    obtain ⟨-, -, posted⟩ := Posted.kept.run run known (.new new) ⟨.new new, .new new⟩
    obtain ⟨alive, ready⟩ := posted.ready k x l m task job
    exact ⟨ready.resolve_right (by simp), alive⟩
  · subst split
    obtain ⟨before, possible, -⟩ := Along.append.mp run
    obtain ⟨tidy, -⟩ := grows_after (.new new) before
    exact ⟨heard_act tidy possible l, fun t j link m r turn asked => sending_act tidy turn asked⟩

/-- A listener that is registered twice gets two copies of a message, also if one registration has
been removed before it gets them, then one copy of the next message, and none of a third one that
its closed link refuses. -/
theorem each_registration_gets_a_copy :
    let ids : MessageId.Source := { issue := fun n => .stamped 1 (BitVec.ofNat 74 n) }
    let source : Address := ⟨"entity", 1, 1, 0x8000⟩
    let m (n : UInt32) : Message :=
      ⟨{ kind := .publish, source := some source, ttl := some n }, none⟩
    let w : World := { wall := 0, ids := ids }
    let as : List Act := [.command (.addLink ⟨"entity", 1, 1, 0⟩),
      .command (.enter (.register 0 Address.any none 7 .plain)),
      .command (.enter (.register 0 source none 7 .plain)), .command (.enter (.send 0 (m 1))),
      .command (.enter (.unregister 0 source none 7 .plain)), .command (.enter (.send 0 (m 2))),
      .command (.closeLink 0), .command (.enter (.send 0 (m 3))), .turn 3, .turn 4, .turn 7]
    w.IsNew ∧ w.CanRun as ∧ (∀ n, .inbound (.plain 7) n ∉ as) ∧ Along InOrder w as ∧
      received (.plain 7) w as = [m 1, m 1, m 2] := by
  intro ids source m w as
  have new : w.IsNew := ⟨0, ids, rfl⟩
  have run : w.CanRun as := by decide +kernel
  have hub : ∀ n, .inbound (.plain 7) n ∉ as := by simp [as]
  have inOrder : Along InOrder w as := by decide +kernel
  have none : (w.after as).queued (.plain 7) = [] := by decide +kernel
  have sent : addressed (.plain 7) w as = [m 1, m 1, m 2] := by decide +kernel
  have whole := (received_as_addressed new run hub).2.1 inOrder
  rw [none, List.append_nil, sent] at whole
  exact ⟨new, run, hub, inOrder, whole⟩

end Runs

end Switchboard
