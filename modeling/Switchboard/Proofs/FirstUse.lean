import Switchboard.Proofs.Senders
import Switchboard.Proofs.CrossTalk
import Switchboard.Proofs.Pending
import Switchboard.Proofs.Places

/-! # A listener is registered when it is first needed

A caller has a listener registered for answers as soon as it has a request to send, and a server one
for requests as soon as it has a handler to add. Calls that are made at once wait for one attempt
and go on by turns until one succeeds. A failed attempt takes up its act, in which one call is told
of it (`World.failed_call`); that the request of a call is sent and that the call is let down is
settled once (`World.resolved_once`). Main statement: `listener_registered_once`.
-/

namespace Switchboard

open World History

variable {i : CallerId} {id : MessageId}

namespace World

variable {w v : World} {a : Act} {e : EngineId}

/-- Nothing is under way to an engine whose listener is not registered, and nothing has come. -/
def Unreached (w : World) (e : EngineId) : Prop :=
  w.cell? e ≠ some .registered →
    ∀ m, ¬w.HasJob (.deliver (.engine e) m) ∧ ¬w.Has (.delivered (.engine e) m)

theorem Unreached.new (h : w.IsNew) : w.Unreached e := by
  obtain ⟨wall, ids, rfl⟩ := h
  exact fun _ m => by simp [HasJob, Has, Table.get?]

theorem Unreached.move {a b : Option TaskId × World} (h : a.2.Unreached e) (hm : Move a b)
    (tidy : a.2.Tidy) (enrolled : a.2.Enrolled) : b.2.Unreached e := by
  intro unregistered m
  have before : a.2.cell? e ≠ some .registered := fun hx => unregistered (hm.registered hx)
  refine ⟨fun job => ?_, fun heard => ?_⟩
  · rcases hm.leads tidy job with old | ⟨w, t, j, rfl, leads⟩ | ⟨e', p, -, -, -, -, withdraw⟩
    · exact (h before m).1 old
    · cases leads with
      | broadcast l m after listener accepted recipient =>
        obtain ⟨r, listed, -, own⟩ := Hub.mem_recipients.mp recipient
        exact before (enrolled.own r listed e own).1
    · cases withdraw
  · obtain ⟨es, events, -, deeds⟩ := hm.deeds
    obtain ⟨τ, heard⟩ := heard
    rw [events, List.mem_append] at heard
    rcases heard with new | old
    · obtain ⟨w, t, j, rfl, stems, -⟩ := deeds _ new rfl
      cases stems
      exact (h before m).1 (hasJob_park w t _)
    · exact (h before m).2 ⟨τ, old⟩

theorem Unreached.outset {b : Option TaskId × World} (h : w.Unreached e) (ho : Outset w a b)
    (tidy : w.Tidy) (hub : ∀ m, a ≠ .inbound (.engine e) m) : b.2.Unreached e := by
  intro unregistered m
  have before : w.cell? e ≠ some .registered := fun hx => unregistered (ho.registered tidy hx)
  refine ⟨fun job => ?_, fun heard => (h before m).2 (ho.unmarked rfl heard)⟩
  rcases ho.leads job with old | ⟨o, -, start⟩ | ⟨l, m', act, deliver⟩ |
    ⟨i, method, payload, options, -, new⟩
  · exact (h before m).1 old
  · cases start
  · cases deliver
    exact hub m act
  · rcases new with deadline | ⟨c, m', -, -, -, prepare⟩
    · cases deadline
    · cases prepare

theorem Unreached.kept (e : EngineId) : Kept (fun _ a => ∀ m, a ≠ .inbound (.engine e) m)
    fun a => ((InTurn a ∧ a.2.Listening) ∧ a.2.Enrolled) ∧ a.2.Unreached e :=
  (Enrolled.kept.mono fun _ _ _ => trivial).add (fun tidy ho hub _ _ h => h.outset ho tidy hub)
    fun tidy hm before _ h => h.move hm tidy before.2

/-- What has ended a call while its task asks for a listener that nothing can come to is the
deadline. -/
theorem lapsed_of_ending {k : TaskId} {cause : Cause} (prompt : Prompt w.events)
    (unreached : w.Unreached (.caller i)) (unregistered : w.cell? (.caller i) ≠ some .registered)
    (one : w.OneTask i id) (asks : w.AsksFor k i id) (ending : ending? i id w.events = some cause) :
    ∃ timeout, cause = .lapsed timeout := by
  obtain ⟨later, τ, earlier, events, -⟩ := ending?_split ending
  cases cause with
  | lapsed timeout => exact ⟨timeout, rfl⟩
  | refused s => exact absurd asks (one.refused ⟨s, τ, by simp [events]⟩ k)
  | answered m =>
    rw [events] at prompt
    obtain ⟨-, heard⟩ := prompt.split
    have delivered : (τ, Event.delivered (.engine (.caller i)) m) ∈ w.events := by
      rw [events]
      exact List.mem_append_right _ (List.mem_cons_of_mem _ (List.mem_of_mem_head? heard))
    exact absurd ⟨τ, delivered⟩ (unreached unregistered m).2

/-- The outcome is for one call, which has it then unless it has come to another before, and no
other call has come to anything. -/
def FallsTo (w v : World) (i : CallerId) (id : MessageId) (o : Except Failure Payload) : Prop :=
  ∃ k before, w.account k = some (i, id, before) ∧ v.account k = some (i, id, before.or (some o)) ∧
    ∀ k' ≠ k, v.account k' = w.account k'

theorem Ledger.account_eq_some (h : w.Ledger none) {k : CallId}
    {o : Option (Except Failure Payload)} : w.account k = some (i, id, o) ↔
    w.Places k i id ∧ o = (ending? i id w.events).map Cause.outcome := by
  constructor
  · intro account
    obtain ⟨call, place, same⟩ := Option.map_eq_some_iff.mp account
    cases same
    exact ⟨⟨call, place, rfl, rfl⟩, (h.outcomes k call place).2⟩
  · rintro ⟨⟨call, place, rfl, rfl⟩, rfl⟩
    rw [account_of_place place, (h.outcomes k call place).2]

/-- What ends a call is told to this call and to no other. -/
theorem Ledger.fallsTo (h : w.Ledger none) (h' : v.Ledger none)
    (kept : ∀ k i id, w.Places k i id → v.Places k i id) {τ : Nat} {cause : Cause}
    (accepts : id ∈ accepted i w.events)
    (events : History.entries v.events = (τ, .ended i id cause) :: History.entries w.events) :
    w.FallsTo v i id cause.outcome := by
  have same : ∀ i', accepted i' v.events = accepted i' w.events := fun i' => by
    rw [← accepted_entries, events]
    exact accepted_entries ..
  have ends : ∀ i' id', ending? i' id' v.events =
      if i = i' ∧ id = id' ∧ id' ∈ awaited i' w.events then some cause
      else ending? i' id' w.events := fun i' id' => by
    rw [← ending?_entries, events, ending?_ended, ending?_entries, awaited, awaited,
      accepted_entries]
    simp only [ending?_entries]
  obtain ⟨k, call, place, rfl, rfl⟩ := h.placed i id accepts
  have here : w.Places k call.caller call.id := ⟨call, place, rfl, rfl⟩
  refine ⟨k, _, h.account_eq_some.mpr ⟨here, rfl⟩, h'.account_eq_some.mpr ⟨kept _ _ _ here, ?_⟩,
    fun k' other => ?_⟩
  · rw [ends]
    cases before : ending? call.caller call.id w.events <;> simp [awaited, accepts, before]
  · have back : ∀ {i' id'}, v.Places k' i' id' → w.Places k' i' id' := by
      rintro - - ⟨call', place', rfl, rfl⟩
      obtain ⟨k₀, call₀, place₀, hi, hid⟩ := h.placed _ _ (same _ ▸ (h'.outcomes k' call' place').1)
      obtain ⟨call₁, place₁, hi', hid'⟩ := kept k₀ _ _ ⟨call₀, place₀, hi, hid⟩
      obtain rfl := h'.unique k₀ k' call₁ call' place₁ place' hi' hid'
      exact ⟨call₀, place₀, hi, hid⟩
    have apart : ∀ {i' id'}, w.Places k' i' id' →
        ¬(call.caller = i' ∧ call.id = id' ∧ id' ∈ awaited i' w.events) := by
      rintro - - ⟨call', place', rfl, rfl⟩ ⟨hi, hid, -⟩
      exact other (h.unique k' k call' call place' place hi.symm hid.symm)
    refine Option.ext fun x => ?_
    obtain ⟨i', id', o⟩ := x
    rw [h'.account_eq_some, h.account_eq_some]
    constructor
    · rintro ⟨there, rfl⟩
      exact ⟨back there, by rw [ends, if_neg (apart (back there))]⟩
    · rintro ⟨there, rfl⟩
      exact ⟨kept _ _ _ there, by rw [ends, if_neg (apart there)]⟩

/-! ## Acts that settle whether a request is sent -/

/-- In the act the task of a call is refused the listener for the answer. It tells its call, and
nothing else happens. -/
structure LetsDown (w : World) (a : Act) (i : CallerId) (id : MessageId) (s : Status) : Prop where
  turn : ∃ k j m, w.turn? a = some (k, j) ∧ j.use? = some (.request i id m) ∧ m.Requests id
  alone : w.newly a = [.attempted (.caller i) (.error s), .ended i id (.refused s)]
  falls : w.FallsTo (w.act a) i id (.error (.sendFailed s))

/-- In the act the task that is to add a handler is refused the listener for the requests. That is
its result, and nothing else happens. -/
structure Denies (w : World) (a : Act) (k : TaskId) (sv : ServerId) (s : Status) : Prop where
  turn : ∃ j method h, w.turn? a = some (k, j) ∧ j.seeks? = some (.serve sv method h)
  alone : w.newly a =
    [.attempted (.server sv) (.error s), .finished k (.error (.failure (.transport s)))]

/-- Some task asks for the listener for the call's sake, and none does so after the act. -/
structure Resolves (w : World) (a : Act) (i : CallerId) (id : MessageId) : Prop where
  asks : ∃ k, w.AsksFor k i id
  settled : (w.act a).Settled i id

theorem asks_of_turn {k : TaskId} {j : Job} {m : Message} (turn : w.turn? a = some (k, j))
    (use : j.use? = some (.request i id m)) : w.AsksFor k i id ∧ w.HasJob j := by
  obtain ⟨-, task⟩ | ⟨o, -, -, rfl⟩ := turn?_cases turn
  · exact ⟨⟨_, task, Job.asks_of_use use⟩, k, _, task, rfl⟩
  · cases use

/-- Who has a listener makes no attempt. -/
theorem Tally.unregistered_of_failed {s : Status} {es : History} (h : w.Tally e) (h' : v.Tally e)
    (events : v.events = es ++ w.events)
    (failed : (es.map (·.2)).reverse.filterMap (Event.attempt? e) = [.error s]) :
    w.cell? e ≠ some .registered := by
  intro registered
  have attempts : v.attempts e = w.attempts e ++ [.error s] := failed ▸ seen_append events
  have succeeded : .ok () ∈ v.attempts e :=
    attempts ▸ List.mem_append_left _ (h.ok_mem.mpr registered)
  obtain ⟨ss, same⟩ := h'.registered (h'.ok_mem.mp succeeded)
  have last := List.append_inj_right' (attempts.symm.trans same) rfl
  cases last

/-- A failed attempt for a call lets this call down, and settles that its request is not sent. -/
theorem failed_call {s : Status} (tidy : w.Tidy) (possible : a.IsPossible w)
    (ledger : w.Ledger none) (ledger' : (w.act a).Ledger none)
    (traced : ∀ j, w.HasJob j → ∀ i id m, j.use? = some (.request i id m) → w.Asks i id m)
    (one : ∀ i id, (w.act a).OneTask i id)
    (tally : ∀ e, w.Tally e) (tally' : ∀ e, (w.act a).Tally e)
    (failed : .attempted (.caller i) (.error s) ∈ w.newly a) :
    ∃ id, w.LetsDown a i id s ∧ w.Resolves a i id ∧ w.cell? (.caller i) ≠ some .registered := by
  obtain ⟨k, j, u, τ, turn, seeks, own, events⟩ := failed_act tidy possible failed
  cases u with
  | serve sv method h => cases own
  | request i' id m =>
    cases own
    have use := use_of_seeks seeks
    obtain ⟨asks, job⟩ := asks_of_turn turn use
    obtain ⟨request, identified, accepts⟩ := traced j job i id m use
    have turned : (w.act a).Turned i id := ⟨s, τ, by simp [events, Use.refusal]⟩
    refine ⟨id, ⟨⟨k, j, m, turn, use, request, identified⟩, ?_, ?_⟩, ⟨⟨k, asks⟩,
      (one i id).issued (.inr turned), (one i id).refused turned⟩, ?_⟩
    · simp [newly_of_events events, Use.refusal]
    · have ended : History.entries (w.act a).events =
          (τ, .ended i id (.refused s)) :: History.entries w.events := by
        simp [events, Use.refusal, History.entries, isEntry]
      exact ledger.fallsTo ledger' (fun k i id places =>
        ((Places.kept (k := k)).act possible trivial tidy places).2) accepts ended
    · refine (tally _).unregistered_of_failed (s := s) (tally' _) events ?_
      simp [Use.refusal, Event.attempt?]

theorem failed_serve {sv : ServerId} {s : Status} (tidy : w.Tidy) (possible : a.IsPossible w)
    (failed : .attempted (.server sv) (.error s) ∈ w.newly a) : ∃ k, w.Denies a k sv s := by
  obtain ⟨k, j, u, τ, turn, seeks, own, events⟩ := failed_act tidy possible failed
  cases u with
  | request i id m => cases own
  | serve sv' method h =>
    cases own
    exact ⟨k, ⟨j, method, h, turn, seeks⟩, by simp [newly_of_events events, Use.refusal]⟩

section Moments

variable {as p p' q q' : List Act} {a' : Act}

theorem tally_after (new : w.IsNew) (run : w.CanRun as) :
    InTurn (none, w.after as) ∧ ∀ e, (w.after as).Tally e :=
  (Tally.kept.run run (run.mono fun _ _ _ => trivial) (.new new) ⟨.new new, fun _ => .new new⟩).2

theorem oneTask_after (new : w.IsNew) (run : w.CanRun as) (distinct : (w.after as).ids.Distinct)
    (i : CallerId) (id : MessageId) : (w.after as).OneTask i id :=
  (OneTask.kept.run run (run.mono fun _ _ _ => trivial) (.new new) fun _ _ _ => .new new).2
    distinct i id

/-- The beginning of a run is a run, with ids that are different as those of the whole run are. -/
theorem beginning_runs (new : w.IsNew) (run : w.CanRun as) (distinct : (w.after as).ids.Distinct)
    (beginning : p <+: as) : w.CanRun p ∧ (w.after p).ids.Distinct := by
  obtain ⟨q, rfl⟩ := beginning
  obtain ⟨before, rest⟩ := Along.append.mp run
  rw [after_append] at distinct
  exact ⟨before, (grows_after (grows_after (.new new) before).1 rest).2.distinct distinct⟩

/-- Whoever asks for a listener for a call's sake has its request, whatever ids others use. -/
theorem asks_after (new : w.IsNew) (run : w.CanRun as) (distinct : (w.after as).ids.Distinct)
    {j : Job} {m : Message} (job : (w.after as).HasJob j)
    (use : j.use? = some (.request i id m)) : (w.after as).Asks i id m := by
  have respects : Along (fun v a => a.Respects (fun _ => False) v) w as :=
    Along.of_forall fun a _ v => fun m _ => ⟨fun _ _ _ => not_false, fun _ _ _ => False.elim⟩
  exact ((traffic_after new run respects distinct).jobs j job).asks i id m use

theorem moment (new : w.IsNew) (run : w.CanRun as) (distinct : (w.after as).ids.Distinct)
    (split : as = p ++ a :: q) :
    (w.CanRun p ∧ (w.after p).ids.Distinct) ∧ a.IsPossible (w.after p) ∧
      w.CanRun (p ++ [a]) ∧ (w.after (p ++ [a])).ids.Distinct := by
  have next := beginning_runs new run distinct (p := p ++ [a]) ⟨q, by simp [split]⟩
  exact ⟨beginning_runs new run distinct ⟨_, split.symm⟩, next.1.split, next⟩

theorem Resolves.not_later (new : w.IsNew) (run : w.CanRun as)
    (distinct : (w.after as).ids.Distinct) (split : as = p ++ a :: q)
    (split' : as = p' ++ a' :: q') (h : (w.after p).Resolves a i id)
    (h' : (w.after p').Resolves a' i id) : p'.length ≤ p.length := by
  by_contra longer
  have next : p ++ [a] <+: as := ⟨q, by simp [split]⟩
  obtain ⟨r, rfl⟩ := List.prefix_of_prefix_length_le next ⟨_, split'.symm⟩
    (List.length_append ▸ Nat.lt_of_not_le longer)
  obtain ⟨whole, distinct⟩ := beginning_runs new run distinct ⟨_, split'.symm⟩
  obtain ⟨before, rest⟩ := Along.append.mp whole
  rw [after_append] at distinct h'
  have tidy := (grows_after (.new new) before).1
  have settled := ((Settled.kept i id).run rest (rest.mono fun _ _ _ => trivial) tidy
    fun _ => by simpa using h.settled).2 distinct
  obtain ⟨k, asks⟩ := h'.asks
  exact settled.idle k asks

/-- It is settled once whether the request of a call is sent. -/
theorem resolved_once (new : w.IsNew) (run : w.CanRun as) (distinct : (w.after as).ids.Distinct)
    (split : as = p ++ a :: q) (split' : as = p' ++ a' :: q') (h : (w.after p).Resolves a i id)
    (h' : (w.after p').Resolves a' i id) : p = p' ∧ a = a' := by
  have same := Nat.le_antisymm (h'.not_later new run distinct split' split h)
    (h.not_later new run distinct split split' h')
  obtain ⟨here, rest⟩ := List.append_inj (split.symm.trans split') same
  cases rest
  exact ⟨here, rfl⟩

theorem events_after (new : w.IsNew) (run : w.CanRun as) (split : as = p ++ q) :
    (w.after p).events <:+ (w.after as).events := by
  subst split
  obtain ⟨before, rest⟩ := Along.append.mp run
  rw [after_append]
  exact (grows_after (grows_after (.new new) before).1 rest).2.events

/-- A request is sent by someone outside or by the task of its call, and this settles the matter. -/
theorem sent_after (new : w.IsNew) (run : w.CanRun as) (distinct : (w.after as).ids.Distinct)
    (split : as = p ++ a :: q) {l : LinkId} {m : Message} (sent : .sent l m ∈ (w.after p).newly a)
    (request : m.attributes.isRequest = true) :
    (w.after p).SendsAlone a l m ∨ ∃ i id, (w.after p).Asks i id m ∧
      (w.after p).Requests a i id l m ∧ (w.after p).Resolves a i id := by
  obtain ⟨⟨before, distinctP⟩, possible, -, distinctA⟩ := moment new run distinct split
  obtain ⟨turn, tally⟩ := tally_after new before
  rw [after_append] at distinctA
  refine (newly_sent (grows_after (.new new) before).1 possible turn tally
    (oneTask_after new before) distinctA sent request).imp_right ?_
  rintro ⟨i, id, requests, settled⟩
  obtain ⟨k, j, taken, use⟩ := requests.turn
  obtain ⟨asks, job⟩ := asks_of_turn taken use
  exact ⟨i, id, asks_after new before distinctP job use, requests, ⟨k, asks⟩, settled⟩

/-- An attempt that fails for a call lets this call down, and settles the matter. -/
theorem failed_after (new : w.IsNew) (run : w.CanRun as) (distinct : (w.after as).ids.Distinct)
    (split : as = p ++ a :: q) {s : Status}
    (failed : .attempted (.caller i) (.error s) ∈ (w.after p).newly a) :
    ∃ id, (w.after p).LetsDown a i id s ∧ (w.after p).Resolves a i id ∧
      (w.after p).cell? (.caller i) ≠ some .registered := by
  obtain ⟨⟨before, distinctP⟩, possible, whole, distinctA⟩ := moment new run distinct split
  have ledger := ledger_after new whole distinctA
  have one := oneTask_after new whole distinctA
  obtain ⟨-, tally⟩ := tally_after new whole
  rw [after_append] at ledger one tally
  exact failed_call (grows_after (.new new) before).1 possible (ledger_after new before distinctP)
    ledger (fun j job i id m use => asks_after new before distinctP job use) one
    (tally_after new before).2 tally failed

/-- The deadline has ended a call that a failed attempt comes too late for. -/
theorem lapsed_after (new : w.IsNew) (run : w.CanRun as) (distinct : (w.after as).ids.Distinct)
    (hub : ∀ m, .inbound (.engine (.caller i)) m ∉ as) (resolves : (w.after as).Resolves a i id)
    (unregistered : (w.after as).cell? (.caller i) ≠ some .registered) {k : CallId}
    {o : Except Failure Payload} (account : (w.after as).account k = some (i, id, some o)) :
    ∃ timeout, o = .error (.deadlineExceeded timeout) := by
  have quiet : Along (fun _ a => ∀ m, a ≠ .inbound (.engine (.caller i)) m) w as :=
    Along.of_forall fun a member _ m same => hub m (same ▸ member)
  obtain ⟨-, -, unreached⟩ := (Unreached.kept (.caller i)).run run quiet (.new new)
    ⟨⟨⟨.new new, .new new⟩, .new new⟩, .new new⟩
  obtain ⟨-, outcome⟩ := (ledger_after new run distinct).account_eq_some.mp account
  obtain ⟨cause, ending, rfl⟩ := Option.map_eq_some_iff.mp outcome.symm
  obtain ⟨k', asks⟩ := resolves.asks
  obtain ⟨timeout, rfl⟩ := lapsed_of_ending (prompt_after new run) unreached unregistered
    (oneTask_after new run distinct i id) asks ending
  exact ⟨timeout, rfl⟩

/-- A call that is let down does not send its request in any act. -/
theorem unsent_after (new : w.IsNew) (run : w.CanRun as) (distinct : (w.after as).ids.Distinct)
    (split : as = p ++ a :: q) {s : Status} (down : (w.after p).LetsDown a i id s)
    (resolves : (w.after p).Resolves a i id) (split' : as = p' ++ a' :: q') {l : LinkId}
    {m : Message} (sent : .sent l m ∈ (w.after p').newly a') (requests : m.Requests id) :
    (w.after p').SendsAlone a' l m := by
  refine (sent_after new run distinct split' sent requests.1).resolve_right ?_
  rintro ⟨i', id', asks, -, resolves'⟩
  obtain rfl : id = id' := Option.some.inj (requests.2.symm.trans asks.2.1)
  -- one caller has accepted the call, so the two acts settle the same
  obtain ⟨⟨before, distinctP⟩, -⟩ := moment new run distinct split
  have ledger := ledger_after new before distinctP
  obtain ⟨k, o, account, -⟩ := down.falls
  obtain ⟨⟨call, place, rfl, rfl⟩, -⟩ := ledger.account_eq_some.mp account
  obtain rfl : call.caller = i' := (ledger_after new run distinct).sole _ _ _
    (accepted_suffix (events_after new run split) (ledger.outcomes k call place).1)
    (accepted_suffix (events_after new run split') asks.2.2)
  obtain ⟨rfl, rfl⟩ := resolved_once new run distinct split split' resolves resolves'
  rw [down.alone] at sent
  simp at sent

/-- Whose own listener is on the hub has had an attempt succeed. -/
theorem succeeded_of_listed (new : w.IsNew) (run : w.CanRun as) {r : Registration}
    (listed : r ∈ (w.after as).hub.registrations) (own : r.listener = .engine e) :
    .ok () ∈ (w.after as).attempts e := by
  obtain ⟨-, -, enrolled⟩ := Enrolled.kept.run run (run.mono fun _ _ _ => trivial) (.new new)
    ⟨⟨.new new, .new new⟩, .new new⟩
  exact ((tally_after new run).2 e).ok_mem.mpr (enrolled.own r listed e own).1

end Moments

end World

/-! ## Listeners are registered once -/

/-- **A listener is registered once, and before anything is sent that needs it.** The attempts of an
engine to have its listener registered are failures, and after the first success, without which it
is not on the hub, there are no more. A request is sent by the task of its call after this success,
unless someone outside sends it. An attempt that fails falls to the one whose task has made it. It
falls to one call, unless the deadline has ended this call (or what was handed to the caller past
the hub), and then nobody but someone outside ever sends the request of the call; or it falls to one
operation that was to add a handler. -/
theorem listener_registered_once {w : World} {as : List Act} (new : w.IsNew) (run : w.CanRun as)
    (distinct : (w.after as).ids.Distinct) :
    (∀ e, (∃ ss : List Status, (w.after as).attempts e = ss.map .error ∨
      (w.after as).attempts e = ss.map .error ++ [.ok ()]) ∧
      ∀ r ∈ (w.after as).hub.registrations, r.listener = .engine e →
        .ok () ∈ (w.after as).attempts e) ∧
    ∀ p a q, as = p ++ a :: q →
      (∀ l m, .sent l m ∈ (w.after p).newly a → m.attributes.isRequest = true →
        (w.after p).SendsAlone a l m ∨
          ∃ i id, m.Requests id ∧ (w.after p).Requests a i id l m) ∧
      (∀ i s, .attempted (.caller i) (.error s) ∈ (w.after p).newly a → ∃ id,
        (w.after p).LetsDown a i id s ∧
        ((∀ m, .inbound (.engine (.caller i)) m ∉ p) → ∀ k o,
          (w.after p).account k = some (i, id, some o) →
            ∃ timeout, o = .error (.deadlineExceeded timeout)) ∧
        ∀ p' a' q' l m, as = p' ++ a' :: q' → .sent l m ∈ (w.after p').newly a' →
          m.Requests id → (w.after p').SendsAlone a' l m) ∧
      ∀ sv s, .attempted (.server sv) (.error s) ∈ (w.after p).newly a → ∃ k,
        (w.after p).Denies a k sv s ∧
        ∀ r, (w.after as).Finished k r → r = .error (.failure (.transport s)) := by
  refine ⟨fun e => ⟨?_, fun r listed own => World.succeeded_of_listed new run listed own⟩,
    fun p a q split => ⟨fun l m sent request => ?_, fun i s failed => ?_, fun sv s failed => ?_⟩⟩
  · have tally := (World.tally_after new run).2 e
    by_cases registered : (w.after as).cell? e = some .registered
    · obtain ⟨ss, attempts⟩ := tally.registered registered
      exact ⟨ss, .inr attempts⟩
    · obtain ⟨ss, attempts⟩ := tally.unregistered registered
      exact ⟨ss, .inl attempts⟩
  · refine (World.sent_after new run distinct split sent request).imp_right ?_
    rintro ⟨i, id, asks, requests, -⟩
    exact ⟨i, id, ⟨asks.1, asks.2.1⟩, requests⟩
  · obtain ⟨id, down, resolves, unregistered⟩ := World.failed_after new run distinct split failed
    obtain ⟨⟨before, distinctP⟩, -⟩ := World.moment new run distinct split
    refine ⟨id, down, fun hub k o account => ?_, fun p' a' q' l m split' sent requests => ?_⟩
    · exact World.lapsed_after new before distinctP hub resolves unregistered account
    · exact World.unsent_after new run distinct split down resolves split' sent requests
  · obtain ⟨⟨before, -⟩, possible, -⟩ := World.moment new run distinct split
    obtain ⟨k, denies⟩ := World.failed_serve (World.grows_after (.new new) before).1 possible failed
    refine ⟨k, denies, fun r finished => (World.results_after new run).once k _ _ finished ?_⟩
    have denied : .finished k (.error (.failure (.transport s))) ∈ (w.after p).newly a := by
      rw [denies.alone]
      simp
    obtain ⟨τ, told⟩ := World.has_of_newly denied
    have whole := World.events_after (p := p ++ [a]) (q := q) new run (by simp [split])
    rw [World.after_append] at whole
    exact ⟨τ, whole.subset told⟩

/-- Two calls ask for the listener of their caller at once: the first one is refused it and let
down, the second one has it registered and sends its request. Then a handler is to be added and the
listener is refused to the server. -/
theorem second_call_registers :
    let ids : MessageId.Source := { issue := fun n => .stamped 1 (BitVec.ofNat 74 n) }
    let method : Address := ⟨"entity", 1, 1, 1⟩
    let echo : Handler := ⟨0, 0, fun m => .returned m.payload⟩
    let down : Status := ⟨.unavailable, "down"⟩
    let w : World := { wall := 0, ids := ids }
    let ps : List Act := [.command (.addLink ⟨"entity", 1, 1, 0⟩), .command (.addServer 0),
      .command (.addCaller 0 false), .command (.setFault 0 .register ⟨10, some down⟩),
      .command (.invoke 0 method none .standard), .command (.invoke 0 method none .standard),
      .turn 1, .turn 3, .fire 10]
    let qs : List Act := [.turn 1, .command (.setFault 0 .register {})]
    let rs : List Act := [.turn 3, .command (.setFault 0 .register ⟨0, some down⟩)]
    let serve : Act := .command (.enter (.serve 0 method echo))
    let as : List Act := ps ++ (qs ++ (rs ++ [serve]))
    w.IsNew ∧ w.CanRun as ∧ (w.after as).ids.Distinct ∧
      (w.after as).attempts (.caller 0) = [.error down, .ok ()] ∧
      (∃ id, (w.after ps).LetsDown (.turn 1) 0 id down ∧
        ∀ k o, (w.after ps).account k = some (0, id, some o) →
          ∃ timeout, o = .error (.deadlineExceeded timeout)) ∧
      (∃ i id m, (w.after (ps ++ qs)).Requests (.turn 3) i id 0 m) ∧
      ∃ k, (w.after (ps ++ (qs ++ rs))).Denies serve k 0 down ∧
        ∀ r, (w.after as).Finished k r → r = .error (.failure (.transport down)) := by
  intro ids method echo down w ps qs rs serve as
  have new : w.IsNew := ⟨0, ids, rfl⟩
  have run : w.CanRun as := by decide +kernel
  have distinct : (w.after as).ids.Distinct := by decide +kernel
  have attempts : (w.after as).attempts (.caller 0) = [.error down, .ok ()] := by decide +kernel
  obtain ⟨-, moments⟩ := listener_registered_once new run distinct
  have failed : .error down ∈
      ((w.after ps).newly (.turn 1)).filterMap (Event.attempt? (.caller 0)) := by decide +kernel
  obtain ⟨id, down₀, lapsed, -⟩ := (moments ps (.turn 1) _ rfl).2.1 0 down
    (Event.mem_attempt?.mp failed)
  have denied : .error down ∈ ((w.after (ps ++ (qs ++ rs))).newly serve).filterMap
      (Event.attempt? (.server 0)) := by decide +kernel
  obtain ⟨k, denies, result⟩ := (moments (ps ++ (qs ++ rs)) serve [] (by simp [as])).2.2 0 down
    (Event.mem_attempt?.mp denied)
  refine ⟨new, run, distinct, attempts, ⟨id, down₀, lapsed (by simp [ps])⟩, ?_, k, denies, result⟩
  have sent : ∃ x ∈ ((w.after (ps ++ qs)).newly (.turn 3)).filterMap Event.sending?,
      x.1 = 0 ∧ x.2.attributes.isRequest = true := by decide +kernel
  obtain ⟨⟨l, m⟩, sending, rfl, request⟩ := sent
  have calls : (((w.after (ps ++ qs)).turn? (.turn 3)).bind (·.2.use?)).isSome = true := by
    decide +kernel
  rcases (moments (ps ++ qs) (.turn 3) (rs.tail ++ [serve]) (by simp [as, rs])).1 0 m
      (Event.mem_sending?.mp sending) request with
    ⟨k, alone⟩ | ⟨i, id, -, requests⟩
  · rw [alone] at calls
    cases calls
  · exact ⟨i, id, m, requests⟩

end Switchboard
