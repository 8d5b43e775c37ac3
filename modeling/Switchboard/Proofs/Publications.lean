import Switchboard.Proofs.Deliveries
import Switchboard.Proofs.Enrolments
import Switchboard.Proofs.Traffic

/-! # Publications and addressed messages

Two rules that know nothing of each other keep publications apart from what is addressed to
somebody. The rules of the kinds give a publication no sink and every other message one, and a draft
is held to them when it is finished. The hub hands what has no sink to registrations without a sink
filter, and all else to the others. So whatever is under way is valid as long as only finished
drafts are sent (`World.Lawful.kept`), and a registration gets publications or addressed messages,
never both (`publications_apart`).
-/

namespace Switchboard

/-- Of the kinds that have rules, publications are the one without a sink. -/
theorem Attributes.sink_eq_none_iff {a : Attributes} (valid : a.isValid = true) :
    a.sink = none ↔ a.kind = .publish := by
  obtain ⟨rules, own, -, none⟩ := exists_rules_of_isValid valid
  cases rules <;> simp_all [kindDefects, RuleSet.kind, ← Option.isSome_iff_ne_none]

namespace Registration

variable {r : Registration} {m : Message}

/-- A registration without a sink filter accepts what has no sink, and any other what has one. -/
theorem sink_of_accepts (accepts : r.accepts m = true) :
    r.sink = none ↔ m.attributes.sink = none := by
  obtain ⟨-, sinks⟩ := accepts_iff.mp accepts
  cases filter : r.sink with
  | none => simpa [filter] using sinks
  | some f =>
    rw [filter] at sinks
    obtain ⟨sink, hs, -⟩ := sinks
    simp [hs]

/-- Of valid messages, a registration without a sink filter accepts publications alone, and any
other registration none of them. -/
theorem unfiltered_iff (valid : m.attributes.isValid = true) (accepts : r.accepts m = true) :
    r.sink = none ↔ m.attributes.kind = .publish :=
  (sink_of_accepts accepts).trans (Attributes.sink_eq_none_iff valid)

end Registration

/-- The message is a finished draft, whatever the draft began with and whatever it was given. -/
def Message.IsFinished (m : Message) : Prop :=
  ∃ (d : Draft) (settings : List Draft.Setting) (fresh : MessageId) (payload : Option Payload),
    (d.setAll settings).finish fresh payload = .ok m

theorem Draft.isValid_of_finish {d : Draft} {fresh : MessageId} {payload : Option Payload}
    {m : Message} (finish : d.finish fresh payload = .ok m) : m.attributes.isValid = true := by
  obtain ⟨rfl, valid⟩ := Draft.finish_ok finish
  exact valid

theorem Draft.finish_of_isValid {d : Draft} {fresh : MessageId}
    (valid : (d.identified fresh).isValid = true) (payload : Option Payload) :
    d.finish fresh payload = .ok ⟨d.identified fresh, payload⟩ :=
  finish_eq_ok.mpr ⟨Attributes.isValid_iff.mp valid, rfl⟩

theorem Message.IsFinished.isValid {m : Message} (h : m.IsFinished) :
    m.attributes.isValid = true := by
  obtain ⟨d, settings, fresh, payload, finish⟩ := h
  exact Draft.isValid_of_finish finish

/-! ## What is under way -/

/-- The job has the message in hand, or wants a listener to send it as a request. -/
def Job.Conveys (j : Job) (m : Message) : Prop :=
  j.message? = some m ∨ ∃ i id, j.use? = some (.request i id m)

def Job.IsLawful (j : Job) : Prop := ∀ m, j.Conveys m → m.attributes.isValid = true

theorem Job.isLawful_of_message {j : Job} {m : Message} (message : j.message? = some m)
    (use : j.use? = none) (valid : m.attributes.isValid = true) : j.IsLawful := by
  intro m' conveys
  rcases conveys with hm | ⟨i, id, hu⟩
  · cases message.symm.trans hm
    exact valid
  · cases use.symm.trans hu

theorem Job.isLawful_of_request {j : Job} {i : CallerId} {id : MessageId} {m : Message}
    (message : j.message? = none) (use : j.use? = some (.request i id m))
    (valid : m.attributes.isValid = true) : j.IsLawful := by
  intro m' conveys
  rcases conveys with hm | ⟨i', id', hu⟩
  · cases message.symm.trans hm
  · cases use.symm.trans hu
    exact valid

theorem Job.isLawful_of_idle {j : Job} (message : j.message? = none)
    (use : ∀ i id m, j.use? ≠ some (.request i id m)) : j.IsLawful := by
  intro m conveys
  rcases conveys with hm | ⟨i, id, hu⟩
  · cases message.symm.trans hm
  · exact absurd hu (use i id m)

/-- A job hands on what it has in hand, or goes on to a message that it has drafted. -/
theorem Leads.isLawful {w : World} {t : TaskId} {j j' : Job} (h : Leads w t j j')
    (before : j.IsLawful) : j'.IsLawful := by
  have same : ∀ m, j.Conveys m → m.attributes.isValid = true := before
  cases h with
  | served s v h m server alive judged => exact Job.isLawful_of_message rfl rfl (same m (.inl rfl))
  | request j i c id m use caller listening =>
    exact Job.isLawful_of_message rfl rfl (same m (.inr ⟨i, id, use⟩))
  | attempt j u p use seat =>
    intro m conveys
    rcases conveys with hm | ⟨i, id, hu⟩
    · cases hm
    · exact same m (.inr ⟨i, id, use.trans hu⟩)
  | wait u =>
    intro m conveys
    rcases conveys with hm | hu
    · cases hm
    · exact same m (.inr hu)
  | startSend l m => exact Job.isLawful_of_message rfl rfl (same m (.inl rfl))
  | reply s v m a j es draft payload server replies finish =>
    exact Job.isLawful_of_message rfl rfl (Draft.isValid_of_finish finish)
  | broadcast l m after listener accepted recipient =>
    exact Job.isLawful_of_message rfl rfl (same m (.inl rfl))
  | post o l resource draft payload options topic m posting finish =>
    exact Job.isLawful_of_message rfl rfl (Draft.isValid_of_finish finish)
  | call i c method payload options m caller finish minted =>
    exact Job.isLawful_of_request rfl rfl (Draft.isValid_of_finish finish)
  | _ => exact Job.isLawful_of_idle rfl (by simp [Job.use?])

namespace World

variable {w : World} {a b : Option TaskId × World}

def Lawful (w : World) : Prop := ∀ j, w.HasJob j → j.IsLawful

theorem Lawful.new (h : w.IsNew) : w.Lawful := by
  obtain ⟨wall, ids, rfl⟩ := h
  intro j has
  obtain ⟨k, x, task, -⟩ := has
  cases task

theorem Lawful.move (h : a.2.Lawful) (hm : Move a b) (tidy : a.2.Tidy) : b.2.Lawful := by
  intro j has
  rcases hm.leads tidy has with old | ⟨w, t, j₀, rfl, leads⟩ | ⟨e, p, -, -, -, -, rfl⟩
  · exact h j old
  · exact leads.isLawful (h j₀ (hasJob_park w t j₀))
  · exact Job.isLawful_of_idle rfl (by simp [Job.use?])

theorem Lawful.outset {act : Act} (h : w.Lawful) (ho : Outset w act b)
    (sent : ∀ m, act.message? = some m → m.IsFinished) : b.2.Lawful := by
  intro j has
  rcases ho.leads has with old | ⟨o, start, rfl⟩ | ⟨l, m, rfl, rfl⟩ |
    ⟨i, method, payload, options, -, rfl | ⟨c, m, -, finish, -, rfl⟩⟩
  · exact h j old
  · intro m conveys
    rcases conveys with hm | ⟨i, id, hu⟩
    · refine (sent m ?_).isValid
      cases o <;> cases hm
      rcases start with rfl | rfl <;> rfl
    · cases hu
  · exact Job.isLawful_of_message rfl rfl (sent m rfl).isValid
  · exact Job.isLawful_of_idle rfl (by simp [Job.use?])
  · exact Job.isLawful_of_request rfl rfl (Draft.isValid_of_finish finish)

/-- **Whatever is under way is valid** in a run in which only finished drafts are sent. -/
theorem Lawful.kept : Kept (fun _ act => ∀ m, act.message? = some m → m.IsFinished)
    fun a => a.2.Lawful :=
  ⟨fun _ ho sent h => h.outset ho sent, fun tidy hm h => h.move hm tidy⟩

/-- What is addressed to a listener was passed to the hub at some moment when a registration of the
listener accepted it. -/
theorem registered_of_addressed {l : Listener} {as : List Act} {m : Message}
    (addressed : m ∈ addressed l w as) : ∃ p a q r, as = p ++ a :: q ∧
      m ∈ (w.after p).passes a ∧ r ∈ ((w.after p).act a).hub.registrations ∧ r.listener = l ∧
        r.accepts m = true := by
  induction as generalizing w with
  | nil => cases addressed
  | cons a as ih =>
    rcases List.mem_append.mp addressed with now | later
    · obtain ⟨m', passed, copy⟩ := List.mem_flatMap.mp now
      rw [Hub.copies, List.mem_replicate] at copy
      obtain ⟨some, rfl⟩ := copy
      obtain ⟨r, listed, hr⟩ := List.countP_pos_iff.mp (Nat.pos_of_ne_zero some)
      rw [Bool.and_eq_true, beq_iff_eq] at hr
      exact ⟨[], a, as, r, rfl, passed, listed, hr.1, hr.2⟩
    · obtain ⟨p, a', q, r, rfl, moment⟩ := ih later
      exact ⟨a :: p, a', q, r, rfl, moment⟩

/-- What a listener is handed in an act has waited for it. -/
theorem Posted.waited {act : Act} {l : Listener} {m : Message} (h : Posted (none, w))
    (possible : act.IsPossible w) (received : m ∈ w.receives l act) :
    m ∈ w.queued l ∧ w.HasJob (.deliver l m) := by
  obtain ⟨k, rfl⟩ : ∃ k, act = .turn k := by
    cases act with
    | turn k => exact ⟨k, rfl⟩
    | command c => cases c <;> cases received
    | _ => cases received
  rw [h.receives, Option.mem_toList] at received
  obtain ⟨x, task, job⟩ := deliveryTo?_eq_some.mp received
  exact ⟨List.mem_filterMap.mpr ⟨k, possible, received⟩, k, x, task, job⟩

end World

open World

theorem Event.mem_deliveredTo {es : List Event} {l : Listener} {m : Message} :
    m ∈ es.filterMap (Event.deliveredTo? l) ↔ .delivered l m ∈ es := by
  rw [List.mem_filterMap]
  constructor
  · rintro ⟨e, he, to_l⟩
    cases e with
    | delivered l' m' =>
      obtain ⟨rfl, ⟨⟩⟩ := Option.ite_none_right_eq_some.mp to_l
      exact he
    | _ => cases to_l
  · exact fun he => ⟨_, he, if_pos rfl⟩

/-- **Published and addressed messages never mix.** In a run in which only finished drafts are sent,
be it by engines, publishers, notifiers or by hand, whatever a listener receives was passed to the
hub when some registration of the listener accepted it: one without a sink filter if it is a
publication, one with a sink filter if it is not. So a listener that is on the hub without a sink
filter only, whatever its source filters, receives nothing but publications, and one that is on it
with sink filters only, whatever they are, receives none of them. An engine's listener receives
requests, responses and notifications. -/
theorem publications_apart {w : World} {as : List Act} {l : Listener} (new : w.IsNew)
    (run : w.CanRun as) (sent : ∀ a ∈ as, ∀ m, a.message? = some m → m.IsFinished)
    (hub : ∀ m, .inbound l m ∉ as) :
    ∀ p a q m, as = p ++ a :: q → .delivered l m ∈ (w.after p).newly a →
      (∃ p' b q' r, p = p' ++ b :: q' ∧ m ∈ (w.after p').passes b ∧
        r ∈ ((w.after p').act b).hub.registrations ∧ r.listener = l ∧ r.accepts m = true ∧
        (r.sink = none ↔ m.attributes.kind = .publish)) ∧
      (Along (fun v _ => ∀ r ∈ v.hub.registrations, r.listener = l → r.sink = none) w as →
        m.attributes.kind = .publish) ∧
      (Along (fun v _ => ∀ r ∈ v.hub.registrations, r.listener = l → r.sink ≠ none) w as →
        m.attributes.kind ≠ .publish) ∧
      (∀ e, l = .engine e → m.attributes.kind = .request ∨ m.attributes.kind = .response ∨
        m.attributes.kind = .notification) := by
  intro p a q m split delivered
  subst split
  obtain ⟨before, possible, -⟩ := Along.append.mp run
  have known : Along (fun _ _ => True) w p := before.mono fun _ _ _ => trivial
  obtain ⟨tidy, turn, posted⟩ := Posted.kept.run before known (.new new) ⟨.new new, .new new⟩
  have lawful : (w.after p).Lawful :=
    (Lawful.kept.run before (Along.of_forall fun a ha _ => sent a (List.mem_append_left _ ha))
      (.new new) (.new new)).2
  -- the message has waited for the listener, so it was addressed to it before
  have received : m ∈ (w.after p).receives l a := by
    have heard := Event.mem_deliveredTo.mpr delivered
    rw [heard_act tidy possible] at heard
    split at heard
    · exact heard
    · cases heard
  obtain ⟨waits, has⟩ := posted.waited possible received
  have valid : m.attributes.isValid = true := lawful _ has m (.inl rfl)
  have addressed : m ∈ addressed l w p := by
    obtain ⟨perm, -⟩ := received_run (l := l) (.new new) (.new new) (.new new) before
      fun m inbound => hub m (List.mem_append_left _ inbound)
    have empty : w.queued l = [] := by
      obtain ⟨wall, ids, rfl⟩ := new
      rfl
    rw [empty, List.nil_append] at perm
    exact perm.symm.subset (List.mem_append_right _ waits)
  obtain ⟨p', b, q', r, rfl, passed, listed, own, accepts⟩ := registered_of_addressed addressed
  have kind := Registration.unfiltered_iff valid accepts
  -- the moment after the message was passed on is one of the run
  have moment : ∀ {P : World → Act → Prop}, Along P w ((p' ++ b :: q') ++ a :: q) →
      ∃ c, P ((w.after p').act b) c := by
    intro P along
    rw [List.append_assoc, List.cons_append] at along
    have rest := (Along.append.mp along).2.2
    cases q' with
    | nil => exact ⟨a, rest.1⟩
    | cons c q' => exact ⟨c, rest.1⟩
  refine ⟨⟨p', b, q', r, rfl, passed, listed, own, accepts, kind⟩, fun unfiltered => ?_,
    fun filtered published => ?_, fun e engine => ?_⟩
  · obtain ⟨c, none⟩ := moment unfiltered
    exact kind.mp (none r listed own)
  · obtain ⟨c, some⟩ := moment filtered
    exact some r listed own (kind.mpr published)
  · subst engine
    obtain ⟨early, possible', -⟩ := Along.append.mp before
    have possible'' : w.CanRun (p' ++ [b]) := Along.append.mpr ⟨early, possible', trivial⟩
    obtain ⟨-, -, enrolled⟩ := Enrolled.kept.run possible'' (Along.of_forall fun _ _ _ => trivial)
      (.new new) ⟨⟨.new new, .new new⟩, .new new⟩
    rw [after_append] at enrolled
    obtain ⟨-, seat, -, rfl⟩ := enrolled.own r listed e own
    have unpublished : m.attributes.kind ≠ .publish := fun published => by
      cases kind.mpr published
    have specified := Attributes.kind_ne_unspecified valid
    cases found : m.attributes.kind <;> simp_all

/-- A subscriber and a listener to everything that is addressed to anybody are on one hub. Of a
publication and a notification that is drafted by hand, the first receives the publication and the
second the notification. -/
theorem subscriber_receives_publications :
    let ids : MessageId.Source := { issue := fun n => .stamped 1 (BitVec.ofNat 74 n) }
    let w : World := { wall := 0, ids := ids }
    let r : Message :=
      ⟨{ id := some (ids.issue 9), kind := .notification, source := some ⟨"shop", 16, 1, 0x8000⟩,
         sink := some ⟨"till", 32, 1, 0⟩, priority := .forCalls, token := some "open" }, none⟩
    let p : List Act := [.command (.addLink ⟨"shop", 16, 1, 0⟩),
      .command (.enter (.register 0 Address.any none 7 .listening)),
      .command (.enter (.register 0 Address.any (some Address.any) 8 .plain)),
      .command (.enter (.publish 0 0x8000 none {})),
      .command (.enter (.send 0 r))]
    let q : List Act := p ++ [.turn 3]
    let as : List Act := q ++ [.turn 5]
    w.IsNew ∧ w.CanRun as ∧ (∀ a ∈ as, ∀ m, a.message? = some m → m.IsFinished) ∧
      (∀ l m, .inbound l m ∉ as) ∧
      (∃ m, .delivered (.plain 7) m ∈ (w.after p).newly (.turn 3) ∧
        m.attributes.kind = .publish) ∧
      ∃ m, .delivered (.plain 8) m ∈ (w.after q).newly (.turn 5) ∧
        m.attributes.kind ≠ .publish := by
  intro ids w r p q as
  have new : w.IsNew := ⟨0, ids, rfl⟩
  have run : w.CanRun as := by decide +kernel
  have drafted : r.IsFinished :=
    ⟨.notification ⟨"shop", 16, 1, 0x8000⟩ ⟨"till", 32, 1, 0⟩, [.token "open"], ids.issue 9, none,
      Draft.finish_of_isValid (by decide +kernel) none⟩
  have sent : ∀ a ∈ as, ∀ m, a.message? = some m → m.IsFinished := by
    simp [as, q, p, Act.message?, drafted]
  have hub : ∀ l m, .inbound l m ∉ as := by simp [as, q, p]
  have receives : ∃ m, m ∈ ((w.after p).newly (.turn 3)).filterMap
      (Event.deliveredTo? (.plain 7)) :=
    List.isEmpty_eq_false_iff_exists_mem.mp (by decide +kernel)
  have receives' : ∃ m, m ∈ ((w.after q).newly (.turn 5)).filterMap
      (Event.deliveredTo? (.plain 8)) :=
    List.isEmpty_eq_false_iff_exists_mem.mp (by decide +kernel)
  obtain ⟨m, hm⟩ := receives
  obtain ⟨n, hn⟩ := receives'
  have published := Event.mem_deliveredTo.mp hm
  have notified := Event.mem_deliveredTo.mp hn
  have unfiltered : Along (fun v _ => ∀ r ∈ v.hub.registrations, r.listener = .plain 7 →
      r.sink = none) w as := by decide +kernel
  have filtered : Along (fun v _ => ∀ r ∈ v.hub.registrations, r.listener = .plain 8 →
      r.sink ≠ none) w as := by decide +kernel
  have split : as = p ++ .turn 3 :: [.turn 5] := by simp [as, q]
  obtain ⟨-, first, -⟩ :=
    publications_apart new run sent (hub (.plain 7)) p (.turn 3) [.turn 5] m split published
  obtain ⟨-, -, second, -⟩ :=
    publications_apart new run sent (hub (.plain 8)) q (.turn 5) [] n rfl notified
  exact ⟨new, run, sent, hub, ⟨m, published, first unfiltered⟩, n, notified, second filtered⟩

end Switchboard
