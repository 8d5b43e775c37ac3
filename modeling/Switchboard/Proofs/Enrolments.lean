import Switchboard.Proofs.Attempts
import Switchboard.Proofs.Listening

/-! # Who is on the hub

An engine has at most one registration on the hub, and only while its cell says that its listener
is registered. So whoever ceases to listen does so for good: the cell stays as it is, nobody
attempts a second time, and the one registration is gone. Main statements: the hub holds what the
cells say (`Enrolled.kept`), and a link that is closed has nothing on it.
-/

namespace Switchboard

namespace World

variable {w v : World} {e : EngineId}

/-- A task has an engine's listener in hand only if it registers it for a use of the engine, or
takes it off once it has been registered. -/
def Minds (w : World) : Job → Prop
  | .register _ _ _ (.engine _) (.report _) => False
  | .unregister _ _ _ (.engine e) _ => w.cell? e = some .registered
  | .withdraw _ _ e => w.cell? e = some .registered
  | _ => True

/-- What is on the hub is what the engines' cells say. -/
structure Enrolled (w : World) : Prop where
  own : ∀ r ∈ w.hub.registrations, ∀ e, r.listener = .engine e →
    w.cell? e = some .registered ∧ ∃ p, w.seat? e = some p ∧ r = p.registration e
  opened : ∀ r ∈ w.hub.registrations, ¬w.IsClosed r.owner
  nodup : w.hub.registrations.Nodup
  jobs : ∀ j, w.HasJob j → w.Minds j

theorem Minds.later {j : Job} (h : w.Minds j)
    (cells : ∀ e, w.cell? e = some .registered → v.cell? e = some .registered) : v.Minds j := by
  cases j with
  | register l source sink listener after =>
    cases listener with
    | plain key => trivial
    | engine e =>
      cases after with
      | use u => trivial
      | report r => exact h
  | unregister l source sink listener after =>
    cases listener with
    | plain key => trivial
    | engine e => exact cells e h
  | withdraw l sink e => exact cells e h
  | _ => trivial

/-- A link that registers a listener is open, and the listener was not registered with these
filters. -/
theorem open_of_registration {r : Registration} {hub : Hub} (h : w.registration r = .ok hub) :
    ¬w.IsClosed r.owner ∧ r ∉ w.hub.registrations := by
  unfold registration at h
  split at h
  · cases h
  · rename_i accepts
    refine ⟨fun hx => ?_, fun listed => ?_⟩
    · obtain ⟨link, hl, closed⟩ := hx
      simp only [refusal?, hl, Link.refusal?] at accepts
      split at accepts
      · cases accepts
      · simp [closed] at accepts
    · have twice : w.hub.registrations.any (·.is r.source r.sink r.listener) = true :=
        List.any_eq_true.mpr ⟨r, listed, by simp [Registration.is]⟩
      simp [Hub.register, twice] at h

end World

open World

/-- What a job leads to has an engine's listener in hand only as is said above. -/
theorem Leads.minds {w v : World} {t : TaskId} {j j' : Job} (h : Leads w t j j')
    (before : v.Minds j) (cells : ∀ e, w.cell? e = v.cell? e) : v.Minds j' := by
  cases h with
  | withdraw l sink e => exact before
  | close e p seat opened registered =>
    exact (cells e).symm.trans (by rw [cell?, seat, Option.map_some, registered])
  | _ => trivial

/-- At the outset of an act the hub gets no registration. -/
theorem Outset.roster {w : World} {a : Act} {b : Option TaskId × World} (ho : Outset w a b) :
    b.2.hub.registrations.Sublist w.hub.registrations := by
  cases ho with
  | closeLink l => exact List.filter_sublist
  | invoke i method payload options owned => simp [invoke_hub]
  | fire due next => simp [World.fire]
  | hold e owned => simp [World.hold]
  | drop e side owned => simp
  | _ => exact List.Sublist.refl _

/-- A link is closed at the outset of an act only if it was, or if the act closes it. -/
theorem Outset.closed {w : World} {a : Act} {b : Option TaskId × World} (ho : Outset w a b)
    {l : LinkId} (closed : b.2.IsClosed l) :
    w.IsClosed l ∨ ∀ r ∈ b.2.hub.registrations, r.owner ≠ l := by
  obtain ⟨link, hl, shut⟩ := closed
  cases ho with
  | addLink address =>
    left
    rw [Table.get?_insert] at hl
    split at hl
    · cases hl
      cases shut
    · exact ⟨link, hl, shut⟩
  | setFault l' a fault =>
    left
    simp only [World.setFault, Table.get?_modify] at hl
    split at hl
    · obtain ⟨link', hl', rfl⟩ := Option.map_eq_some_iff.mp hl
      exact ⟨link', hl', by cases a <;> exact shut⟩
    · exact ⟨link, hl, shut⟩
  | closeLink l' =>
    by_cases hll : l = l'
    · refine .inr fun r hr => ?_
      simp only [World.closeLink, Hub.withdraw, List.mem_filter] at hr
      simpa [hll] using hr.2
    · exact .inl ⟨link, by simpa [World.closeLink, hll] using hl, shut⟩
  | invoke i method payload options owned =>
    exact .inl ⟨link, by rwa [invoke_links] at hl, shut⟩
  | fire due next => exact .inl ⟨link, by simpa [World.fire] using hl, shut⟩
  | hold e owned => exact .inl ⟨link, by simpa [World.hold] using hl, shut⟩
  | drop e side owned => exact .inl ⟨link, by simpa using hl, shut⟩
  | _ => exact .inl ⟨link, hl, shut⟩

namespace World.Enrolled

variable {w : World} {a b : Option TaskId × World}

theorem stays (h : w.Enrolled) {v : World} (grows : w.Grows v)
    (cells : ∀ e, w.cell? e = some .registered → v.cell? e = some .registered) {r : Registration}
    (listed : r ∈ w.hub.registrations) {e : EngineId} (own : r.listener = .engine e) :
    v.cell? e = some .registered ∧ ∃ p, v.seat? e = some p ∧ r = p.registration e := by
  obtain ⟨registered, p, hp, hr⟩ := h.own r listed e own
  obtain ⟨q, hq, hg⟩ := grows.seats e p hp
  exact ⟨cells e registered, q, hq, hr.trans (Seat.Grows.registration hg e).symm⟩

theorem used (h : w.Enrolled) (listening : w.Listening) {r : Registration} {after : AfterRegister}
    (has : w.HasJob (.register r.owner r.source r.sink r.listener after)) {e : EngineId}
    (own : r.listener = .engine e) : ∃ u p, after = .use u ∧ u.engine = e ∧
      w.seat? e = some p ∧ r = p.registration e := by
  cases after with
  | report p =>
    have minds := h.jobs _ has
    simp only [Minds, own] at minds
  | use u =>
    obtain ⟨p, seat, hr⟩ := listening.jobs _ has
    have engine : u.engine = e := by
      have listener := congrArg Registration.listener hr
      simpa [Seat.registration, own, eq_comm] using listener
    exact ⟨u, p, rfl, engine, engine ▸ seat, engine ▸ hr⟩

theorem move (hm : Move a b) (tidy : a.2.Tidy) (turn : InTurn a) (listening : a.2.Listening)
    (h : a.2.Enrolled) : b.2.Enrolled := by
  have cells : ∀ e, a.2.cell? e = some .registered → b.2.cell? e = some .registered :=
    fun e he => hm.registered he
  have links : ∀ l, b.2.IsClosed l → a.2.IsClosed l := fun l => by
    rw [IsClosed, IsClosed, hm.links]
    exact id
  have jobs : ∀ j, b.2.HasJob j → b.2.Minds j := by
    intro j hj
    rcases hm.leads tidy hj with hj | ⟨w, t, j₀, rfl, leads⟩ | ⟨e, p, seat, -, registered, -, rfl⟩
    · exact (h.jobs j hj).later cells
    · refine (leads.minds (h.jobs j₀ (hasJob_park w t j₀)) fun e => ?_).later cells
      exact cell?_congr (park_seat? ..).symm
    · exact cells e (by rw [cell?, seat, Option.map_some, registered])
  rcases hm.roster with fewer | ⟨w, t, r, after, hub, rfl, registration, hb, settles⟩
  · exact ⟨fun r hr e own => h.stays hm.grows cells (fewer.subset hr) own,
      fun r hr hc => h.opened r (fewer.subset hr) (links _ hc), h.nodup.sublist fewer, jobs⟩
  · obtain ⟨opened, unlisted⟩ := open_of_registration registration
    have parked := hasJob_park w t (.register r.owner r.source r.sink r.listener after)
    have members : ∀ g, g ∈ b.2.hub.registrations → g ∈ w.hub.registrations ∨ g = r := by
      intro g hg
      simpa [hb, hub_of_registration registration] using hg
    refine ⟨fun g hg e own => ?_, fun g hg hc => ?_, ?_, jobs⟩
    · rcases members g hg with old | rfl
      · exact h.stays hm.grows cells old own
      · obtain ⟨u, p, rfl, rfl, hp, hg⟩ := h.used listening parked own
        -- the engine that asked has waited for this attempt
        obtain ⟨ws, attempting⟩ := (turn.orderly u.engine).registering t
          ⟨.register g.owner g.source g.sink g.listener (.use u), false⟩ u (by simp) rfl rfl
        obtain ⟨q, hq, grows⟩ := hm.grows.seats _ p hp
        exact ⟨settles u ws rfl attempting, q, hq, hg.trans (Seat.Grows.registration grows _).symm⟩
    · rcases members g hg with old | rfl
      · exact h.opened g old (links _ hc)
      · exact opened (by simpa [IsClosed] using links _ hc)
    · rw [hb, hub_of_registration registration]
      refine List.nodup_append.mpr ⟨h.nodup, by simp, fun g hg g' hg' => ?_⟩
      rw [List.mem_singleton.mp hg']
      exact fun same => unlisted (same ▸ hg)

theorem outset {a : Act} (ho : Outset w a b) (tidy : w.Tidy) (h : w.Enrolled) : b.2.Enrolled := by
  have cells : ∀ e, w.cell? e = some .registered → b.2.cell? e = some .registered :=
    fun e he => ho.registered tidy he
  refine ⟨fun r hr e own => h.stays (ho.grows tidy) cells (ho.roster.subset hr) own,
    fun r hr hc => ?_, h.nodup.sublist ho.roster, fun j hj => ?_⟩
  · rcases ho.closed hc with before | none
    · exact h.opened r (ho.roster.subset hr) before
    · exact none r hr rfl
  · rcases ho.leads hj with hj | ⟨o, -, rfl⟩ | ⟨l, m, -, rfl⟩ |
      ⟨i, method, payload, options, -, new⟩
    · exact (h.jobs j hj).later cells
    · trivial
    · trivial
    · rcases new with rfl | ⟨c, m, -, -, -, rfl⟩ <;> trivial

theorem new (h : w.IsNew) : w.Enrolled := by
  obtain ⟨wall, ids, rfl⟩ := h
  refine ⟨by simp, by simp, List.nodup_nil, fun j hx => ?_⟩
  obtain ⟨k, x, hk, -⟩ := hx
  cases hk

theorem kept : Kept (fun _ _ => True) fun a => (InTurn a ∧ a.2.Listening) ∧ a.2.Enrolled :=
  (InTurn.kept.add (fun tidy ho _ _ _ h => h.outset ho tidy)
    (fun tidy hm _ _ h => Listening.move hm tidy h)).add
    (fun tidy ho _ _ _ h => h.outset ho tidy)
    (fun tidy hm before _ h => h.move hm tidy before.1 before.2)

/-- An engine whose listener is registered gets no other registration. -/
theorem settled (h : a.2.Enrolled) (hm : Move a b) (turn : InTurn a) (listening : a.2.Listening)
    {e : EngineId} (registered : a.2.cell? e = some .registered) {r : Registration}
    (listed : r ∈ b.2.hub.registrations) (own : r.listener = .engine e) :
    r ∈ a.2.hub.registrations := by
  rcases hm.enlists listed with old | ⟨w, t, after, rfl⟩
  · exact old
  · obtain ⟨u, -, rfl, engine, -⟩ := h.used listening (hasJob_park w t _) own
    exact absurd engine (turn.settled registered (park_self w t _) rfl)

theorem sole (h : w.Enrolled) {r r' : Registration} (listed : r ∈ w.hub.registrations)
    (listed' : r' ∈ w.hub.registrations) {e : EngineId} (own : r.listener = .engine e)
    (own' : r'.listener = .engine e) : r = r' := by
  obtain ⟨-, p, hp, rfl⟩ := h.own r listed e own
  obtain ⟨-, p', hp', rfl⟩ := h.own r' listed' e own'
  cases hp.symm.trans hp'
  rfl

end World.Enrolled

end Switchboard
