import Switchboard.Proofs.Leads

/-! # An engine whose listener is registered keeps listening

Who has a registered listener hears what is sent to him: once the registration is
on the hub, nothing takes it off but the closing of the engine or of its link, or
the end of the engine. Main statements: an engine whose cell says so has its
registration on the hub (`Listening.kept`), and it stays there (`Move.listens`,
`Listens.outset`).
-/

namespace Switchboard

def Seat.registration (p : Seat) (e : EngineId) : Registration :=
  ⟨p.link, Address.any, some p.sink, .engine e⟩

/-- What an engine listens to: a caller to its entity, a server to all resources of it. -/
def Seat.Fits (p : Seat) : EngineId → Prop
  | .caller _ => p.sink = p.entity
  | .server _ => p.sink = p.entity.atResource Address.anyResource

namespace World

variable {w v : World} {e : EngineId}

def IsClosed (w : World) (l : LinkId) : Prop :=
  ∃ link, w.links.get? l = some link ∧ link.closed = true

instance (w : World) (l : LinkId) : Decidable (w.IsClosed l) :=
  decidable_of_iff ((w.links.get? l).any (·.closed) = true) (Option.any_eq_true ..)

/-- The engine has been closed, or is gone. -/
def Retired (w : World) (e : EngineId) : Prop :=
  ∃ p, w.seat? e = some p ∧ (p.closed = true ∨ p.gone = true)

/-- The engine's registration is on the hub, unless the engine has retired or its link is closed. -/
def Listens (w : World) (e : EngineId) : Prop :=
  ∃ p, w.seat? e = some p ∧
    (p.registration e ∈ w.hub.registrations ∨ w.Retired e ∨ w.IsClosed p.link)

/-- A task registers a listener for an engine only as the engine's own, and unregisters it only
when the engine has retired. -/
def Proper (w : World) : Job → Prop
  | .register l source sink listener (.use u) =>
    ∃ p, w.seat? u.engine = some p ∧ ⟨l, source, sink, listener⟩ = p.registration u.engine
  | .unregister _ _ _ (.engine e) _ => w.Retired e
  | .withdraw _ _ e => w.Retired e
  | _ => True

/-- Whoever has registered listens, and whoever has an owner is there. -/
structure Listening (w : World) : Prop where
  seats : ∀ e p, w.seat? e = some p → p.Fits e
  owned : ∀ e p, w.seat? e = some p → 0 < p.handles → p.gone = false
  linked : ∀ e p, w.seat? e = some p → ∃ link, w.links.get? p.link = some link
  jobs : ∀ j, w.HasJob j → w.Proper j
  listens : ∀ e, w.cell? e = some .registered → w.Listens e

theorem Retired.grow (h : w.Retired e) (grows : w.Grows v) : v.Retired e := by
  obtain ⟨p, hp, retired⟩ := h
  obtain ⟨q, hq, hg⟩ := grows.seats e p hp
  exact ⟨q, hq, retired.imp hg.closed hg.gone⟩

theorem Seat.Grows.registration {p q : Seat} (h : p.Grows q) (e : EngineId) :
    q.registration e = p.registration e := by
  rw [Seat.registration, Seat.registration, h.link, h.sink]

theorem Proper.grow {j : Job} (h : w.Proper j) (grows : w.Grows v) : v.Proper j := by
  cases j with
  | register l source sink listener after =>
    cases after with
    | use u =>
      obtain ⟨p, hp, he⟩ := h
      obtain ⟨q, hq, hg⟩ := grows.seats _ p hp
      exact ⟨q, hq, he.trans (Seat.Grows.registration hg _).symm⟩
    | report r => trivial
  | unregister l source sink listener after =>
    cases listener with
    | plain key => trivial
    | engine e => exact Retired.grow h grows
  | withdraw l sink e => exact Retired.grow h grows
  | _ => trivial

/-- An engine keeps listening through what only adds registrations, or takes off those of engines
that have retired or of links that are closed. -/
theorem Listens.step (h : w.Listens e) (grows : w.Grows v)
    (closed : ∀ l, w.IsClosed l → v.IsClosed l)
    (hub : ∀ p, w.seat? e = some p → p.registration e ∈ w.hub.registrations →
      p.registration e ∈ v.hub.registrations ∨ v.Retired e ∨ v.IsClosed p.link) : v.Listens e := by
  obtain ⟨p, hp, listens⟩ := h
  obtain ⟨q, hq, hg⟩ := grows.seats e p hp
  refine ⟨q, hq, ?_⟩
  rw [Seat.Grows.registration hg, hg.link]
  rcases listens with listed | retired | shut
  · exact hub p hp listed
  · exact .inr (.inl (retired.grow grows))
  · exact .inr (.inr (closed _ shut))

end World

/-! ## Moves -/

open World

theorem Move.links {a b : Option TaskId × World} (hm : Move a b) : b.2.links = a.2.links := by
  cases hm with
  | @call w v t i method payload options accepted free hi =>
    have links := invoke_links w i method payload options
    rw [hi] at links
    exact links
  | @callRefused w v t i method payload options e free hi =>
    have links := invoke_links w i method payload options
    rw [hi] at links
    exact links
  | _ => simp

theorem World.hub_of_registration {w : World} {r : Registration} {hub : Hub}
    (h : w.registration r = .ok hub) : hub.registrations = w.hub.registrations ++ [r] := by
  unfold registration at h
  split at h
  · cases h
  · unfold Hub.register at h
    split at h
    · cases h
    · cases h
      rfl

theorem World.hub_of_unregistration {w : World} {l : LinkId} {source : Address}
    {sink : Option Address} {listener : Listener} {hub : Hub}
    (h : w.unregistration l source sink listener = .ok hub) :
    hub.registrations = w.hub.registrations.filter fun r => !r.is source sink listener := by
  unfold unregistration at h
  split at h
  · cases h
  · unfold Hub.unregister at h
    split at h
    · cases h
      rfl
    · cases h

/-- A registration leaves the hub in a move only if the running task unregisters it. -/
theorem Move.hub {a b : Option TaskId × World} (hm : Move a b) {r : Registration}
    (listed : r ∈ a.2.hub.registrations) :
    r ∈ b.2.hub.registrations ∨ ∃ t l after, a.1 = some t ∧
      a.2.tasks.get? t = some ⟨.unregister l r.source r.sink r.listener after, false⟩ := by
  cases hm with
  | @enrol w t r' u hub free registration =>
    left
    simp [hub_of_registration registration, show r ∈ w.hub.registrations from listed]
  | @enlist w t r' p hub free registration =>
    left
    simp [hub_of_registration registration, show r ∈ w.hub.registrations from listed]
  | @unlist w t l source sink listener after hub free unregistration =>
    by_cases own : r.is source sink listener = true
    · obtain ⟨rfl, rfl, rfl⟩ : r.source = source ∧ r.sink = sink ∧ r.listener = listener := by
        simpa [Registration.is, and_assoc] using own
      exact .inr ⟨t, l, after, rfl, by simp⟩
    · left
      simp only [recordAll_keeps, hub_of_unregistration unregistration, List.mem_filter]
      exact ⟨listed, by simpa using own⟩
  | @call w v t i method payload options accepted free hi =>
    have hub := invoke_hub w i method payload options
    rw [hi] at hub
    exact .inl (by simpa [show v.hub = w.hub from hub] using listed)
  | @callRefused w v t i method payload options e free hi =>
    have hub := invoke_hub w i method payload options
    rw [hi] at hub
    exact .inl (by simpa [show v.hub = w.hub from hub] using listed)
  | _ => exact .inl (by simpa using listed)

theorem World.cell?_settleCell_ok {w : World} {e : EngineId} (ws : List TaskId)
    (h : w.cell? e = some (.attempting ws)) :
    (w.settleCell e (.ok ())).cell? e = some .registered := by
  obtain ⟨p, seat, -⟩ := Option.map_eq_some_iff.mp h
  unfold settleCell
  rw [h]
  simp [cell?, seat]

theorem Hub.mem_recipients {h : Hub} {m : Message} {l : Listener} :
    l ∈ h.recipients m ↔ ∃ r ∈ h.registrations, r.accepts m = true ∧ r.listener = l := by
  simp [Hub.recipients, and_assoc]

/-- In a move the hub loses registrations, or gets one more by the running task, which knows by
then that its engine's listener is registered. -/
theorem Move.roster {a b : Option TaskId × World} (hm : Move a b) :
    b.2.hub.registrations.Sublist a.2.hub.registrations ∨
      ∃ (w : World) (t : TaskId) (r : Registration) (after : AfterRegister) (hub : Hub),
        a = (some t, w.park t (.register r.owner r.source r.sink r.listener after)) ∧
        w.registration r = .ok hub ∧ b.2.hub = hub ∧ ∀ u ws, after = .use u →
          a.2.cell? u.engine = some (.attempting ws) → b.2.cell? u.engine = some .registered := by
  cases hm with
  | @enrol w t r u hub free registration =>
    refine .inr ⟨w, t, r, .use u, hub, rfl, registration, by simp, fun u' ws hu attempting => ?_⟩
    cases hu
    have settled : (({ w with hub := hub }.record (.attempted u.engine (.ok ()))).settleCell
        u.engine (.ok ())).cell? u.engine = some .registered := by
      refine cell?_settleCell_ok ws ?_
      rw [← attempting, cell?, cell?, park_seat?]
      rfl
    rw [← settled, cell?, cell?]
    exact congrArg _ (seat?_congr (by simp) (by simp) _)
  | @enlist w t r p hub free registration =>
    exact .inr ⟨w, t, r, .report p, hub, rfl, registration, by simp, by simp⟩
  | @unlist w t l source sink listener after hub free unregistration =>
    left
    simp [hub_of_unregistration unregistration]
  | @call w v t i method payload options accepted free hi =>
    have hub := invoke_hub w i method payload options
    rw [hi] at hub
    exact .inl (by simp [show v.hub = w.hub from hub])
  | @callRefused w v t i method payload options e free hi =>
    have hub := invoke_hub w i method payload options
    rw [hi] at hub
    exact .inl (by simp [show v.hub = w.hub from hub])
  | _ => exact .inl (by simp)

/-- A registration comes to the hub in a move only by the running task. -/
theorem Move.enlists {a b : Option TaskId × World} (hm : Move a b) {r : Registration}
    (listed : r ∈ b.2.hub.registrations) :
    r ∈ a.2.hub.registrations ∨ ∃ (w : World) (t : TaskId) (after : AfterRegister),
      a = (some t, w.park t (.register r.owner r.source r.sink r.listener after)) := by
  rcases hm.roster with fewer | ⟨w, t, r', after, hub, ha, registration, hb, -⟩
  · exact .inl (fewer.subset listed)
  · rw [hb, hub_of_registration registration, List.mem_append, List.mem_singleton] at listed
    rcases listed with old | rfl
    · exact .inl (by rw [ha]; exact old)
    · exact .inr ⟨w, t, after, ha⟩

theorem Move.listens {a b : Option TaskId × World} (hm : Move a b) {e : EngineId}
    (jobs : ∀ j, a.2.HasJob j → a.2.Proper j) (h : a.2.Listens e) : b.2.Listens e := by
  refine h.step hm.grows (fun l hl => ?_) fun p hp listed => ?_
  · rwa [World.IsClosed, hm.links]
  · rcases hm.hub listed with listed | ⟨t, l, after, -, task⟩
    · exact .inl listed
    · have retired : a.2.Retired e := jobs _ ⟨t, _, task, rfl⟩
      exact .inr (.inl (retired.grow hm.grows))

/-- What a move makes of a seat: an engine is closed only when it is asked to, goes away only when
nobody holds it, and has registered its listener only by its own attempt. -/
structure Seat.Moved (a b : Option TaskId × World) (e : EngineId) (p q : Seat) : Prop where
  grows : p.Grows q
  handles : q.handles = p.handles
  closed : q.closed = true → p.closed = true ∨
    ∃ (w : World) (t : TaskId), a = (some t, w.park t (.start (.close e)))
  gone : q.gone = true → p.gone = true ∨ p.handles = 0 ∧ a.1 = none ∧ a.2.isHeld e = false
  registered : q.cell = .registered → p.cell = .registered ∨
    ∃ (w : World) (t : TaskId) (r : Registration) (u : Use) (hub : Hub),
      a = (some t, w.park t (.register r.owner r.source r.sink r.listener (.use u))) ∧
      u.engine = e ∧ w.registration r = .ok hub ∧ b.2.hub = hub

theorem Seat.Moved.refl {a b : Option TaskId × World} {e : EngineId} (p : Seat) :
    Seat.Moved a b e p p :=
  ⟨.refl p, rfl, .inl, .inl, .inl⟩

/-- Only the cell changes, and the listener is not registered by that. -/
theorem Seat.Moved.cell {a b : Option TaskId × World} {e : EngineId} (p : Seat) {cell : Cell}
    (registered : cell = .registered → p.cell = .registered) :
    Seat.Moved a b e p { p with cell := cell } :=
  ⟨.cell p cell, rfl, .inl, .inl, fun h => .inl (registered h)⟩

/-- Settling a cell changes one engine's cell, and registers no listener but after a success. -/
theorem World.settleCell_seat {w : World} {e e' : EngineId} {r : Except Status Unit} {q : Seat}
    (h : (w.settleCell e' r).seat? e = some q) :
    ∃ p cell, w.seat? e = some p ∧ q = { p with cell := cell } ∧
      (cell = .registered → p.cell = .registered ∨ e' = e ∧ r = .ok ()) := by
  have modified : ∀ cell : Cell, (cell = .registered → e' = e → r = .ok ()) →
      (w.modifySeat (fun p => { p with cell := cell }) e').seat? e = some q →
      ∃ p cell, w.seat? e = some p ∧ q = { p with cell := cell } ∧
        (cell = .registered → p.cell = .registered ∨ e' = e ∧ r = .ok ()) := by
    intro cell hc h
    obtain ⟨p, hp, ⟨he, rfl⟩ | rfl⟩ := seat_of_modifySeat h
    · exact ⟨p, cell, hp, rfl, fun hr => .inr ⟨he, hc hr he⟩⟩
    · exact ⟨q, q.cell, hp, rfl, .inl⟩
  unfold settleCell at h
  split at h
  · exact modified .registered (fun _ _ => rfl) (by simpa using h)
  · exact modified .vacant (by simp) h
  · rename_i t rest _ _
    exact modified (.attempting rest) (by simp) (by simpa using h)
  · exact ⟨q, q.cell, h, rfl, .inl⟩

theorem Seat.Moved.modify {a b : Option TaskId × World} {e : EngineId} {q : Seat} (w : World)
    (f : Seat → Seat) (e' : EngineId) (moved : ∀ p : Seat, e' = e → Seat.Moved a b e p (f p))
    (hq : (w.modifySeat f e').seat? e = some q) :
    ∃ p, w.seat? e = some p ∧ Seat.Moved a b e p q := by
  obtain ⟨p, hp, ⟨own, rfl⟩ | rfl⟩ := seat_of_modifySeat hq
  · exact ⟨p, hp, moved p own⟩
  · exact ⟨q, hp, .refl q⟩

theorem Seat.Moved.fail {a b : Option TaskId × World} {w : World} {e e' : EngineId} {s : Status}
    {q : Seat} (hq : (w.settleCell e' (.error s)).seat? e = some q) :
    ∃ p, w.seat? e = some p ∧ Seat.Moved a b e p q := by
  obtain ⟨p, cell, hp, rfl, hr⟩ := settleCell_seat hq
  exact ⟨p, hp, .cell p fun hc => (hr hc).resolve_right (by simp)⟩

/-- **Every seat comes from a seat in a move**, and changes only as is said above. -/
theorem Move.seat {a b : Option TaskId × World} (hm : Move a b) {e : EngineId} {q : Seat}
    (hq : b.2.seat? e = some q) : ∃ p, a.2.seat? e = some p ∧ Seat.Moved a b e p q := by
  have same : ∀ {w v : World}, v.seat? e = w.seat? e → v.seat? e = some q →
      ∃ p, w.seat? e = some p ∧ Seat.Moved a b e p q :=
    fun hs hv => ⟨q, hs ▸ hv, .refl q⟩
  cases hm with
  | @remove w e' p side seat unowned alive unheld =>
    have hq : (w.remove e' p side).seat? e = some q := hq
    rw [remove_seat?] at hq
    split at hq
    · rename_i he
      subst he
      obtain ⟨p', hp, rfl⟩ := Option.map_eq_some_iff.mp hq
      cases seat.symm.trans hp
      exact ⟨p, hp, ⟨rfl, rfl, rfl, id, fun _ => rfl⟩, rfl, .inl,
        fun _ => .inr ⟨unowned, rfl, unheld⟩,
        .inl⟩
    · exact ⟨q, hq, .refl q⟩
  | @enrol w t r u hub free registration =>
    have hv : (({ w with hub := hub }.record (.attempted u.engine (.ok ()))).settleCell u.engine
        (.ok ())).seat? e = some q :=
      (seat?_congr (fun _ => by simp) (fun _ => by simp) e).symm.trans hq
    obtain ⟨p, cell, hp, rfl, hr⟩ := settleCell_seat hv
    refine ⟨p, hp, .cell p cell, rfl, .inl, .inl, fun hc => (hr hc).imp_right fun own => ?_⟩
    exact ⟨w, t, r, u, hub, rfl, own.1, registration, by simp⟩
  | @claim w t u p free seat vacant =>
    exact Seat.Moved.modify w (fun p => { p with cell := .attempting [] }) u.engine
      (fun p _ => .cell p (by simp)) hq
  | @wait w t u p waiting free seat attempting =>
    exact Seat.Moved.modify w (fun p => { p with cell := .attempting (waiting ++ [t]) }) u.engine
      (fun p _ => .cell p (by simp)) hq
  | @closeListening w t e' p free seat opened registered =>
    refine Seat.Moved.modify w (fun p => { p with closed := true }) e' (fun p own => ?_) hq
    exact ⟨⟨rfl, rfl, rfl, fun _ => rfl, id⟩, rfl, fun _ => .inr ⟨w, t, by rw [own]⟩, .inl, .inl⟩
  | @closeDeaf w t e' p free seat opened unregistered =>
    refine Seat.Moved.modify w (fun p => { p with closed := true }) e' (fun p own => ?_) hq
    exact ⟨⟨rfl, rfl, rfl, fun _ => rfl, id⟩, rfl, fun _ => .inr ⟨w, t, by rw [own]⟩, .inl, .inl⟩
  | @expire w t i id timeout free => exact same (complete_seat? w i id (.lapsed timeout) e) hq
  | @answered w t i c m id free caller alive answers => exact same (by simp) hq
  | @refuse w t l m i id s free refusal => exact same (complete_seat? w i id (.refused s) e) hq
  | @failRequest w t r i id m s free refusal =>
    exact Seat.Moved.fail (w := w.record (.attempted (.caller i) (.error s)))
      ((complete_seat? ..).symm.trans hq)
  | @failServe w t r sv m hd s free refusal =>
    exact Seat.Moved.fail (w := w.record (.attempted (.server sv) (.error s)))
      ((modifyServer_seat? _ _ (fun v _ => removeSame_seat ..) e).symm.trans hq)
  | @addHandler w t s v m hd free server vacant =>
    exact same (modifyServer_seat? w s (f := (·.addHandler m hd)) (fun _ _ => rfl) e) hq
  | @call w v t i method payload options accepted free hi =>
    have seats := invoke_seat? w i method payload options e
    rw [hi] at seats
    exact same seats hq
  | @callRefused w v t i method payload options e' free hi =>
    have seats := invoke_seat? w i method payload options e
    rw [hi] at seats
    exact same seats hq
  | _ => exact same (seat?_congr (by simp) (by simp) e) hq

/-- An engine that is asked to close is closed, once: then its listener is to be unregistered, if
that is registered by now. -/
theorem Move.closing {a b : Option TaskId × World} (hm : Move a b) {t : TaskId} {e : EngineId}
    {p : Seat} (runs : a.1 = some t) (task : a.2.tasks.get? t = some ⟨.start (.close e), false⟩)
    (seat : a.2.seat? e = some p) :
    ∃ w : World, a = (some t, w.park t (.start (.close e))) ∧ w.tasks.get? t = none ∧
      (p.closed = true ∧ b = (none, w.record (.finished t (.ok ()))) ∨
      p.closed = false ∧ p.cell = .registered ∧
        b = (some t, (w.modifySeat (fun p => { p with closed := true }) e).park t
          (.unregister p.link Address.any (some p.sink) (.engine e) (.report .listening))) ∨
      p.closed = false ∧ p.cell ≠ .registered ∧
        b = (none, (w.modifySeat (fun p => { p with closed := true }) e).record
          (.finished t (.ok ())))) := by
  have job : ∀ {w : World} {t' : TaskId} {j : Job}, a = (some t', w.park t' j) →
      t' = t ∧ j = .start (.close e) ∧ w.seat? e = some p := by
    intro w t' j heq
    obtain ⟨ht, hj⟩ := running_task heq runs task
    subst heq
    exact ⟨ht, hj, by simpa using seat⟩
  cases hm with
  | remove seat' unowned alive unheld => cases runs
  | @pass w t' j es next free passes =>
    obtain ⟨rfl, rfl, seat⟩ := job rfl
    cases passes with
    | closeNowhere e seat' => cases seat'.symm.trans seat
    | closedBefore e p' seat' closed =>
      cases seat'.symm.trans seat
      exact ⟨w, rfl, free, .inl ⟨closed, rfl⟩⟩
    | seatless u _ eq seat' => rcases eq with eq | eq <;> cases eq
    | postNowhere o l resource draft payload options posting link => cases posting
    | postOffTopic o l resource draft payload options link e posting linked offTopic =>
      cases posting
  | doze free dozes =>
    obtain ⟨rfl, rfl, -⟩ := job rfl
    cases dozes
  | reply free server replies finish =>
    obtain ⟨rfl, rfl, -⟩ := job rfl
    cases replies
  | mute free server replies finish =>
    obtain ⟨rfl, rfl, -⟩ := job rfl
    cases replies
  | @closeListening w t' e' p' free seat' opened registered =>
    obtain ⟨rfl, he, seat⟩ := job rfl
    cases he
    cases seat'.symm.trans seat
    exact ⟨w, rfl, free, .inr (.inl ⟨opened, registered, rfl⟩)⟩
  | @closeDeaf w t' e' p' free seat' opened unregistered =>
    obtain ⟨rfl, he, seat⟩ := job rfl
    cases he
    cases seat'.symm.trans seat
    exact ⟨w, rfl, free, .inr (.inr ⟨opened, unregistered, rfl⟩)⟩
  | post free posting linked onTopic finish =>
    obtain ⟨rfl, he, -⟩ := job rfl
    cases he
    cases posting
  | postInvalid free posting linked onTopic finish =>
    obtain ⟨rfl, he, -⟩ := job rfl
    cases he
    cases posting
  | _ =>
    obtain ⟨rfl, he, -⟩ := job rfl
    cases he

theorem Move.closes {a b : Option TaskId × World} (hm : Move a b) {w : World} {t : TaskId}
    {e : EngineId} {p : Seat} (ha : a = (some t, w.park t (.start (.close e))))
    (seat : w.seat? e = some p) : b.2.Retired e := by
  subst ha
  obtain ⟨u, ha, -, closing⟩ := hm.closing rfl (park_self w t _) (by simpa using seat)
  have seat : u.seat? e = some p := by
    have hs := congrArg (fun c : Option TaskId × World => c.2.seat? e) ha
    simpa [seat] using hs.symm
  rcases closing with ⟨closed, rfl⟩ | ⟨-, -, rfl⟩ | ⟨-, -, rfl⟩
  · exact ⟨p, by simpa using seat, .inl closed⟩
  · exact ⟨{ p with closed := true }, by simp [seat], .inl rfl⟩
  · exact ⟨{ p with closed := true }, by simp [seat], .inl rfl⟩

/-- The jobs that a proper job leads to are proper, if an engine that closes retires. -/
theorem Leads.proper {w u v : World} {t : TaskId} {j j' : Job} (h : Leads w t j j')
    (grows : w.Grows v) (before : u.Proper j) (later : u.Grows v)
    (closes : ∀ e p, j = .start (.close e) → w.seat? e = some p → v.Retired e) : v.Proper j' := by
  cases h with
  | attempt j u p use seat =>
    obtain ⟨q, hq, hg⟩ := grows.seats _ p seat
    exact ⟨q, hq, (Seat.Grows.registration hg _).symm⟩
  | withdraw l sink e => exact Retired.grow before later
  | close e p seat opened registered => exact closes e p rfl seat
  | _ => trivial

namespace World

variable {w v : World} {e : EngineId}

/-- An engine whose own registration has just been added to the hub listens. -/
theorem listens_of_registration {t : TaskId} {r : Registration} {u : Use} {hub : Hub}
    (proper : (w.park t (.register r.owner r.source r.sink r.listener (.use u))).Proper
      (.register r.owner r.source r.sink r.listener (.use u)))
    (registration : w.registration r = .ok hub)
    (grows : (w.park t (.register r.owner r.source r.sink r.listener (.use u))).Grows v)
    (hv : v.hub = hub) : v.Listens u.engine := by
  obtain ⟨p, hp, own⟩ := proper
  obtain ⟨q, hq, hg⟩ := grows.seats _ p hp
  refine ⟨q, hq, .inl ?_⟩
  rw [Seat.Grows.registration hg, ← own]
  simp [hv, hub_of_registration registration]

theorem Listening.move {a b : Option TaskId × World} (hm : Move a b) (tidy : a.2.Tidy)
    (h : a.2.Listening) : b.2.Listening := by
  refine ⟨fun e q hq => ?_, fun e q hq owned => ?_, fun e q hq => ?_, fun j hj => ?_,
    fun e he => ?_⟩
  · obtain ⟨p, hp, moved⟩ := hm.seat hq
    have fits := h.seats e p hp
    cases e <;> simpa only [Seat.Fits, moved.grows.sink, moved.grows.entity] using fits
  · obtain ⟨p, hp, moved⟩ := hm.seat hq
    rw [moved.handles] at owned
    have alive := h.owned e p hp owned
    refine Bool.eq_false_iff.mpr fun gone => ?_
    rcases moved.gone gone with gone | ⟨unowned, -⟩
    · rw [alive] at gone
      cases gone
    · omega
  · obtain ⟨p, hp, moved⟩ := hm.seat hq
    rw [hm.links, moved.grows.link]
    exact h.linked e p hp
  · rcases hm.leads tidy hj with hj | ⟨w, t, j₀, ha, leads⟩ | ⟨e, p, seat, -, -, rfl, rfl⟩
    · exact (h.jobs j hj).grow hm.grows
    · have parked : w.Grows a.2 := ha ▸ .park w t j₀
      have before : a.2.Proper j₀ := h.jobs j₀ (by rw [ha]; exact hasJob_park w t j₀)
      exact leads.proper (parked.trans hm.grows) before hm.grows
        fun e p he seat => hm.closes (he ▸ ha) seat
    · exact ⟨{ p with gone := true }, by simp [seat], .inr rfl⟩
  · obtain ⟨q, hq, registered⟩ := Option.map_eq_some_iff.mp he
    obtain ⟨p, hp, moved⟩ := hm.seat hq
    rcases moved.registered registered with before | ⟨w, t, r, u, hub, rfl, rfl, registration, hub⟩
    · exact hm.listens h.jobs (h.listens e (by rw [cell?, hp, ← before]; rfl))
    · exact listens_of_registration (h.jobs _ (hasJob_park w t _)) registration hm.grows hub

/-! ## Outsets -/

/-- The outset of an act changes at most who owns an engine, or adds a new one that has not begun
to listen. -/
theorem seat_of_outset {a : Act} {b : Option TaskId × World} (ho : Outset w a b)
    {q : Seat} (hq : b.2.seat? e = some q) :
    (∃ p handles, w.seat? e = some p ∧ q = { p with handles := handles } ∧
        (0 < handles → 0 < p.handles)) ∨
      q.Fits e ∧ q.cell = .vacant ∧ q.gone = false ∧ q.closed = false ∧
        ∃ link, b.2.links.get? q.link = some link := by
  have same : ∀ {v : World}, v.seat? e = w.seat? e → v.seat? e = some q →
      ∃ p handles, w.seat? e = some p ∧ q = { p with handles := handles } ∧
        (0 < handles → 0 < p.handles) :=
    fun hs hv => ⟨q, q.handles, hs ▸ hv, rfl, id⟩
  have modified : ∀ (f : Nat → Nat) (e' : EngineId),
      (∀ p, w.seat? e' = some p → 0 < f p.handles → 0 < p.handles) →
      (w.modifySeat (fun p => { p with handles := f p.handles }) e').seat? e = some q →
      ∃ p handles, w.seat? e = some p ∧ q = { p with handles := handles } ∧
        (0 < handles → 0 < p.handles) := by
    intro f e' hf hv
    obtain ⟨p, hp, ⟨rfl, rfl⟩ | rfl⟩ := seat_of_modifySeat hv
    · exact ⟨p, f p.handles, hp, rfl, hf p hp⟩
    · exact ⟨q, q.handles, hp, rfl, id⟩
  cases ho with
  | addCaller l link reports linked =>
    cases e with
    | server s => exact .inl (same rfl hq)
    | caller i =>
      simp only [seat?, Table.get?_insert] at hq
      split at hq
      · cases hq
        exact .inr ⟨rfl, rfl, rfl, rfl, link, linked⟩
      · exact .inl (same rfl hq)
  | addServer l link linked =>
    cases e with
    | caller i => exact .inl (same rfl hq)
    | server s =>
      simp only [seat?, Table.get?_insert] at hq
      split at hq
      · cases hq
        exact .inr ⟨rfl, rfl, rfl, rfl, link, linked⟩
      · exact .inl (same rfl hq)
  | hold e' owned =>
    refine .inl (modified (· + 1) e' (fun p hp _ => ?_) hq)
    simpa [isOwned, hp] using owned
  | drop e' side owned => exact .inl (modified (· - 1) e' (fun p _ => by omega) hq)
  | invoke i method payload options owned =>
    exact .inl (same (invoke_seat? w i method payload options e) hq)
  | fire due next =>
    refine .inl (same (seat?_congr (fun _ => ?_) (fun _ => ?_) e) hq) <;> simp [fire]
  | unserve s v v' m h server unserved =>
    refine .inl (same (modifyServer_seat? _ _ (fun u hu => ?_) e) hq)
    cases server.symm.trans hu
    exact unserve_seat unserved
  | _ => exact .inl (same rfl hq)

/-- A link stays at the outset of an act, and stays closed. -/
theorem link_of_outset {a : Act} {b : Option TaskId × World} (ho : Outset w a b) (tidy : w.Tidy)
    {l : LinkId} {link : Link} (hl : w.links.get? l = some link) :
    ∃ link', b.2.links.get? l = some link' ∧ (link.closed = true → link'.closed = true) := by
  cases ho with
  | addLink address =>
    refine ⟨link, ?_, id⟩
    rw [Table.get?_insert, if_neg (Nat.ne_of_lt (tidy.links.lt hl)), hl]
  | setFault l' a fault =>
    by_cases hll : l = l'
    · refine ⟨link.setFault fault a, by simp [World.setFault, hll ▸ hl, hll], ?_⟩
      cases a <;> exact id
    · exact ⟨link, by simp [World.setFault, hll, hl], id⟩
  | closeLink l' =>
    by_cases hll : l = l'
    · exact ⟨{ link with closed := true }, by simp [World.closeLink, hll ▸ hl, hll], fun _ => rfl⟩
    · exact ⟨link, by simp [World.closeLink, hll, hl], id⟩
  | invoke i method payload options owned =>
    exact ⟨link, by rw [invoke_links, hl], id⟩
  | fire due next => exact ⟨link, by simp [fire, hl], id⟩
  | hold e owned => exact ⟨link, by simp [hold, hl], id⟩
  | drop e side owned => exact ⟨link, by simp [hl], id⟩
  | _ => exact ⟨link, hl, id⟩

theorem IsClosed.outset {a : Act} {b : Option TaskId × World} (ho : Outset w a b) (tidy : w.Tidy)
    {l : LinkId} (h : w.IsClosed l) : b.2.IsClosed l := by
  obtain ⟨link, hl, closed⟩ := h
  obtain ⟨link', hl', keeps⟩ := link_of_outset ho tidy hl
  exact ⟨link', hl', keeps closed⟩

/-- A registration stays on the hub at the outset of an act, unless this closes its link. -/
theorem listed_of_outset {a : Act} {b : Option TaskId × World} (ho : Outset w a b)
    {r : Registration} (linked : ∃ link, w.links.get? r.owner = some link)
    (listed : r ∈ w.hub.registrations) :
    r ∈ b.2.hub.registrations ∨ b.2.IsClosed r.owner := by
  cases ho with
  | closeLink l =>
    by_cases hl : r.owner = l
    · obtain ⟨link, hlink⟩ := linked
      exact .inr ⟨{ link with closed := true }, by simp [World.closeLink, ← hl, hlink], rfl⟩
    · left
      simp only [World.closeLink, Hub.withdraw, List.mem_filter]
      exact ⟨listed, by simpa using hl⟩
  | invoke i method payload options owned =>
    exact .inl (by rwa [invoke_hub])
  | fire due next => exact .inl (by simpa [fire] using listed)
  | hold e owned => exact .inl (by simpa [hold] using listed)
  | drop e side owned => exact .inl (by simpa using listed)
  | _ => exact .inl listed

theorem Listens.outset {a : Act} {b : Option TaskId × World} (ho : Outset w a b) (tidy : w.Tidy)
    (linked : ∀ p, w.seat? e = some p → ∃ link, w.links.get? p.link = some link)
    (h : w.Listens e) : b.2.Listens e := by
  refine h.step (ho.grows tidy) (fun l hl => hl.outset ho tidy) fun p hp listed => ?_
  exact (listed_of_outset ho (linked p hp) listed).imp_right .inr

theorem Listening.outset {a : Act} {b : Option TaskId × World} (ho : Outset w a b) (tidy : w.Tidy)
    (h : w.Listening) : b.2.Listening := by
  refine ⟨fun e q hq => ?_, fun e q hq owned => ?_, fun e q hq => ?_, fun j hj => ?_,
    fun e he => ?_⟩
  · rcases seat_of_outset ho hq with ⟨p, handles, hp, rfl, -⟩ | ⟨fits, -⟩
    · have fits := h.seats e p hp
      cases e <;> exact fits
    · exact fits
  · rcases seat_of_outset ho hq with ⟨p, handles, hp, rfl, before⟩ | ⟨-, -, alive, -⟩
    · exact h.owned e p hp (before owned)
    · exact alive
  · rcases seat_of_outset ho hq with ⟨p, handles, hp, rfl, -⟩ | ⟨-, -, -, -, linked⟩
    · obtain ⟨link, hl⟩ := h.linked e p hp
      obtain ⟨link', hl', -⟩ := link_of_outset ho tidy hl
      exact ⟨link', hl'⟩
    · exact linked
  · rcases ho.leads hj with hj | ⟨o, -, rfl⟩ | ⟨l, m, -, rfl⟩ |
      ⟨i, method, payload, options, -, new⟩
    · exact (h.jobs j hj).grow (ho.grows tidy)
    · trivial
    · trivial
    · rcases new with rfl | ⟨c, m, -, -, -, rfl⟩ <;> trivial
  · obtain ⟨q, hq, registered⟩ := Option.map_eq_some_iff.mp he
    rcases seat_of_outset ho hq with ⟨p, handles, hp, rfl, -⟩ | ⟨-, vacant, -⟩
    · have registered : w.cell? e = some .registered := by rw [cell?, hp, ← registered]; rfl
      exact (h.listens e registered).outset ho tidy (h.linked e)
    · rw [vacant] at registered
      cases registered

theorem Listening.new (h : w.IsNew) : w.Listening := by
  obtain ⟨wall, ids, rfl⟩ := h
  refine ⟨?_, ?_, ?_, ?_, ?_⟩
  · rintro (i | s) p hp <;> cases hp
  · rintro (i | s) p hp <;> cases hp
  · rintro (i | s) p hp <;> cases hp
  · intro j hx
    obtain ⟨k, x, hk, -⟩ := hx
    cases hk
  · rintro (i | s) he <;> cases he

theorem Listening.kept : Kept (fun _ _ => True) fun a => a.2.Listening :=
  ⟨fun tidy ho _ h => h.outset ho tidy, fun tidy hm h => h.move hm tidy⟩

end World

end Switchboard
