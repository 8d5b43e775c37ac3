import Mathlib.Data.List.Nodup
import Switchboard.Proofs.Enrolments

/-! # The table of registrations

The hub has one table for all links. A registration is known by its filters and its listener, its
`Registration.key`. Whose it is does not matter when one is registered or unregistered, and nothing
else matters when a link is closed. `World.Rostered` says what such a table is like after any run;
with that, each operation on the hub does to it what its name says. Main statement:
`hub_keeps_its_table`.
-/

namespace Switchboard

namespace Registration

/-- The three by which a registration is known. -/
def key (r : Registration) : Address × Option Address × Listener := (r.source, r.sink, r.listener)

theorem is_iff {r : Registration} {source : Address} {sink : Option Address} {listener : Listener} :
    r.is source sink listener = true ↔ r.key = (source, sink, listener) := by
  simp [is, key, and_assoc]

theorem any_is {rs : List Registration} {source : Address} {sink : Option Address}
    {listener : Listener} : rs.any (·.is source sink listener) = true ↔
      (source, sink, listener) ∈ rs.map key := by
  simp [is_iff]

/-- What is known by other keys stays when a key is taken out. -/
theorem filter_is_of_new {rs : List Registration} {source : Address} {sink : Option Address}
    {listener : Listener} (new : (source, sink, listener) ∉ rs.map key) :
    (rs.filter fun r => !r.is source sink listener) = rs := by
  refine List.filter_eq_self.mpr fun r hr => ?_
  rw [Bool.not_eq_true', ← Bool.not_eq_true, is_iff]
  exact fun same => new (same ▸ List.mem_map_of_mem hr)

/-- Where no key comes twice, to take out a key is to take out one registration. -/
theorem filter_is_of_nodup {before later : List Registration} {r : Registration}
    (nodup : ((before ++ r :: later).map key).Nodup) :
    ((before ++ r :: later).filter fun g => !g.is r.source r.sink r.listener) =
      before ++ later := by
  have own : r.is r.source r.sink r.listener = true := is_iff.mpr rfl
  rw [List.map_append, List.map_cons, List.nodup_middle, List.nodup_cons, ← List.map_append]
    at nodup
  have rest := filter_is_of_new nodup.1
  rw [List.filter_append] at rest ⊢
  rw [List.filter_cons, own]
  exact rest

end Registration

open Registration

namespace Hub

variable {h : Hub} {source : Address} {sink : Option Address} {listener : Listener}

theorem register_of_listed {owner : LinkId}
    (listed : (source, sink, listener) ∈ h.registrations.map key) :
    h.register ⟨owner, source, sink, listener⟩ =
      .error ⟨.alreadyExists, "listener already registered for these filters"⟩ :=
  if_pos (any_is.mpr listed)

theorem register_of_new {owner : LinkId}
    (new : (source, sink, listener) ∉ h.registrations.map key) :
    h.register ⟨owner, source, sink, listener⟩ =
      .ok ⟨h.registrations ++ [⟨owner, source, sink, listener⟩]⟩ :=
  if_neg fun twice => new (any_is.mp twice)

theorem unregister_of_new (new : (source, sink, listener) ∉ h.registrations.map key) :
    h.unregister source sink listener = .error ⟨.notFound, "no such listener registration"⟩ :=
  if_neg fun listed => new (any_is.mp listed)

theorem unregister_of_nodup {before later : List Registration} {r : Registration}
    (table : h.registrations = before ++ r :: later) (nodup : (h.registrations.map key).Nodup) :
    h.unregister r.source r.sink r.listener = .ok ⟨before ++ later⟩ := by
  have listed : h.registrations.any (·.is r.source r.sink r.listener) = true :=
    any_is.mpr (List.mem_map.mpr ⟨r, by simp [table], rfl⟩)
  rw [unregister, if_pos listed, table, filter_is_of_nodup (table ▸ nodup)]

/-- What was registered last and is unregistered again leaves the table as it was. -/
theorem unregister_of_latest {owner : LinkId}
    (new : (source, sink, listener) ∉ h.registrations.map key) :
    Hub.unregister ⟨h.registrations ++ [⟨owner, source, sink, listener⟩]⟩ source sink listener =
      .ok h := by
  have own : is ⟨owner, source, sink, listener⟩ source sink listener = true := is_iff.mpr rfl
  rw [unregister, if_pos (by simp [own]), List.filter_append, filter_is_of_new new]
  simp [own]

end Hub

namespace World

variable {w u v : World} {l : LinkId} {link : Link} {source : Address} {sink : Option Address}
  {listener : Listener}

theorem sendNow_net (w : World) (t : TaskId) (l : LinkId) (m : Message) (after : AfterSend) :
    (w.sendNow t l m after).hub = w.hub ∧ (w.sendNow t l m after).links = w.links := by
  unfold sendNow
  split <;> cases after <;> simp [afterSend]

theorem send_net (w : World) (t : TaskId) (l : LinkId) (m : Message) (after : AfterSend) :
    (w.send t l m after).hub = w.hub ∧ (w.send t l m after).links = w.links := by
  unfold send
  dsimp only
  split
  · exact sendNow_net ..
  · simp

theorem afterRegister_net (w : World) (t : TaskId) (after : AfterRegister)
    (result : Except Status Unit) : (w.afterRegister t after result).hub = w.hub ∧
      (w.afterRegister t after result).links = w.links := by
  have used : ∀ (x : World) (u : Use),
      (x.useListener t u result).hub = x.hub ∧ (x.useListener t u result).links = x.links := by
    intro x u
    unfold useListener
    split
    · split
      · exact ⟨rfl, rfl⟩
      · exact send_net ..
    · simp
    · simp
    · simp
  cases after with
  | use u => simp [afterRegister, used]
  | report r => simp [afterRegister]

theorem afterUnregister_net (w : World) (t : TaskId) (after : AfterUnregister)
    (result : Except Status Unit) : (w.afterUnregister t after result).hub = w.hub ∧
      (w.afterUnregister t after result).links = w.links := by
  cases after <;> simp [afterUnregister]

/-! ## Registering and unregistering -/

/-- To register a listener through a link gives this result, and leaves this table. -/
def Enlists (u : World) (t : TaskId) (l : LinkId) (source : Address) (sink : Option Address)
    (listener : Listener) (after : AfterRegister) (result : Except Status Unit)
    (table : List Registration) : Prop :=
  u.registerNow t l source sink listener after =
      { u with hub := ⟨table⟩ }.afterRegister t after result ∧
    (u.registerNow t l source sink listener after).hub.registrations = table

def Delists (u : World) (t : TaskId) (l : LinkId) (source : Address) (sink : Option Address)
    (listener : Listener) (after : AfterUnregister) (result : Except Status Unit)
    (table : List Registration) : Prop :=
  u.unregisterNow t l source sink listener after =
      { u with hub := ⟨table⟩ }.afterUnregister t after result ∧
    (u.unregisterNow t l source sink listener after).hub.registrations = table

/-- What comes of registering a listener through a link: the link may be made to fail; a closed link
is unavailable; what is in the table already, whoever registered it, exists already; and anything
else is added at the end of the table. -/
structure Enlisting (u : World) (t : TaskId) (l : LinkId) (link : Link) (source : Address)
    (sink : Option Address) (listener : Listener) (after : AfterRegister) : Prop where
  failing : ∀ s, link.onRegister.refusal = some s →
    u.Enlists t l source sink listener after (.error s) u.hub.registrations
  closed : link.onRegister.refusal = none → link.closed = true →
    u.Enlists t l source sink listener after (.error ⟨.unavailable, "transport is closed"⟩)
      u.hub.registrations
  listed : link.onRegister.refusal = none → link.closed = false →
    (source, sink, listener) ∈ u.hub.registrations.map key →
    u.Enlists t l source sink listener after
      (.error ⟨.alreadyExists, "listener already registered for these filters"⟩)
      u.hub.registrations
  entered : link.onRegister.refusal = none → link.closed = false →
    (source, sink, listener) ∉ u.hub.registrations.map key →
    u.Enlists t l source sink listener after (.ok ())
      (u.hub.registrations ++ [⟨l, source, sink, listener⟩])

/-- What comes of unregistering a listener through a link, be it closed or not: the link may be made
to fail; what is not in the table is not found; and what is there, whoever registered it, is taken
out from between the others. -/
structure Delisting (u : World) (t : TaskId) (l : LinkId) (link : Link) (source : Address)
    (sink : Option Address) (listener : Listener) (after : AfterUnregister) : Prop where
  failing : ∀ s, link.onUnregister.refusal = some s →
    u.Delists t l source sink listener after (.error s) u.hub.registrations
  missing : link.onUnregister.refusal = none →
    (source, sink, listener) ∉ u.hub.registrations.map key →
    u.Delists t l source sink listener after
      (.error ⟨.notFound, "no such listener registration"⟩) u.hub.registrations
  taken : link.onUnregister.refusal = none →
    (source, sink, listener) ∈ u.hub.registrations.map key →
    ∃ before r later, u.hub.registrations = before ++ r :: later ∧
      r.key = (source, sink, listener) ∧
      u.Delists t l source sink listener after (.ok ()) (before ++ later)

theorem enlists_of_ok {t : TaskId} {after : AfterRegister} (hub : Hub)
    (h : u.registration ⟨l, source, sink, listener⟩ = .ok hub) :
    u.Enlists t l source sink listener after (.ok ()) hub.registrations :=
  ⟨registerNow_of_ok h, by rw [registerNow_of_ok h, (afterRegister_net ..).1]⟩

theorem enlists_of_error {t : TaskId} {after : AfterRegister} {s : Status}
    (h : u.registration ⟨l, source, sink, listener⟩ = .error s) :
    u.Enlists t l source sink listener after (.error s) u.hub.registrations :=
  ⟨registerNow_of_error h, by rw [registerNow_of_error h, (afterRegister_net ..).1]⟩

theorem delists_of_ok {t : TaskId} {after : AfterUnregister} (hub : Hub)
    (h : u.unregistration l source sink listener = .ok hub) :
    u.Delists t l source sink listener after (.ok ()) hub.registrations :=
  ⟨unregisterNow_of_ok h, by rw [unregisterNow_of_ok h, (afterUnregister_net ..).1]⟩

theorem delists_of_error {t : TaskId} {after : AfterUnregister} {s : Status}
    (h : u.unregistration l source sink listener = .error s) :
    u.Delists t l source sink listener after (.error s) u.hub.registrations :=
  ⟨unregisterNow_of_error h, by rw [unregisterNow_of_error h, (afterUnregister_net ..).1]⟩

theorem registration_of_open {owner : LinkId} (linked : u.links.get? owner = some link)
    (able : link.onRegister.refusal = none) (opened : link.closed = false) :
    u.registration ⟨owner, source, sink, listener⟩ =
      u.hub.register ⟨owner, source, sink, listener⟩ := by
  simp [registration, refusal?, linked, Link.refusal?, Link.fault, able, opened]

theorem unregistration_of_able (linked : u.links.get? l = some link)
    (able : link.onUnregister.refusal = none) :
    u.unregistration l source sink listener = u.hub.unregister source sink listener := by
  simp [unregistration, refusal?, linked, Link.refusal?, Link.fault, able]

theorem enlisting (linked : u.links.get? l = some link) (t : TaskId) (source : Address)
    (sink : Option Address) (listener : Listener) (after : AfterRegister) :
    u.Enlisting t l link source sink listener after := by
  constructor
  case failing =>
    intro s fails
    refine enlists_of_error ?_
    simp [registration, refusal?, linked, Link.refusal?, Link.fault, fails]
  case closed =>
    intro able closed
    refine enlists_of_error ?_
    simp [registration, refusal?, linked, Link.refusal?, Link.fault, able, closed,
      Link.closedStatus]
  case listed =>
    intro able opened listed
    refine enlists_of_error ?_
    rw [registration_of_open linked able opened, Hub.register_of_listed listed]
  case entered =>
    intro able opened new
    refine enlists_of_ok ⟨_⟩ ?_
    rw [registration_of_open linked able opened, Hub.register_of_new new]

theorem delisting (linked : u.links.get? l = some link)
    (nodup : (u.hub.registrations.map key).Nodup) (t : TaskId) (source : Address)
    (sink : Option Address) (listener : Listener) (after : AfterUnregister) :
    u.Delisting t l link source sink listener after := by
  constructor
  case failing =>
    intro s fails
    refine delists_of_error ?_
    simp [unregistration, refusal?, linked, Link.refusal?, Link.fault, fails]
  case missing =>
    intro able new
    refine delists_of_error ?_
    rw [unregistration_of_able linked able, Hub.unregister_of_new new]
  case taken =>
    intro able listed
    obtain ⟨r, hr, same⟩ := List.mem_map.mp listed
    obtain ⟨before, later, table⟩ := List.append_of_mem hr
    cases same
    refine ⟨before, r, later, table, rfl, delists_of_ok ⟨_⟩ ?_⟩
    rw [unregistration_of_able linked able, Hub.unregister_of_nodup table nodup]

/-- What is registered and then unregistered leaves the table as it was. -/
theorem unregisterNow_registerNow (linked : u.links.get? l = some link)
    (able : link.onRegister.refusal = none ∧ link.onUnregister.refusal = none)
    (opened : link.closed = false) (new : (source, sink, listener) ∉ u.hub.registrations.map key)
    (t t' : TaskId) (after : AfterRegister) (after' : AfterUnregister) :
    ((u.registerNow t l source sink listener after).unregisterNow t' l source sink listener
      after').hub = u.hub := by
  obtain ⟨made, -⟩ := (enlisting linked t source sink listener after).entered able.1 opened new
  obtain ⟨hub, links⟩ := afterRegister_net
    { u with hub := ⟨u.hub.registrations ++ [⟨l, source, sink, listener⟩]⟩ } t after (.ok ())
  rw [← made] at hub links
  have back : (u.registerNow t l source sink listener after).Delists t' l source sink listener
      after' (.ok ()) u.hub.registrations := by
    refine delists_of_ok u.hub ?_
    rw [unregistration_of_able (links ▸ linked) able.2, hub, Hub.unregister_of_latest new]
  exact congrArg Hub.mk back.2

/-! ## What the table is like -/

/-- No two registrations have the same key, and everyone who has one has an open link. -/
structure Rostered (w : World) : Prop where
  keys : (w.hub.registrations.map key).Nodup
  owners : ∀ r ∈ w.hub.registrations,
    ∃ link, w.links.get? r.owner = some link ∧ link.closed = false

theorem Rostered.new (h : w.IsNew) : w.Rostered := by
  obtain ⟨wall, ids, rfl⟩ := h
  exact ⟨List.nodup_nil, by simp⟩

/-- Only an open link registers, and only under a key that is not in the table. -/
theorem owner_of_registration {r : Registration} {hub : Hub} (h : w.registration r = .ok hub) :
    (∃ link, w.links.get? r.owner = some link ∧ link.closed = false) ∧
      r.key ∉ w.hub.registrations.map key := by
  obtain ⟨opened, -⟩ := open_of_registration h
  unfold registration at h
  split at h
  · cases h
  · rename_i accepts
    refine ⟨?_, fun listed => ?_⟩
    · cases linked : w.links.get? r.owner with
      | none => simp [refusal?, linked] at accepts
      | some link =>
        refine ⟨link, rfl, Bool.not_eq_true _ ▸ fun closed => opened ⟨link, linked, closed⟩⟩
    · rw [Hub.register_of_listed listed] at h
      cases h

theorem Rostered.move {a b : Option TaskId × World} (hm : Move a b) (h : a.2.Rostered) :
    b.2.Rostered := by
  have links := hm.links
  rcases hm.roster with fewer | ⟨w, t, r, after, hub, rfl, registration, hb, -⟩
  · exact ⟨h.keys.sublist (fewer.map key), fun r hr => links ▸ h.owners r (fewer.subset hr)⟩
  · obtain ⟨owner, new⟩ := owner_of_registration registration
    have table : b.2.hub.registrations = w.hub.registrations ++ [r] := by
      rw [hb, hub_of_registration registration]
    refine ⟨?_, fun g hg => ?_⟩
    · rw [table, List.map_append, List.map_singleton, List.nodup_append_comm]
      exact List.nodup_cons.mpr ⟨new, h.keys⟩
    · rw [links]
      rw [table, List.mem_append, List.mem_singleton] at hg
      rcases hg with old | rfl
      · exact h.owners g old
      · exact owner

theorem Rostered.outset {a : Act} {b : Option TaskId × World} (ho : Outset w a b) (tidy : w.Tidy)
    (h : w.Rostered) : b.2.Rostered := by
  refine ⟨h.keys.sublist (ho.roster.map key), fun r hr => ?_⟩
  obtain ⟨link, linked, opened⟩ := h.owners r (ho.roster.subset hr)
  obtain ⟨link', linked', -⟩ := link_of_outset ho tidy linked
  refine ⟨link', linked', Bool.not_eq_true _ ▸ fun closed => ?_⟩
  rcases ho.closed ⟨link', linked', closed⟩ with ⟨before, linked'', shut⟩ | gone
  · rw [linked] at linked''
    cases linked''
    rw [opened] at shut
    cases shut
  · exact gone r hr rfl

theorem IsClosed.kept (l : LinkId) : Kept (fun _ _ => True) fun a => a.2.IsClosed l :=
  ⟨fun tidy ho _ h => h.outset ho tidy, fun _ hm h => by rwa [IsClosed, hm.links]⟩

/-- **The table is kept** through every run. -/
theorem Rostered.kept : Kept (fun _ _ => True) fun a => a.2.Rostered :=
  ⟨fun tidy ho _ h => h.outset ho tidy, fun _ hm h => h.move hm⟩

end World

/-- **The hub's table is a set of registrations with their owners.** After any run no two
registrations in it have the same filters and listener, whoever owns them, and no owner is closed;
nor does a closed link ever own one again. In a world with this hub and these links, which may be in
the middle of a turn: a new link owns nothing and changes nothing, and neither does sending; closing
a link removes the registrations that it owns and leaves the others in their order; registering
through a link adds one registration at the end or fails, unregistering removes one from between the
others or fails, for the reasons given with `World.Enlisting` and `World.Delisting`, and a failure
leaves the table as it is; and what is registered and then unregistered leaves the table as it
was. -/
theorem hub_keeps_its_table {w : World} {as : List Act} (new : w.IsNew) (run : w.CanRun as) :
    let v := w.after as
    (v.hub.registrations.map Registration.key).Nodup ∧
    (∀ r ∈ v.hub.registrations,
      ∃ link, v.links.get? r.owner = some link ∧ link.closed = false) ∧
    (∀ l, v.IsClosed l → ∀ bs, v.CanRun bs → ∀ r ∈ (v.after bs).hub.registrations, r.owner ≠ l) ∧
    ∀ u : World, u.hub = v.hub → u.links = v.links →
      (∀ address, (u.addLink address).2.hub = u.hub ∧
        ∀ r ∈ u.hub.registrations, r.owner ≠ (u.addLink address).1) ∧
      (∀ t l m after, (u.sendNow t l m after).hub = u.hub) ∧
      ∀ l link, u.links.get? l = some link →
        ((u.closeLink l).IsClosed l ∧ (u.closeLink l).hub.registrations =
          u.hub.registrations.filter fun r => r.owner ≠ l) ∧
        ∀ t source sink listener,
          (∀ after, u.Enlisting t l link source sink listener after) ∧
          (∀ after, u.Delisting t l link source sink listener after) ∧
          (link.onRegister.refusal = none ∧ link.onUnregister.refusal = none →
            link.closed = false →
            (source, sink, listener) ∉ u.hub.registrations.map Registration.key →
            ∀ t' after after', ((u.registerNow t l source sink listener after).unregisterNow t' l
              source sink listener after').hub = u.hub) := by
  intro v
  have h := World.Rostered.kept.run run (run.mono fun _ _ _ => trivial) (.new new) (.new new)
  obtain ⟨tidy, rostered⟩ : v.Tidy ∧ v.Rostered := h
  refine ⟨rostered.keys, rostered.owners, fun l closed bs possible r listed own => ?_,
    fun u hub links => ⟨fun address => ⟨rfl, fun r listed own => ?_⟩,
      fun t l m after => (World.sendNow_net u t l m after).1, fun l link linked => ⟨⟨?_, ?_⟩,
        fun t source sink listener => ⟨World.enlisting linked t source sink listener,
          World.delisting linked (hub ▸ rostered.keys) t source sink listener,
          fun able opened fresh t' after after' =>
            World.unregisterNow_registerNow linked able opened fresh t t' after after'⟩⟩⟩⟩
  · have known := possible.mono fun _ _ _ => trivial
    obtain ⟨link, linked, opened⟩ :=
      (World.Rostered.kept.run possible known tidy rostered).2.owners r listed
    obtain ⟨link', linked', shut⟩ := ((World.IsClosed.kept l).run possible known tidy closed).2
    rw [own] at linked
    cases linked.symm.trans linked'
    rw [opened] at shut
    cases shut
  · obtain ⟨link, linked, -⟩ := rostered.owners r (hub ▸ listed)
    have next : (u.addLink address).1 = v.links.next := congrArg Table.next links
    rw [own, next, tidy.links.next] at linked
    cases linked
  · exact ⟨{ link with closed := true }, by simp [World.closeLink, linked], rfl⟩
  · simp only [World.closeLink, Hub.withdraw]
    exact List.filter_congr fun r _ => by simp [bne, beq_eq_decide]

/-- Whoever owns a registration, another link cannot make it again, and can take it out. -/
theorem table_of_two_links :
    let ids : MessageId.Source := { issue := fun n => .stamped 1 (BitVec.ofNat 74 n) }
    let w : World := { wall := 0, ids := ids }
    let as : List Act := [.command (.addLink ⟨"client", 1, 1, 0⟩),
      .command (.addLink ⟨"server", 2, 1, 0⟩),
      .command (.enter (.register 0 Address.any none 7 .plain)),
      .command (.enter (.register 1 Address.any none 8 .plain))]
    let v := w.after as
    w.IsNew ∧ w.CanRun as ∧
      v.hub.registrations =
        [⟨0, Address.any, none, .plain 7⟩, ⟨1, Address.any, none, .plain 8⟩] ∧
      v.Enlists 9 1 Address.any none (.plain 7) (.report .plain)
        (.error ⟨.alreadyExists, "listener already registered for these filters"⟩)
        v.hub.registrations ∧
      (v.unregisterNow 9 1 Address.any none (.plain 7) (.report .plain)).hub.registrations =
        [⟨1, Address.any, none, .plain 8⟩] ∧
      (v.closeLink 1).hub.registrations = [⟨0, Address.any, none, .plain 7⟩] := by
  intro ids w as v
  have new : w.IsNew := ⟨0, ids, rfl⟩
  have run : w.CanRun as := by decide +kernel
  have table : v.hub.registrations =
      [⟨0, Address.any, none, .plain 7⟩, ⟨1, Address.any, none, .plain 8⟩] := by decide +kernel
  have linked : v.links.get? 1 = some { address := ⟨"server", 2, 1, 0⟩ } := by decide +kernel
  obtain ⟨-, -, -, operations⟩ := hub_keeps_its_table new run
  obtain ⟨-, -, through⟩ := operations v rfl rfl
  obtain ⟨⟨-, closing⟩, listeners⟩ := through 1 _ linked
  obtain ⟨enlisting, delisting, -⟩ := listeners 9 Address.any none (.plain 7)
  have listed : (Address.any, none, .plain 7) ∈ v.hub.registrations.map Registration.key := by
    rw [table]
    exact List.mem_cons_self
  refine ⟨new, run, table, (enlisting (.report .plain)).listed rfl rfl listed, ?_, ?_⟩
  · obtain ⟨before, r, later, split, own, -, left⟩ := (delisting (.report .plain)).taken rfl listed
    rw [left]
    rw [table] at split
    rcases before with _ | ⟨first, _ | ⟨second, before⟩⟩
    · cases split
      rfl
    · cases split
      cases own
    · simp at split
  · rw [closing, table]
    decide

end Switchboard
