import Switchboard.Proofs.Listening

/-! # Filters as sets of addresses

A filter stands for the concrete addresses that it admits. It admits another filter
exactly if it admits every concrete address that the other one admits, so filters are
ordered by inclusion. The direction that takes an argument goes from the sets to the
filters: wherever two filters disagree in a component, some concrete address is told
apart by this component alone. Main statement: `filters_ordered_by_inclusion`.
-/

namespace Switchboard

/-- A component of a filter admits a value: it is the wildcard, or the value itself. -/
def Admits (wildcard f c : α) : Prop := f = wildcard ∨ f = c

/-- The component itself, but for a wildcard another value. -/
def standIn [DecidableEq α] (wildcard p g : α) : α := if g = wildcard then p else g

theorem standIn_ne [DecidableEq α] {wildcard p : α} (hp : p ≠ wildcard) (g : α) :
    standIn wildcard p g ≠ wildcard := by
  unfold standIn
  split <;> assumption

theorem admits_standIn [DecidableEq α] (wildcard p g : α) :
    Admits wildcard g (standIn wildcard p g) := by
  unfold standIn
  split
  · rename_i wild
    exact .inl wild
  · exact .inr rfl

namespace Admits

variable {wildcard f g c : α}

theorem trans (h : Admits wildcard f g) (h' : Admits wildcard g c) : Admits wildcard f c := by
  rcases h with rfl | rfl
  · exact .inl rfl
  · exact h'

theorem antisymm (h : Admits wildcard f g) (h' : Admits wildcard g f) : f = g := by
  rcases h with rfl | rfl
  · exact (h'.elim id id).symm
  · rfl

/-- Where two values are concrete, a component that admits whatever concrete value another one
admits does admit this one. -/
theorem of_subset {p q : α} (hp : p ≠ wildcard) (hq : q ≠ wildcard) (two : p ≠ q)
    (subset : ∀ c, c ≠ wildcard → Admits wildcard g c → Admits wildcard f c) :
    Admits wildcard f g := by
  by_cases wild : g = wildcard
  · -- no value but the wildcard admits two different ones
    rcases subset p hp (.inl wild) with wild | fp
    · exact .inl wild
    · rcases subset q hq (.inl wild) with wild | fq
      · exact .inl wild
      · exact absurd (fp.symm.trans fq) two
  · exact subset g wild (.inr rfl)

end Admits

/-! ## Four components -/

namespace Address

variable {f g h a : Address}

theorem admits_iff : f.admits a = true ↔
    Admits anyAuthority f.authority a.authority ∧ Admits anyEntityId f.entityId a.entityId ∧
    Admits anyMajorVersion f.majorVersion a.majorVersion ∧
    Admits anyResource f.resourceId a.resourceId := by
  simp [admits, Admits, and_assoc]

theorem concrete_iff : a.hasWildcard = false ↔
    a.authority ≠ anyAuthority ∧ a.entityId ≠ anyEntityId ∧ a.majorVersion ≠ anyMajorVersion ∧
    a.resourceId ≠ anyResource := by
  simp [hasWildcard, and_assoc]

theorem admits_trans (fg : f.admits g = true) (gh : g.admits h = true) : f.admits h = true := by
  obtain ⟨authority, entityId, majorVersion, resourceId⟩ := admits_iff.mp fg
  obtain ⟨authority', entityId', majorVersion', resourceId'⟩ := admits_iff.mp gh
  exact admits_iff.mpr ⟨authority.trans authority', entityId.trans entityId',
    majorVersion.trans majorVersion', resourceId.trans resourceId'⟩

theorem admits_antisymm (fg : f.admits g = true) (gf : g.admits f = true) : f = g := by
  obtain ⟨authority, entityId, majorVersion, resourceId⟩ := admits_iff.mp fg
  obtain ⟨authority', entityId', majorVersion', resourceId'⟩ := admits_iff.mp gf
  cases f
  cases g
  simp only [mk.injEq]
  exact ⟨authority.antisymm authority', entityId.antisymm entityId',
    majorVersion.antisymm majorVersion', resourceId.antisymm resourceId'⟩

/-- A filter without wildcard admits itself and nothing else. -/
theorem admits_iff_eq (concrete : f.hasWildcard = false) : f.admits a = true ↔ a = f := by
  refine ⟨fun admitted => ?_, fun same => same ▸ admits_self f⟩
  obtain ⟨authority, entityId, majorVersion, resourceId⟩ := concrete_iff.mp concrete
  obtain ⟨authority', entityId', majorVersion', resourceId'⟩ := admits_iff.mp admitted
  cases f
  cases a
  simp only [mk.injEq]
  exact ⟨(authority'.resolve_left authority).symm, (entityId'.resolve_left entityId).symm,
    (majorVersion'.resolve_left majorVersion).symm, (resourceId'.resolve_left resourceId).symm⟩

/-- A concrete address that a filter admits: some value stands for each wildcard. -/
def sample (g : Address) : Address where
  authority := standIn anyAuthority "" g.authority
  entityId := standIn anyEntityId 0 g.entityId
  majorVersion := standIn anyMajorVersion 0 g.majorVersion
  resourceId := standIn anyResource 0 g.resourceId

theorem sample_concrete (g : Address) : g.sample.hasWildcard = false :=
  concrete_iff.mpr ⟨standIn_ne (by decide) _, standIn_ne (by decide) _, standIn_ne (by decide) _,
    standIn_ne (by decide) _⟩

theorem admits_sample (g : Address) : g.admits g.sample = true :=
  admits_iff.mpr ⟨admits_standIn .., admits_standIn .., admits_standIn .., admits_standIn ..⟩

/-- A filter that admits whatever concrete address another one admits does admit this one: the
other filter's sample, changed in one component, tells about this component. -/
theorem admits_of_subset
    (subset : ∀ a, a.hasWildcard = false → g.admits a = true → f.admits a = true) :
    f.admits g = true := by
  obtain ⟨authority, entityId, majorVersion, resourceId⟩ := concrete_iff.mp g.sample_concrete
  obtain ⟨authority', entityId', majorVersion', resourceId'⟩ := admits_iff.mp g.admits_sample
  refine admits_iff.mpr ⟨?_, ?_, ?_, ?_⟩
  · refine .of_subset (p := "") (q := "/") (by decide) (by decide) (by decide) fun c hc gc => ?_
    exact (admits_iff.mp (subset { g.sample with authority := c }
      (concrete_iff.mpr ⟨hc, entityId, majorVersion, resourceId⟩)
      (admits_iff.mpr ⟨gc, entityId', majorVersion', resourceId'⟩))).1
  · refine .of_subset (p := 0) (q := 1) (by decide) (by decide) (by decide) fun c hc gc => ?_
    exact (admits_iff.mp (subset { g.sample with entityId := c }
      (concrete_iff.mpr ⟨authority, hc, majorVersion, resourceId⟩)
      (admits_iff.mpr ⟨authority', gc, majorVersion', resourceId'⟩))).2.1
  · refine .of_subset (p := 0) (q := 1) (by decide) (by decide) (by decide) fun c hc gc => ?_
    exact (admits_iff.mp (subset { g.sample with majorVersion := c }
      (concrete_iff.mpr ⟨authority, entityId, hc, resourceId⟩)
      (admits_iff.mpr ⟨authority', entityId', gc, resourceId'⟩))).2.2.1
  · refine .of_subset (p := 0) (q := 1) (by decide) (by decide) (by decide) fun c hc gc => ?_
    exact (admits_iff.mp (subset { g.sample with resourceId := c }
      (concrete_iff.mpr ⟨authority, entityId, majorVersion, hc⟩)
      (admits_iff.mpr ⟨authority', entityId', majorVersion', gc⟩))).2.2.2

/-- The filter for all resources of an entity admits the entity's resources. -/
theorem admits_of_sameEntity {method entity : Address}
    (h : method.sameEntity entity = true) :
    (entity.atResource anyResource).admits method = true := by
  simp only [sameEntity, Bool.and_eq_true, beq_iff_eq] at h
  obtain ⟨⟨authority, entityId⟩, majorVersion⟩ := h
  simp [admits, atResource, authority, entityId, majorVersion]

theorem admits_iff_sameEntity {entity : Address} (concrete : entity.hasWildcard = false) :
    (entity.atResource anyResource).admits a = true ↔ a.sameEntity entity = true := by
  refine ⟨fun admitted => ?_, admits_of_sameEntity⟩
  obtain ⟨authority, entityId, majorVersion, -⟩ := concrete_iff.mp concrete
  obtain ⟨authority', entityId', majorVersion', -⟩ := admits_iff.mp admitted
  have authority := authority'.resolve_left authority
  have entityId := entityId'.resolve_left entityId
  have majorVersion := majorVersion'.resolve_left majorVersion
  simp_all [sameEntity, atResource]

end Address

open World in
/-- **A filter admits another one if and only if it admits every concrete address that the other
one admits.** So admission is a partial order of filters, with the filter that admits everything
at the top and the concrete addresses, which admit but themselves, at the bottom. The filter that a
server on a concrete entity listens with admits, in every run, the addresses of this entity. -/
theorem filters_ordered_by_inclusion :
    (∀ f g : Address, f.admits g = true ↔
      ∀ a : Address, a.hasWildcard = false → g.admits a = true → f.admits a = true) ∧
    (∀ f : Address, f.admits f = true) ∧
    (∀ f g h : Address, f.admits g = true → g.admits h = true → f.admits h = true) ∧
    (∀ f g : Address, f.admits g = true → g.admits f = true → f = g) ∧
    (∀ f : Address, Address.any.admits f = true) ∧
    (∀ f a : Address, f.hasWildcard = false → (f.admits a = true ↔ a = f)) ∧
    ∀ (w : World) (as : List Act) (s : ServerId) (v : Server), w.IsNew → w.CanRun as →
      (w.after as).servers.get? s = some v → v.seat.entity.hasWildcard = false →
      ∀ a : Address, v.seat.sink.admits a = true ↔ a.sameEntity v.seat.entity = true := by
  refine ⟨fun f g => ⟨fun fg a _ ga => Address.admits_trans fg ga, Address.admits_of_subset⟩,
    Address.admits_self, fun f g h => Address.admits_trans, fun f g => Address.admits_antisymm,
    Address.any_admits, fun f a => Address.admits_iff_eq, ?_⟩
  intro w as s v new run server concrete a
  have listening := (Listening.kept.run run (run.mono fun _ _ _ => trivial) (.new new)
    (.new new)).2
  have fits := listening.seats (.server s) v.seat (by simp [seat?, server])
  rw [show v.seat.sink = v.seat.entity.atResource Address.anyResource from fits]
  exact Address.admits_iff_sameEntity concrete

/-- The filter that a server listens with, among others: it is met by the server's methods but not
by those of another entity, although both of them meet the filter for all authorities. -/
theorem filter_of_server_among_others :
    let w : World := { wall := 0, ids := { issue := fun n => .stamped 1 (BitVec.ofNat 74 n) } }
    let as : List Act := [.command (.addLink ⟨"server", 2, 1, 0⟩), .command (.addServer 0)]
    let v : Server := .onLink 0 ⟨"server", 2, 1, 0⟩
    let wide : Address := ⟨Address.anyAuthority, 2, 1, Address.anyResource⟩
    w.IsNew ∧ w.CanRun as ∧ ((w.after as).servers.get? 0 = some v) ∧
      v.seat.entity.hasWildcard = false ∧ v.seat.sink.admits ⟨"server", 2, 1, 7⟩ = true ∧
      v.seat.sink.admits ⟨"client", 2, 1, 7⟩ = false ∧ v.seat.sink.admits wide = false ∧
      wide.admits v.seat.sink = true ∧ wide.admits ⟨"client", 2, 1, 7⟩ = true := by
  intro w as v wide
  have new : w.IsNew := ⟨0, _, rfl⟩
  have run : w.CanRun as := by decide +kernel
  have server : (w.after as).servers.get? 0 = some v := rfl
  have concrete : v.seat.entity.hasWildcard = false := by decide
  obtain ⟨subset, -, trans, -, -, -, sink⟩ := filters_ordered_by_inclusion
  have admits := sink w as 0 v new run server concrete
  have wider : wide.admits v.seat.sink = true := by decide
  refine ⟨new, run, server, concrete, (admits _).mpr (by decide), ?_, ?_, wider, ?_⟩
  · exact Bool.eq_false_iff.mpr fun h => absurd ((admits _).mp h) (by decide)
  · refine Bool.eq_false_iff.mpr fun h => ?_
    -- the wide filter admits a concrete address that the server's does not
    have both := (subset v.seat.sink wide).mp h ⟨"client", 2, 1, 7⟩ (by decide) (by decide)
    exact absurd ((admits _).mp both) (by decide)
  · decide

end Switchboard
