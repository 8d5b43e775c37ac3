import Mathlib.Logic.Function.Basic
import Switchboard.Proofs.Desks

/-! # The registry of a server

A server's handlers are a partial map from addresses. A `Registry` is that map by itself,
with the rules by which it grows and shrinks: `Registry.obey`. Its refusals are those of
the server (`Server.checkVacant_eq`, `Server.unserve_eq`), and `Desk.Does` says that a
deed makes of a desk what it makes of its registry.
-/

namespace Switchboard

open World

namespace Address

variable {m entity : Address}

def IsMethodOf (m entity : Address) : Prop :=
  (m.authority ≠ "*" ∧ m.entityId ≠ 0xFFFF ∧ m.majorVersion ≠ 0xFF) ∧
    (1 ≤ m.resourceId ∧ m.resourceId ≤ 0x7FFF) ∧
    m.authority = entity.authority ∧ m.entityId = entity.entityId ∧
    m.majorVersion = entity.majorVersion

instance : Decidable (m.IsMethodOf entity) := by
  unfold IsMethodOf
  infer_instance

theorem isMethodOf_iff :
    m.IsMethodOf entity ↔ m.isMethod = true ∧ m.sameEntity entity = true := by
  have methods : m.resourceId ≤ 0x7FFF → m.resourceId ≠ 0xFFFF := by
    rintro le eq
    rw [eq] at le
    exact absurd le (by decide)
  simp only [IsMethodOf, isMethod, hasWildcard, sameEntity, anyAuthority, anyEntityId,
    anyMajorVersion, anyResource]
  grind

/-- What is said of an address that is no method of the entity. -/
def objection (m : Address) : String :=
  if m.isMethod then "method address does not match the transport's source address"
  else m.text ++ " is not an RPC method address"

end Address

/-- The handlers by their methods; whether orders to add some are still taken, and whether the
listener is registered through which requests come in. -/
structure Registry where
  serves : Address → Option Handler
  closed : Bool
  listening : Bool

/-- An order, how the attempts ended to register the listener for its sake, and its result. -/
structure Deed where
  order : Order
  attempts : List (Except Status Unit)
  result : Except Refusal Unit

def Deed.adds : Deed → Bool
  | ⟨.serve _ _, _, .ok _⟩ => true
  | _ => false

def Deed.removes : Deed → Bool
  | ⟨.unserve _ _, _, .ok _⟩ => true
  | _ => false

namespace Registry

variable {r : Registry} {entity m : Address} {h : Handler} {link : Except Status Unit} {o : Order}

def empty : Registry := ⟨fun _ => none, false, false⟩

/-- What the link said, as the result of an order. -/
def answer (link : Except Status Unit) : Except Refusal Unit :=
  link.mapError fun st => .failure (.transport st)

def put (r : Registry) (m : Address) (h : Option Handler) : Registry :=
  { r with serves := Function.update r.serves m h }

/-- Why the registry of an entity refuses an order, before anybody else is asked. -/
def refusal? (r : Registry) (entity : Address) : Order → Option Failure
  | .serve m _ =>
    if r.closed then some (.unavailable "dispatcher is closed")
    else if ¬m.IsMethodOf entity then some (.invalidArgument m.objection)
    else if (r.serves m).isSome then
      some (.alreadyExists ("a handler is already registered for " ++ m.text))
    else none
  | .unserve m h =>
    if ¬m.IsMethodOf entity then some (.invalidArgument m.objection)
    else if (r.serves m).any h.same then none
    else some (.notFound ("handler is not registered for " ++ m.text))
  | .close => none

/-- What comes of an order. The link is asked to register a listener for the first handler, and to
unregister it in the end. -/
def obey (r : Registry) (entity : Address) (link : Except Status Unit) (o : Order) :
    Deed × Registry :=
  match r.refusal? entity o with
  | some f => (⟨o, [], .error (.failure f)⟩, r)
  | none =>
    match o with
    | .serve m h =>
      if r.listening then (⟨o, [], .ok ()⟩, r.put m (some h))
      else
        (⟨o, [link], answer link⟩,
          if link.isOk then { r.put m (some h) with listening := true } else r)
    | .unserve m _ => (⟨o, [], .ok ()⟩, r.put m none)
    | .close =>
      (⟨o, [], if r.listening && !r.closed then answer link else .ok ()⟩,
        { r with closed := true })

theorem refusal?_serve_eq_none : r.refusal? entity (.serve m h) = none ↔
    r.closed = false ∧ m.IsMethodOf entity ∧ r.serves m = none := by
  rw [refusal?]
  cases r.closed <;> by_cases own : m.IsMethodOf entity <;> cases r.serves m <;> simp [own]

theorem refusal?_unserve_eq_none : r.refusal? entity (.unserve m h) = none ↔
    m.IsMethodOf entity ∧ (r.serves m).any h.same = true := by
  rw [refusal?]
  by_cases own : m.IsMethodOf entity <;> simp [own]

theorem obey_of_refused {f : Failure} (refused : r.refusal? entity o = some f) :
    r.obey entity link o = (⟨o, [], .error (.failure f)⟩, r) := by
  simp only [obey, refused]

/-- Whatever fails leaves the handlers as they are. -/
theorem serves_of_failed {e : Refusal} (failed : (r.obey entity link o).1.result = .error e) :
    (r.obey entity link o).2.serves = r.serves := by
  cases refused : r.refusal? entity o with
  | some f => rw [obey_of_refused refused]
  | none =>
    simp only [obey, refused] at failed ⊢
    cases o with
    | serve m h =>
      cases listening : r.listening <;> cases link <;>
        simp_all [answer, Except.mapError, Except.isOk, Except.toBool]
    | unserve m h => cases failed
    | close => rfl

def asks (r : Registry) (entity : Address) (o : Order) : Bool :=
  (r.refusal? entity o).isNone &&
    match o with
    | .serve _ _ => !r.listening
    | .unserve _ _ => false
    | .close => r.listening && !r.closed

/-- The registry of an entity when the deeds have been done, one after the other. The link said what
it liked each time. -/
inductive After (entity : Address) : List Deed → Registry → Prop
  | nothing : After entity [] empty
  | next {ds : List Deed} {r : Registry} (before : After entity ds r) (link : Except Status Unit)
      (o : Order) : After entity (ds ++ [(r.obey entity link o).1]) (r.obey entity link o).2

end Registry

namespace Server

variable {v : Server} {m : Address} {h : Handler}

def registry (v : Server) : Registry where
  serves := v.handler?
  closed := v.seat.closed
  listening := v.seat.cell == .registered

theorem checkMethod_eq : v.checkMethod m =
    if m.IsMethodOf v.seat.entity then .ok () else .error (.invalidArgument m.objection) := by
  rw [checkMethod, Address.objection]
  simp only [Address.isMethodOf_iff]
  cases m.isMethod <;> cases m.sameEntity v.seat.entity <;> rfl

/-- A server refuses to add a handler where its registry does. -/
theorem checkVacant_eq (h : Handler) : v.checkVacant m =
    match v.registry.refusal? v.seat.entity (.serve m h) with
    | some f => .error f
    | none => .ok () := by
  simp only [checkVacant, checkMethod_eq, Registry.refusal?, registry]
  grind

theorem admitted_of_vacant (v : Server) (h : Handler) (vacant : v.checkVacant m = .ok ()) :
    v.registry.refusal? v.seat.entity (.serve m h) = none := by
  rw [checkVacant_eq h] at vacant
  split at vacant
  · cases vacant
  · assumption

theorem refused_of_vacant (v : Server) (h : Handler) {f : Failure}
    (refused : v.checkVacant m = .error f) :
    v.registry.refusal? v.seat.entity (.serve m h) = some f := by
  rw [checkVacant_eq h] at refused
  split at refused
  · cases refused
    assumption
  · cases refused

theorem unserve_eq : v.unserve m h =
    match v.registry.refusal? v.seat.entity (.unserve m h) with
    | some f => .error f
    | none => .ok (v.removeHandler m) := by
  simp only [unserve, checkMethod_eq, Registry.refusal?, registry]
  grind

end Server

/-! ## What an order does to a desk -/

namespace Desk

variable {d d' : Desk} {o : Order} {m : Address} {h : Handler}

def registry (d : Desk) : Registry where
  serves m := d.handlers.lookup m
  closed := d.closed
  listening := d.cell == .registered

def add (d : Desk) (m : Address) (h : Handler) : Desk :=
  { d with handlers := (m, h) :: d.handlers }

theorem registry_add : (d.add m h).registry = d.registry.put m (some h) := by
  simp only [registry, add, Registry.put, Registry.mk.injEq, and_self, and_true]
  funext m'
  rw [List.lookup_cons, Function.update_apply]
  by_cases same : m' = m
  · simp [same]
  · simp [same, show (m' == m) = false by simpa using same]

def Settled (d : Desk) : Prop := ∀ ws, d.cell ≠ .attempting ws

/-- The second desk is what the deed makes of the first: what it makes of its registry. -/
structure Does (d : Desk) (x : Deed) (d' : Desk) : Prop where
  settled : d'.Settled
  entity : d'.entity = d.entity
  attempts : d'.attempts = d.attempts ++ x.attempts
  count : d'.handlers.length + [x].countP Deed.removes = d.handlers.length + [x].countP Deed.adds
  obeys : ∃ link, d.registry.obey d.entity link x.order = (x, d'.registry)

theorem Does.refused {f : Failure} (settled : d.Settled)
    (refused : d.registry.refusal? d.entity o = some f) :
    d.Does ⟨o, [], .error (.failure f)⟩ d := by
  refine ⟨settled, rfl, by simp, ?_, .ok (), Registry.obey_of_refused refused⟩
  cases o <;> rfl

section Serve

variable (vacant : d.registry.refusal? d.entity (.serve m h) = none)
include vacant

theorem Does.found (registered : d.cell = .registered) :
    d.Does ⟨.serve m h, [], .ok ()⟩ (d.add m h) := by
  have listening : d.registry.listening = true := by simp [registry, registered]
  refine ⟨by simp [Settled, add, registered], rfl, by simp [add], rfl, .ok (), ?_⟩
  simp only [Registry.obey, vacant, listening, registry_add, if_true]

theorem Does.enrolled (deaf : d.cell ≠ .registered) : d.Does ⟨.serve m h, [.ok ()], .ok ()⟩
    { d.add m h with cell := .registered, attempts := d.attempts ++ [.ok ()] } := by
  have listening : d.registry.listening = false := by simpa [registry] using deaf
  refine ⟨by simp [Settled], rfl, rfl, rfl, .ok (), ?_⟩
  have registry : Desk.registry { d.add m h with
      cell := .registered, attempts := d.attempts ++ [.ok ()] } =
        { (d.add m h).registry with listening := true } := rfl
  rw [registry, registry_add]
  simp [Registry.obey, vacant, listening, Except.isOk, Except.toBool, Registry.answer,
    Except.mapError]

theorem Does.failed (cell : d.cell = .vacant) (st : Status) :
    d.Does ⟨.serve m h, [.error st], .error (.failure (.transport st))⟩
      { d with attempts := d.attempts ++ [.error st] } := by
  have listening : d.registry.listening = false := by simp [registry, cell]
  have registry : Desk.registry { d with attempts := d.attempts ++ [.error st] } = d.registry := rfl
  refine ⟨by simp [Settled, cell], rfl, rfl, rfl, .error st, ?_⟩
  simp [Registry.obey, vacant, listening, registry, Except.isOk, Except.toBool, Registry.answer,
    Except.mapError]

end Serve

theorem Does.closedBefore (settled : d.Settled) (closed : d.closed = true) :
    d.Does ⟨.close, [], .ok ()⟩ d := by
  refine ⟨settled, rfl, by simp, rfl, .ok (), ?_⟩
  simp [Registry.obey, Registry.refusal?, registry, closed]

theorem Does.deaf (settled : d.Settled) (unregistered : d.cell ≠ .registered) :
    d.Does ⟨.close, [], .ok ()⟩ { d with closed := true } := by
  refine ⟨settled, rfl, by simp, rfl, .ok (), ?_⟩
  simp [Registry.obey, Registry.refusal?, registry, unregistered]

theorem Does.left (opened : d.closed = false) (registered : d.cell = .registered)
    (link : Except Status Unit) :
    d.Does ⟨.close, [], Registry.answer link⟩ { d with closed := true } := by
  refine ⟨by simp [Settled, registered], rfl, by simp, rfl, link, ?_⟩
  simp [Registry.obey, Registry.refusal?, registry, registered, opened]

/-- No method has two handlers, and each is a method of the server's entity. -/
structure Sound (d : Desk) : Prop where
  nodup : (d.handlers.map (·.1)).Nodup
  methods : ∀ e ∈ d.handlers, e.1.IsMethodOf d.entity

theorem lookup_eq_none {hs : List (Address × Handler)} :
    hs.lookup m = none ↔ m ∉ hs.map (·.1) := by
  rw [List.lookup_eq_none_iff]
  simp only [bne_iff_ne, List.mem_map, not_exists, not_and]
  exact forall₂_congr fun e mem => ne_comm

theorem Sound.of_added (sound : d.Sound)
    (vacant : d.registry.refusal? d.entity (.serve m h) = none) : (d.add m h).Sound := by
  obtain ⟨-, own, free⟩ := Registry.refusal?_serve_eq_none.mp vacant
  refine ⟨List.nodup_cons.mpr ⟨lookup_eq_none.mp free, sound.nodup⟩, fun e mem => ?_⟩
  rcases List.mem_cons.mp mem with rfl | old
  · exact own
  · exact sound.methods e old

theorem Sound.of_sublist (sound : d.Sound) (entity : d'.entity = d.entity)
    (fewer : d'.handlers.Sublist d.handlers) : d'.Sound :=
  ⟨sound.nodup.sublist (fewer.map _), fun e mem => entity ▸ sound.methods e (fewer.subset mem)⟩

/-- The desk of a server from which a handler is taken away. -/
theorem Does.unserved {v : Server} {ss : List (Except Status Unit)} (settled : (v.desk ss).Settled)
    (sound : (v.desk ss).Sound)
    (served : (v.desk ss).registry.refusal? v.seat.entity (.unserve m h) = none) :
    (v.desk ss).Does ⟨.unserve m h, [], .ok ()⟩ ((v.removeHandler m).desk ss) := by
  obtain ⟨-, same⟩ := Registry.refusal?_unserve_eq_none.mp served
  have present : m ∈ v.handlers.map (·.1) := by
    by_contra absent
    simp [registry, Server.desk, lookup_eq_none.mpr absent] at same
  have registry : ((v.removeHandler m).desk ss).registry = (v.desk ss).registry.put m none := by
    simp only [Desk.registry, Server.desk, Registry.put, Server.removeHandler, Registry.mk.injEq,
      and_self, and_true]
    funext m'
    rw [Function.update_apply]
    exact v.handler?_removeHandler m m'
  refine ⟨settled, rfl, by simp [Server.desk, Server.removeHandler], ?_, .ok (), ?_⟩
  · have once : v.handlers.countP (fun e => e.1 == m) = 1 := by
      rw [← List.count_eq_one_of_mem sound.nodup present, List.count, List.countP_map]
      rfl
    have split := v.handlers.length_eq_countP_add_countP fun e => e.1 == m
    simp only [once, List.countP_eq_length_filter, decide_not, Bool.decide_eq_true] at split
    simp only [Server.desk, Server.removeHandler, List.countP_singleton, Deed.removes, Deed.adds,
      bne, split]
    exact Nat.add_comm ..
  · rw [registry]
    simp only [Registry.obey, show (v.desk ss).entity = v.seat.entity from rfl, served]

end Desk

/-- The handler that was added last is taken out again and leaves the others. -/
theorem Server.removeSame_of_added {v : Server} {m : Address} {h : Handler}
    {hs : List (Address × Handler)} (added : v.handlers = (m, h) :: hs)
    (new : m ∉ hs.map (·.1)) : (v.removeSame m h).handlers = hs := by
  have found : v.handler? m = some h := by simp [handler?, added]
  have others : hs.filter (fun e => e.1 != m) = hs := by
    refine List.filter_eq_self.mpr fun e mem => bne_iff_ne.mpr ?_
    rintro rfl
    exact new (List.mem_map_of_mem mem)
  simp [removeSame, found, Handler.same, removeHandler, added, others]

end Switchboard
