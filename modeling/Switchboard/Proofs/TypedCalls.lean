import Switchboard.Proofs.AwaitedCalls
import Switchboard.Proofs.WireForms

/-! # Typed calls

A typed function behind a method is reached by bytes: its argument is written by the caller and
read by the handler, its result is written by the handler and read by the caller. Where reading
undoes writing a call gives what the function gives, and bytes that are no argument never reach the
function. Main statement: `typed_call_equals_function`.
-/

namespace Switchboard

open World Json

/-- How the values of a type are written as JSON and read again. Each of them can be written, and
reading undoes writing. -/
structure Json.Codec (α : Type) where
  shape : Shape α
  write : α → Except Problem Value
  reads : ∀ a, ∃ v, write a = .ok v ∧ shape.ofBytes v.bytes = .ok a

namespace Json.Codec

variable {α : Type}

def ofReads {shape : Shape α} {write : α → Value} (h : shape.Reads write) : Codec α where
  shape := shape
  write a := .ok (write a)
  reads a := ⟨write a, rfl, h.ofText a⟩

/-- The payload that stands for a value is read as the value. -/
theorem encode (c : Codec α) (a : α) :
    ∃ p, Payload.encode (c.write a) = .ok p ∧ c.shape.ofBytes p.data = .ok a := by
  obtain ⟨v, written, read⟩ := c.reads a
  exact ⟨.ofJson v, by rw [written, Payload.encode], read⟩

end Json.Codec

section

variable {α β : Type}

def Handler.typed (key delay : Nat) (asked : Codec α) (told : Codec β)
    (f : α → Except HandlerFailure β) : Handler where
  key := key
  delay := delay
  run := Ending.ofFunction asked.shape told.write f

def Operation.typedCall (i : CallerId) (method : Address) (asked : Codec α) (x : α)
    (options : CallOptions) : Operation :=
  .call i method ((Payload.encode (asked.write x)).map some) options

/-- What a task learns from the outcome that it has waited for, if it takes a payload for a
value. -/
def World.typedResolution? (w : World) (told : Codec β) (t : TaskId) : Option (Except Failure β) :=
  (w.resolution? t).map fun o => o.bind (Payload.decode told.shape)

def World.ServesWith (w : World) (s : ServerId) (method : Address) (h : Handler) : Prop :=
  (w.servers.get? s).bind (·.handler? method) = some h

theorem World.ServesWith.outcome {w : World} {s : ServerId} {method : Address} {h : Handler}
    (serves : w.ServesWith s method h) {v : Server} (server : w.servers.get? s = some v)
    (request : Message) : v.outcome method request = (h.run request).outcome := by
  rw [ServesWith, server, Option.bind_some] at serves
  simp [Server.outcome, serves]

namespace Ending

variable {asked : Codec α} {told : Codec β} {f : α → Except HandlerFailure β} {m : Message} {x : α}

/-- What the function returns is what the payload of the answer is read as. -/
theorem outcome_of_returned (read : asked.shape.ofBytes m.payloadOrEmpty.data = .ok x) {y : β}
    (returns : f x = .ok y) :
    ∃ p, (ofFunction asked.shape told.write f m).outcome = .ok p ∧
      p.decode told.shape = .ok y := by
  obtain ⟨p, written, back⟩ := told.encode y
  refine ⟨p, ?_, ?_⟩
  · simp [ofFunction, read, returns, written, Ending.outcome]
  · simp [Payload.decode, back]

/-- A failure of the function that is not marked as a success is the failure of the call. -/
theorem outcome_of_failed (read : asked.shape.ofBytes m.payloadOrEmpty.data = .ok x)
    {e : HandlerFailure} (fails : f x = .error e) (failure : e.toStatus.code ≠ .ok) :
    (ofFunction asked.shape told.write f m).outcome = .error (.remote e.toStatus) := by
  simp [ofFunction, read, fails, Ending.outcome, failure]

/-- A payload that is no argument ends in the same way whatever the function is. -/
theorem ofFunction_of_malformed {p : Problem}
    (malformed : asked.shape.ofBytes m.payloadOrEmpty.data = .error p) :
    ofFunction asked.shape told.write f m =
      .failed (.status ⟨.invalidArgument, "malformed request payload: " ++ p.text⟩) := by
  simp [ofFunction, malformed]

end Ending

/-! ## Calls that are completed -/

/-- **A typed call equals the function behind it.** The method of a completed call is served by a
typed function. If the call was made with a value, its task learns what the function returns on the
value, or the status that it fails with, unless this is the code of success. And whatever the
payload of a call is, be its format tag as it may, or if there is none: if its bytes are no argument
of the function, then the task is told that the argument is invalid, and nothing depends on the
function. -/
theorem typed_call_equals_function {w : World} {as bs : List Act} {act : Act} {t : TaskId}
    {i : CallerId} {s : ServerId} {method : Address} {payload : Option Payload}
    {options : CallOptions} {accepted : World.Accepted} {key delay : Nat} {asked : Codec α}
    {told : Codec β} {f : α → Except HandlerFailure β}
    (call : CompletedCall w as act bs t i s method payload options accepted)
    (serves : Along (fun v _ => v.ServesWith s method (.typed key delay asked told f))
      ((w.after as).act act) bs) :
    (∀ x, Operation.typedCall i method asked x options = .call i method (.ok payload) options →
      (∀ y, f x = .ok y →
        (w.after (as ++ act :: bs)).typedResolution? told t = some (.ok y)) ∧
      ∀ e, f x = .error e → e.toStatus.code ≠ .ok →
        (w.after (as ++ act :: bs)).typedResolution? told t =
          some (.error (.remote e.toStatus))) ∧
    ∀ p, asked.shape.ofBytes (payload.getD Payload.empty).data = .error p →
      (w.after (as ++ act :: bs)).resolution? t = some (.error (.remote
        ⟨.invalidArgument, "malformed request payload: " ++ p.text⟩)) ∧
      ∀ (g : α → Except HandlerFailure β) (m : Message), m.payload = payload →
        (Handler.typed key delay asked told g).run m =
          (Handler.typed key delay asked told f).run m := by
  obtain ⟨request, before, a, after, v, carries, rfl, -, server, resolved⟩ := call.resolution
  rw [serves.split.outcome server] at resolved
  refine ⟨fun x made => ?_, fun p malformed => ⟨?_, fun g m same => ?_⟩⟩
  · obtain ⟨q, written, read⟩ := asked.encode x
    simp only [Operation.typedCall, written, Except.map, Operation.call.injEq, true_and, and_true,
      Except.ok.injEq] at made
    have read : asked.shape.ofBytes request.payloadOrEmpty.data = .ok x := by
      rw [Message.payloadOrEmpty, carries, ← made]
      exact read
    refine ⟨fun y returns => ?_, fun e fails failure => ?_⟩
    · have answer : ∃ r, ((Handler.typed key delay asked told f).run request).outcome = .ok r ∧
          r.decode told.shape = .ok y := Ending.outcome_of_returned read returns
      obtain ⟨r, outcome, back⟩ := answer
      rw [typedResolution?, resolved, outcome, Option.map_some, Except.bind, back]
    · have outcome : ((Handler.typed key delay asked told f).run request).outcome =
          .error (.remote e.toStatus) := Ending.outcome_of_failed read fails failure
      rw [typedResolution?, resolved, outcome, Option.map_some, Except.bind]
  · have ending : (Handler.typed key delay asked told f).run request = _ :=
      Ending.ofFunction_of_malformed (by rw [Message.payloadOrEmpty, carries, malformed])
    rw [resolved, ending]
    rfl
  · have malformed : asked.shape.ofBytes m.payloadOrEmpty.data = .error p := by
      rw [Message.payloadOrEmpty, same, malformed]
    exact (Ending.ofFunction_of_malformed malformed).trans
      (Ending.ofFunction_of_malformed malformed).symm

end

/-- Numbers are halved: an even one is, an odd one makes the function fail, and what is no number
does not reach it. -/
theorem halves_are_called :
    let ids : MessageId.Source := { issue := fun n => .stamped 1 (BitVec.ofNat 74 n) }
    let method : Address := ⟨"server", 2, 1, 1⟩
    let numbers : Codec UInt32 := .ofReads .word32
    let halve : UInt32 → Except HandlerFailure UInt32 := fun n =>
      if n % 2 = 0 then .ok (n / 2) else .error (.status ⟨.invalidArgument, "odd"⟩)
    let w : World := { wall := 0, ids := ids }
    let as : List Act := [.command (.addLink ⟨"server", 2, 1, 0⟩), .command (.addServer 0),
      .command (.enter (.serve 0 method (.typed 0 0 numbers numbers halve))),
      .command (.addLink ⟨"client", 1, 1, 0⟩), .command (.addCaller 1 false)]
    let act : Option Payload → Act := fun payload =>
      .command (.enter (.call 0 method (.ok payload) .standard))
    let bs : List Act := [.turn 3, .turn 4, .turn 5, .turn 1]
    let number : UInt32 → Option Payload := fun n => some (.ofJson (.integer n.toNat))
    let requests : List (Option Payload) := [number 6, number 7, none]
    let after : Option Payload → World := fun payload => w.after (as ++ act payload :: bs)
    (∀ payload ∈ requests,
      CompletedCall w as (act payload) bs 1 0 0 method payload .standard ⟨.stamped 1 0, 0⟩) ∧
      (after (number 6)).typedResolution? numbers 1 = some (.ok 3) ∧
      (after (number 7)).typedResolution? numbers 1 =
        some (.error (.remote ⟨.invalidArgument, "odd"⟩)) ∧
      (after none).resolution? 1 = some (.error (.remote
        ⟨.invalidArgument, "malformed request payload: the bytes are not a JSON text"⟩)) := by
  intro ids method numbers halve w as act bs number requests after
  have new : w.IsNew := ⟨0, ids, rfl⟩
  have run : ∀ payload ∈ requests, w.CanRun (as ++ act payload :: bs) := by
    decide +kernel
  have made : ∀ payload, (w.after as).turn? (act payload) =
      some (1, .start (.call 0 method (.ok payload) .standard)) := fun _ => rfl
  have accepts : ∀ payload ∈ requests,
      ((w.after as).invoke 0 method payload .standard).1 = .ok ⟨.stamped 1 0, 0⟩ := by
    decide +kernel
  have sound : ∀ payload ∈ requests, (after payload).ids.Sound := by
    have issued : ∀ payload ∈ requests, (after payload).ids.issued = 2 := by
      decide +kernel
    have distinct : ∀ payload ∈ requests, ∀ a < 2, ∀ b < 2,
        (after payload).ids.issue a = (after payload).ids.issue b → a = b := by decide +kernel
    have valid : ∀ payload ∈ requests, ∀ n < 2,
        ((after payload).ids.issue n).isValid = true := by decide +kernel
    intro payload given
    have distinct := distinct payload given
    have valid := valid payload given
    rw [← issued payload given] at distinct valid
    refine ⟨distinct, ?_⟩
    intro id hx
    obtain ⟨n, hn, rfl⟩ := hx
    exact valid n hn
  have spares : ∀ a ∈ as ++ bs, a.Spares (.stamped 1 0) := by
    have silent : ∀ a ∈ as ++ bs, a.message? = none := by decide +kernel
    exact fun a ha m hm => by cases (silent a ha).symm.trans hm
  have unsought : ∀ a ∈ as ++ bs, a.awaits? ≠ some 0 := by decide +kernel
  have way : ∀ payload ∈ requests,
      Along (fun v _ => v.Way 0 0 method) ((w.after as).act (act payload)) bs := by decide +kernel
  have early : ∀ payload ∈ requests,
      Along (fun v _ => v.wall = 0) ((w.after as).act (act payload)) bs := by decide +kernel
  have ended : ∀ payload ∈ requests,
      ∀ cause ∈ History.ending? 0 (.stamped 1 0) (after payload).events,
        isAnswer cause.outcome = true := by decide +kernel
  have left : ∀ payload ∈ requests,
      ((after payload).tasks.entries.all fun e => e.2.job.call?.isSome) = true := by
    decide +kernel
  have told : ∀ payload ∈ requests, 1 ∉ (after payload).ready := by
    decide +kernel
  have completed : ∀ payload ∈ requests,
      CompletedCall w as (act payload) bs 1 0 0 method payload .standard ⟨.stamped 1 0, 0⟩ := by
    intro payload given
    refine ⟨new, run payload given, made payload, accepts payload given, sound payload given,
      spares, unsought, way payload given, ?_, fun status refused => ?_, fun timeout lapsed => ?_,
      fun j hj carries => ?_, told payload given⟩
    · refine (early payload given).mono fun v a hv m _ _ => ?_
      rw [hv, Attributes.isExpired]
      split <;> simp
    · exact Bool.false_ne_true (ended payload given _ refused)
    · exact Bool.false_ne_true (ended payload given _ lapsed)
    · obtain ⟨k, task, hk, rfl⟩ := hj
      have deadline := List.all_eq_true.mp (left payload given) _ (Table.mem_of_get? hk)
      rw [carries.call?_eq_none] at deadline
      cases deadline
  have serves : ∀ payload ∈ requests,
      Along (fun v _ => v.ServesWith 0 method (.typed 0 0 numbers numbers halve))
        ((w.after as).act (act payload)) bs := by
    simp only [requests, List.forall_mem_cons, List.not_mem_nil, false_imp_iff, implies_true,
      and_true]
    refine ⟨⟨?_, ?_, ?_, ?_, trivial⟩, ⟨?_, ?_, ?_, ?_, trivial⟩, ⟨?_, ?_, ?_, ?_, trivial⟩⟩
    all_goals
      subst number act as w bs numbers halve method ids
      with_unfolding_all rfl
  have typed := fun payload given =>
    typed_call_equals_function (completed payload given) (serves payload given)
  refine ⟨completed, ?_, ?_, ?_⟩
  · exact ((typed (number 6) (by simp [requests])).1 6 rfl).1 3 (by decide)
  · exact ((typed (number 7) (by simp [requests])).1 7 rfl).2 (.status ⟨.invalidArgument, "odd"⟩)
      (by decide) (by decide)
  · exact ((typed none (by simp [requests])).2 .malformed (by decide +kernel)).1

end Switchboard
