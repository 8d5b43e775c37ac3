import Switchboard.Proofs.Runs

/-! # A call keeps its place

Who makes a call is told the place where its outcome will be put. Main statement:
it stays the place of this call through every run (`World.Places.kept`).
-/

namespace Switchboard.World

variable {w v : World} {k : CallId} {i : CallerId} {id : MessageId}

def Places (w : World) (k : CallId) (i : CallerId) (id : MessageId) : Prop :=
  ∃ call, w.calls.get? k = some call ∧ call.caller = i ∧ call.id = id

theorem Places.of_same (h : w.Places k i id) (calls : v.calls = w.calls) : v.Places k i id := by
  rwa [Places, calls]

theorem Places.resolve (h : w.Places k i id) (k' : CallId) (o : Except Failure Payload) :
    (w.resolve k' o).Places k i id := by
  obtain ⟨call, hk, caller, identified⟩ := h
  rw [Places, resolve_get?, hk]
  split
  · exact ⟨_, rfl, caller, identified⟩
  · exact ⟨_, rfl, caller, identified⟩

theorem Places.complete (h : w.Places k i id) (j : CallerId) (id' : MessageId) (cause : Cause) :
    (w.complete j id' cause).Places k i id := by
  cases hp : (w.callers.get? j).bind (·.pending? id') with
  | none => rwa [complete_of_none hp]
  | some p =>
    rw [complete_of_some hp]
    exact Places.resolve (h.of_same (by simp)) ..

theorem Places.resolveAll (h : w.Places k i id) (ps : List PendingCall)
    (o : Except Failure Payload) :
    (ps.foldl (fun w p => w.resolve p.call o) w).Places k i id := by
  induction ps generalizing w with
  | nil => exact h
  | cons p ps ih => exact ih (h.resolve ..)

theorem Places.abandon (h : w.Places k i id) (j : CallerId) : (w.abandon j).Places k i id := by
  unfold World.abandon
  split
  · exact h
  · exact Places.resolveAll (w := w.modifyCaller j _) (h.of_same rfl) ..

theorem Places.remove (h : w.Places k i id) (e : EngineId) (p : Seat) (side : Side) :
    (w.remove e p side).Places k i id := by
  have gone : (w.modifySeat (fun p => { p with gone := true }) e).Places k i id :=
    h.of_same (by simp)
  unfold World.remove
  cases e with
  | caller j =>
    dsimp only
    split
    · exact (gone.abandon j).of_same (by simp)
    · exact gone.abandon j
  | server s =>
    dsimp only
    split
    · exact gone.of_same (by simp)
    · exact gone

theorem Places.invoke (h : w.Places k i id) (tidy : w.Tidy) (j : CallerId) (method : Address)
    (payload : Option Payload) (options : CallOptions) :
    (w.invoke j method payload options).2.Places k i id := by
  rcases invoke_cases w j method payload options with
    ⟨e, he⟩ | ⟨e, he⟩ | ⟨c, m, -, -, -, -, he⟩ <;> rw [he]
  · exact h
  · exact h
  · obtain ⟨call, hk, own⟩ := h
    refine ⟨call, ?_, own⟩
    simpa [Nat.ne_of_lt (tidy.calls.lt hk)] using hk

theorem Places.move {a b : Option TaskId × World} (hm : Move a b) (tidy : a.2.Tidy)
    (h : a.2.Places k i id) : b.2.Places k i id := by
  cases hm with
  | remove seat unowned alive unheld => exact h.remove ..
  | @expire w t j id' timeout free => exact Places.complete (w := w) h ..
  | @answered w t j c m id' free caller alive answers =>
    have ended := Places.complete (w := w.record (.delivered (.engine (.caller j)) m)) h j id'
      (.answered m)
    exact ended.of_same (by simp)
  | @refuse w t l m j id' s free refusal => exact Places.complete (w := w) h ..
  | @failRequest w t r j id' m s free refusal =>
    refine Places.complete (w := (w.record (.attempted (.caller j) (.error s))).settleCell
      (.caller j) (.error s)) (Places.of_same (w := w) h (by simp)) ..
  | @await w t k' held call free place pending =>
    obtain ⟨call', hk, own⟩ := h
    have hk : w.calls.get? k = some call' := hk
    by_cases he : k = k'
    · subst he
      cases place.symm.trans hk
      exact ⟨{ call with waiter := some t }, by simp, own⟩
    · exact ⟨call', by simpa [he] using hk, own⟩
  | @call w v t j method payload options accepted free invoked =>
    have hi := Places.invoke (w := w) h tidy.unpark j method payload options
    rw [invoked] at hi
    exact hi
  | @callRefused w v t j method payload options e free invoked =>
    have hi := Places.invoke (w := w) h tidy.unpark j method payload options
    rw [invoked] at hi
    exact hi
  | _ => exact h.of_same (by simp)

theorem Places.outset {a : Act} {b : Option TaskId × World} (h : w.Places k i id)
    (ho : Outset w a b) (tidy : w.Tidy) : b.2.Places k i id := by
  cases ho with
  | invoke j method payload options owned => exact h.invoke tidy ..
  | fire due next => exact h.of_same (by simp [World.fire])
  | hold e owned => exact h.of_same (by simp [World.hold])
  | drop e side owned => exact h.of_same (by simp)
  | _ => exact h

theorem Places.kept : Kept (fun _ _ => True) fun a => a.2.Places k i id :=
  ⟨fun tidy ho _ h => h.outset ho tidy, fun tidy hm h => h.move hm tidy⟩

end Switchboard.World
