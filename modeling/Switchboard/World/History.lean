import Switchboard.World.Commands

/-!
# Histories

What can become of a world: commands come in any order, any ready task may take
its turn, not only the first in the queue, and time passes from timer to timer, also
while tasks are ready. The clock that expiry is judged by shows what it likes.

Main statements: what the library's own schedule makes of a world is one of the
world's possible futures (`reaches_settle`, `reaches_perform`,
`reaches_advance`), so whatever holds in all of them holds of every run.
-/

namespace Switchboard

/-- The second world comes from the first by one thing that happens. -/
inductive Step (w : World) : World → Prop
  /-- An owner or somebody outside gives a command. -/
  | command (c : World.Command) (allowed : c.isAllowed w = true) : Step w (w.obey c)
  /-- A ready task takes its turn. -/
  | turn (t : TaskId) (ready : t ∈ w.ready) : Step w (w.run t)
  /-- The time moves to the next timer. -/
  | fire (due : Nat) (next : w.nextDue = some due) : Step w (w.fire due)
  /-- The calendar's clock is set. -/
  | clock (wall : Nat) : Step w { w with wall := wall }

/-- The second world is a possible future of the first. -/
inductive Reaches (w : World) : World → Prop
  | refl : Reaches w w
  | tail {v u : World} (before : Reaches w v) (last : Step v u) : Reaches w u

/-- A world in which nothing has happened. -/
def World.IsNew (w : World) : Prop :=
  ∃ wall ids, w = { wall := wall, ids := ids }

namespace Reaches

theorem single {w v : World} (h : Step w v) : Reaches w v := .tail .refl h

theorem trans {w v u : World} (h : Reaches w v) (h' : Reaches v u) : Reaches w u := by
  induction h' with
  | refl => exact h
  | tail _ last ih => exact .tail ih last

end Reaches

/-! ## The library's own schedule -/

namespace World

theorem reaches_runReady (fuel : Nat) (w : World) : Reaches w (w.runReady fuel) := by
  induction fuel generalizing w with
  | zero => exact .refl
  | succ fuel ih =>
    unfold runReady
    split
    · exact .refl
    · rename_i t rest hw
      exact (Reaches.single (.turn t (by simp [hw]))).trans (ih _)

theorem reaches_runIfReady (w : World) (t : TaskId) : Reaches w (w.runIfReady t) := by
  unfold runIfReady
  split
  · rename_i ready
    exact .single (.turn t (by simpa using ready))
  · exact .refl

theorem reaches_of_step? {w v : World} {t : TaskId} (h : w.step? t = some v) : Reaches w v := by
  unfold step? at h
  split at h
  · rename_i u found
    cases h
    exact .single (.turn u (List.mem_of_find?_eq_some found))
  · split at h
    · rename_i ready
      cases h
      exact .single (.turn t (by simpa using ready))
    · obtain ⟨due, next, rfl⟩ := Option.map_eq_some_iff.mp h
      exact (Reaches.single (.fire due next)).trans (reaches_runIfReady _ t)

theorem reaches_runFor (t : TaskId) (fuel : Nat) (w : World) : Reaches w (w.runFor t fuel) := by
  induction fuel generalizing w with
  | zero => exact .refl
  | succ fuel ih =>
    unfold runFor
    split
    · exact .refl
    · split
      · exact .refl
      · rename_i next
        exact (reaches_of_step? next).trans (ih _)

/-- Running all that can run is a possible future. -/
theorem reaches_settle (w : World) : Reaches w w.settle := reaches_runReady ..

/-- So is doing an operation in the foreground, if the engine's owner asks for it. -/
theorem reaches_perform (w : World) (o : Operation)
    (allowed : (Command.enter o).isAllowed w = true) : Reaches w (w.perform o).2 :=
  (Reaches.single (.command (.enter o) allowed)).trans (reaches_runFor ..)

/-- So is letting time pass, which nobody has to allow. -/
theorem reaches_advance (w : World) (ms : Nat) : Reaches w (w.advance ms) :=
  reaches_perform w (.rest ms) rfl

end World

end Switchboard
