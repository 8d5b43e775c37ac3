import Switchboard.World.Tasks

/-!
# Time and order

Ready tasks run one after the other in the order of the queue, and time stands
still meanwhile. Time moves only while somebody waits in the foreground for the
end of an operation, and only when no task is ready: then straight to the next
timer. The foreground lets the others go first, unless it was the timer that it
waited for: then it goes on before the others that the same timer woke.
-/

namespace Switchboard.World

/-- Runs ready tasks in the order of the queue until none is left or the fuel is spent. -/
def runReady : (fuel : Nat) → World → World
  | 0, w => w
  | fuel + 1, w =>
    match w.ready with
    | [] => w
    | t :: _ => runReady fuel (w.run t)

/-- Fuel for a run. A task can start a delivery for each registration, a delivery of a request can
start one more for each, and none of these starts others; every wait is counted in. -/
def budget (w : World) : Nat :=
  16 * (w.tasks.entries.length + 1) * (w.tasks.entries.length + w.hub.size + 2) ^ 2

/-- Runs all that can run without time passing. -/
def settle (w : World) : World := w.runReady w.budget

def nextDue (w : World) : Option Nat := (w.timers.map (·.due)).min?

/-- Moves the time to a moment and wakes the tasks that are due then. -/
def fire (w : World) (due : Nat) : World :=
  let w' := { w with now := due, timers := w.timers.filter (·.due != due) }
  w'.wakeAll ((w.timers.filter (·.due == due)).map (·.task))

def runIfReady (w : World) (t : TaskId) : World := if w.ready.contains t then w.run t else w

/-- One step of a run for whose task `t` somebody waits: another ready task runs, or else the
task itself, or else time moves to the next timer, and the task runs if that was its own. -/
def step? (w : World) (t : TaskId) : Option World :=
  match w.ready.find? (· != t) with
  | some u => some (w.run u)
  | none =>
    if w.ready.contains t then some (w.run t)
    else w.nextDue.map fun due => (w.fire due).runIfReady t

/-- Steps until a task has ended, nothing is left to do, or the fuel is spent. -/
def runFor (t : TaskId) : (fuel : Nat) → World → World
  | 0, w => w
  | fuel + 1, w =>
    if (w.tasks.get? t).isNone then w
    else
      match w.step? t with
      | none => w
      | some w => runFor t fuel w

/-- Starts an operation in the foreground. -/
def enter (w : World) (o : Operation) : TaskId × World :=
  let (t, tasks) := w.tasks.reserve
  (t, { w with tasks := tasks }.start t o)

/-- Does an operation in the foreground until it has ended. -/
def perform (w : World) (o : Operation) : TaskId × World :=
  let (t, w) := w.enter o
  (t, w.runFor t w.budget)

/-- Lets some milliseconds pass in the foreground. What a timer at the very end of them wakes is
ready then, but has not run. -/
def advance (w : World) (ms : Nat) : World := (w.perform (.rest ms)).2

end Switchboard.World
