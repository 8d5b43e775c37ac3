import Mathlib.Control.Monad.Basic
import Switchboard.Proofs.Course
import Switchboard.Proofs.CrossTalk
import Switchboard.Proofs.Places

/-! # A call resolves to what its handler ended with

A call whose way is clear ends with an answer, and the answer is what the server
made of the request when it was handed it. The call starts on its course, since
its id is new to everyone; it ends when nothing is left to do for it. Main
statement: `call_equals_handler`.
-/

namespace Switchboard

open History World

namespace Errand

variable {x : Errand} {w v : World}

/-- As long as nobody has accepted a call under the id, no message asks or answers under it. -/
theorem unknown {m : Message} (traffic : w.Traffic (· = x.id))
    (unknown : ∀ i, x.id ∉ accepted i w.events) (genuine : w.Genuine (· = x.id) m) :
    ¬m.Requests x.id ∧ m.answers? ≠ some x.id := by
  have unasked : ∀ r : Message, w.Genuine (· = x.id) r → ¬r.Requests x.id := by
    intro r genuine hx
    obtain ⟨request, identified⟩ := hx
    obtain ⟨i, -, -, accepted, -⟩ := genuine.request request x.id identified rfl
    exact unknown i accepted
  refine ⟨unasked m genuine, fun answers => ?_⟩
  obtain ⟨response, -, requestId⟩ := Message.answers?_eq_some answers
  obtain ⟨s, r, answered⟩ := genuine.response response x.id requestId rfl
  obtain ⟨request, -, identified, -, genuine', -⟩ := traffic.events _ answered
  exact unasked r genuine' ⟨request, by rw [← identified, requestId]⟩

theorem faithful_of_unknown {j : Job} (traffic : w.Traffic (· = x.id))
    (unaccepted : ∀ i, x.id ∉ accepted i w.events) (hj : w.HasJob j) : x.Faithful v j := by
  have honest := traffic.jobs j hj
  have message : ∀ m, j.message? = some m → ¬m.Requests x.id ∧ m.answers? ≠ some x.id :=
    fun m hm => unknown traffic unaccepted (honest.message m hm)
  have asks : ∀ u, j.use? = some u → x.Asks u := by
    intro u use
    cases u with
    | serve s method h => trivial
    | request i id m =>
      obtain ⟨request, identified, accepted⟩ := honest.asks i id m use
      exact ⟨⟨request, identified⟩, fun he => absurd (he ▸ accepted) (unaccepted i)⟩
  cases j with
  | prepare u => exact asks u rfl
  | resume u => exact asks u rfl
  | register l source sink listener after =>
    cases after with
    | use u => exact asks u rfl
    | report r => trivial
  | start o =>
    cases o with
    | send l m => exact message m rfl
    | _ => trivial
  | send l m after =>
    exact ⟨fun ours => absurd ours (message m rfl).1,
      fun answers => absurd answers (message m rfl).2⟩
  | deliver l m => exact fun ours => absurd ours (message m rfl).1
  | handle s h m =>
    exact fun identified => absurd ⟨(honest.handles s h m rfl).1, identified⟩ (message m rfl).1
  | _ => trivial

/-- A call under an id that was new to everyone is on its course once it is accepted and a task
asks for the caller's listener to send its request. -/
theorem course_of_accepted {b : Option TaskId × World} (traffic : w.Traffic (· = x.id))
    (unaccepted : ∀ i, x.id ∉ accepted i w.events) (ledger : b.2.Ledger none)
    (listening : b.2.Listening) (accepted : x.id ∈ accepted x.caller b.2.events)
    (source : ∃ p ∈ b.2.seat? (.caller x.caller), x.request.attributes.source = some p.entity)
    (alive : ¬b.2.Gone (.caller x.caller))
    (prepares : ∃ t, b.2.tasks.get? t =
      some ⟨.prepare (.request x.caller x.id x.request), false⟩)
    (jobs : ∀ j, b.2.HasJob j → w.HasJob j ∨ x.Faithful b.2 j)
    (answers : ∀ s r m, b.2.Has (.answered s r m) → w.Has (.answered s r m))
    (running : ∀ t j, b.1 = some t → b.2.tasks.get? t = some ⟨j, false⟩ →
      ¬j.Carries x.caller x.server x.id) : x.Course b := by
  obtain ⟨t, task⟩ := prepares
  refine ⟨ledger, listening, accepted, source, fun j hj => ?_, fun s r m answered identified => ?_,
    .inr ⟨alive, t, _, task, .use _ x.request rfl, fun h => by cases h⟩,
    fun t j runs task carries => absurd carries (running t j runs task)⟩
  · exact (jobs j hj).elim (faithful_of_unknown traffic unaccepted) fun faithful => faithful
  · obtain ⟨request, -, -, -, genuine, -⟩ := traffic.events _ (answers s r m answered)
    exact absurd ⟨request, identified⟩ (unknown traffic unaccepted genuine).1

end Errand

/-! ## The end -/

/-- When nothing is left to do for a call that neither a link nor its deadline has ended, its place
holds one of the outcomes. -/
theorem Errand.Course.resolved {x : Errand} {v : World} {k : CallId} (course : x.Course (none, v))
    (prompt : Prompt v.events) (traffic : v.Traffic (· = x.id))
    (place : v.Places k x.caller x.id)
    (unrefused : ∀ status, ending? x.caller x.id v.events ≠ some (.refused status))
    (timely : ∀ timeout, ending? x.caller x.id v.events ≠ some (.lapsed timeout))
    (done : ∀ j, v.HasJob j → ¬j.Carries x.caller x.server x.id) :
    ∃ call o, v.calls.get? k = some call ∧ call.outcome = some o ∧ x.Outcome o := by
  obtain ⟨cause, ending⟩ : x.Ended v := by
    rcases course.pending with ended | ⟨-, t, j, task, carries, -⟩
    · exact ended
    · exact absurd carries (done j ⟨t, _, task, rfl⟩)
  obtain ⟨later, τ, earlier, events, -⟩ := ending?_split ending
  obtain ⟨call, hk, caller, identified⟩ := place
  refine ⟨call, cause.outcome, hk, ?_, ?_⟩
  · rw [(course.ledger.outcomes k call hk).2, caller, identified, ending]
    rfl
  · cases cause with
    | lapsed timeout => exact absurd ending (timely timeout)
    | refused status => exact absurd ending (unrefused status)
    | answered m =>
      -- the answer was delivered just before, and is traced back to the server that gave it
      rw [events] at prompt
      obtain ⟨answers, delivered⟩ := prompt.split
      have delivered : v.Has (.delivered (.engine (.caller x.caller)) m) := by
        refine ⟨τ, ?_⟩
        rw [events]
        exact List.mem_append_right _ (List.mem_cons_of_mem _ (List.mem_of_head? delivered))
      obtain ⟨response, -, requestId⟩ := Message.answers?_eq_some answers
      obtain ⟨s, r, answered⟩ :=
        World.Genuine.response (traffic.events _ delivered) response x.id requestId rfl
      obtain ⟨-, -, same, -⟩ := traffic.events _ answered
      exact course.answers s r m answered (same ▸ requestId)

end Switchboard
