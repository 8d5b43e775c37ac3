import Switchboard.World

/-! # What a history says of calls

Which calls a caller has accepted, and what ended each of them first, can be
read off the events alone. Here the events are read so, from the latest to the
first, and the readings are shown to hang on two kinds of events only: that a
call was accepted, and that something came that ends it.
-/

namespace Switchboard

/-- What has happened, the latest first, each with its time. -/
abbrev History := List (Nat × Event)

namespace History

/-- The calls that a caller accepted, the latest first. -/
def accepted (i : CallerId) : History → List MessageId
  | [] => []
  | (_, .accepted j id _) :: h => if j = i then id :: accepted i h else accepted i h
  | _ :: h => accepted i h

/-- The first thing that ended a call after the caller had accepted it. -/
def ending? (i : CallerId) (id : MessageId) : History → Option Cause
  | [] => none
  | (_, .ended j id' cause) :: h =>
    match ending? i id h with
    | some first => some first
    | none => if j = i ∧ id' = id ∧ id ∈ accepted i h then some cause else none
  | _ :: h => ending? i id h

def awaited (i : CallerId) (h : History) : List MessageId :=
  (accepted i h).filter fun id => (ending? i id h).isNone

def completed (i : CallerId) (h : History) : List MessageId :=
  (accepted i h).filter fun id => (ending? i id h).isSome

/-- The event is one of those that the calls of a history depend on. -/
def isEntry : Event → Bool
  | .accepted _ _ _ => true
  | .ended _ _ _ => true
  | _ => false

def entries (h : History) : History := h.filter fun e => isEntry e.2

theorem accepted_entries (i : CallerId) (h : History) : accepted i (entries h) = accepted i h := by
  induction h with
  | nil => rfl
  | cons e h ih =>
    obtain ⟨τ, e⟩ := e
    cases e <;> simp_all [entries, isEntry, accepted]

theorem ending?_entries (i : CallerId) (id : MessageId) (h : History) :
    ending? i id (entries h) = ending? i id h := by
  induction h with
  | nil => rfl
  | cons e h ih =>
    obtain ⟨τ, e⟩ := e
    have ha := accepted_entries i h
    cases e <;> simp_all [entries, isEntry, ending?]

theorem accepted_congr {h h' : History} (he : entries h = entries h') (i : CallerId) :
    accepted i h = accepted i h' := by
  rw [← accepted_entries, he, accepted_entries]

theorem ending?_congr {h h' : History} (he : entries h = entries h') (i : CallerId)
    (id : MessageId) : ending? i id h = ending? i id h' := by
  rw [← ending?_entries, he, ending?_entries]

theorem entries_append {es : List Event} (hes : ∀ e ∈ es, isEntry e = false) (τ : Nat)
    (h : History) : entries ((es.map fun e => (τ, e)).reverse ++ h) = entries h := by
  have hnil : entries (es.map fun e => (τ, e)).reverse = [] := by
    refine List.filter_eq_nil_iff.mpr fun e he => ?_
    simp only [List.mem_reverse, List.mem_map] at he
    obtain ⟨e, hm, rfl⟩ := he
    simp [hes e hm]
  rw [entries, List.filter_append]
  exact congrArg (· ++ entries h) hnil

theorem accepted_of_ending {i : CallerId} {id : MessageId} {h : History} {cause : Cause}
    (he : ending? i id h = some cause) : id ∈ accepted i h := by
  induction h with
  | nil => cases he
  | cons e h ih =>
    obtain ⟨τ, e⟩ := e
    cases e with
    | accepted j id' timeout =>
      simp only [ending?] at he
      simp only [accepted]
      split
      · exact List.mem_cons_of_mem _ (ih he)
      · exact ih he
    | ended j id' cause' =>
      simp only [ending?] at he
      simp only [accepted]
      cases hf : ending? i id h with
      | some first => rw [hf] at he; cases he; exact ih hf
      | none =>
        rw [hf] at he
        dsimp only at he
        split at he
        · rename_i hid
          exact hid.2.2
        · cases he
    | _ => exact ih he

theorem ending?_eq_none {i : CallerId} {id : MessageId} {h : History} (hid : id ∉ accepted i h) :
    ending? i id h = none := by
  cases he : ending? i id h with
  | none => rfl
  | some cause => exact absurd (accepted_of_ending he) hid

theorem accepted_suffix {i : CallerId} {id : MessageId} {h h' : History} (hs : h <:+ h')
    (hid : id ∈ accepted i h) : id ∈ accepted i h' := by
  obtain ⟨es, rfl⟩ := hs
  induction es with
  | nil => exact hid
  | cons e es ih =>
    obtain ⟨τ, e⟩ := e
    rw [List.cons_append]
    cases e with
    | accepted j x timeout =>
      simp only [accepted]
      split
      · exact List.mem_cons_of_mem _ ih
      · exact ih
    | _ => exact ih

/-- Whatever comes later, a call that has ended has ended as it did. -/
theorem ending?_suffix {i : CallerId} {id : MessageId} {h h' : History} (hs : h <:+ h')
    {cause : Cause} (he : ending? i id h = some cause) : ending? i id h' = some cause := by
  obtain ⟨es, rfl⟩ := hs
  induction es with
  | nil => exact he
  | cons e es ih =>
    obtain ⟨τ, e⟩ := e
    rw [List.cons_append]
    cases e <;> simp only [ending?, ih]

theorem ending?_ended (i j : CallerId) (id id' : MessageId) (τ : Nat) (cause : Cause)
    (h : History) :
    ending? i id ((τ, .ended j id' cause) :: h) =
      if j = i ∧ id' = id ∧ id ∈ awaited i h then some cause else ending? i id h := by
  simp only [ending?, awaited, List.mem_filter]
  cases hf : ending? i id h <;> simp

/-- What ended a call is found in the history, at a time when the call was awaited. -/
theorem ending?_split {i : CallerId} {id : MessageId} {h : History} {cause : Cause}
    (he : ending? i id h = some cause) :
    ∃ later τ earlier, h = later ++ (τ, .ended i id cause) :: earlier ∧ id ∈ awaited i earlier := by
  induction h with
  | nil => cases he
  | cons e h ih =>
    obtain ⟨τ, e⟩ := e
    have back : ending? i id h = some cause → ∃ later τ' earlier,
        (τ, e) :: h = later ++ (τ', .ended i id cause) :: earlier ∧ id ∈ awaited i earlier := by
      intro hb
      obtain ⟨later, τ', earlier, rfl, ha⟩ := ih hb
      exact ⟨(τ, e) :: later, τ', earlier, rfl, ha⟩
    cases e with
    | ended j id' cause' =>
      rw [ending?_ended] at he
      split at he
      · rename_i hc
        obtain ⟨rfl, rfl, ha⟩ := hc
        cases he
        exact ⟨[], τ, h, rfl, ha⟩
      · exact back he
    | _ => exact back he

/-- An answer that ends a call has just been delivered to the caller. -/
def Prompt : History → Prop
  | [] => True
  | (τ, .ended i id (.answered m)) :: h =>
    m.answers? = some id ∧ h.head? = some (τ, .delivered (.engine (.caller i)) m) ∧ Prompt h
  | _ :: h => Prompt h

theorem Prompt.append {es : List Event} {h : History} (hp : Prompt h)
    (hes : ∀ e ∈ es, isEntry e = false) (τ : Nat) :
    Prompt ((es.map fun e => (τ, e)).reverse ++ h) := by
  induction es generalizing h with
  | nil => exact hp
  | cons e es ih =>
    have hq : Prompt ((τ, e) :: h) := by
      have he := hes e List.mem_cons_self
      cases e <;> first | exact hp | cases he
    simpa using ih hq fun e' he' => hes e' (List.mem_cons_of_mem _ he')

theorem Prompt.split {later earlier : History} {τ : Nat} {i : CallerId} {id : MessageId}
    {m : Message} (hp : Prompt (later ++ (τ, .ended i id (.answered m)) :: earlier)) :
    m.answers? = some id ∧ earlier.head? = some (τ, .delivered (.engine (.caller i)) m) := by
  induction later with
  | nil => exact ⟨hp.1, hp.2.1⟩
  | cons e later ih =>
    obtain ⟨τ', e⟩ := e
    rw [List.cons_append] at hp
    cases e with
    | ended j x cause =>
      cases cause with
      | answered m' => exact ih hp.2.2
      | _ => exact ih hp
    | _ => exact ih hp

theorem awaited_add_completed (i : CallerId) (h : History) :
    (awaited i h).length + (completed i h).length = (accepted i h).length := by
  unfold awaited completed
  generalize accepted i h = ids
  induction ids with
  | nil => rfl
  | cons id ids ih =>
    cases hf : ending? i id h <;> simp [hf] <;> omega

end History

end Switchboard
