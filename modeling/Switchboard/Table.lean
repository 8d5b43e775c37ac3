/-!
# Tables

Entries under keys that are given out in order and never given out twice. The
things a world is made of live in tables: a key names a thing for good, also
after the thing is gone.
-/

namespace Switchboard

/-- Entries by key, and the key that is given out next. -/
structure Table (α : Type u) where
  next : Nat := 0
  entries : List (Nat × α) := []

namespace Table

def get? (t : Table α) (k : Nat) : Option α := t.entries.lookup k

/-- Gives out a key without an entry. -/
def reserve (t : Table α) : Nat × Table α := (t.next, { t with next := t.next + 1 })

def insert (t : Table α) (a : α) : Nat × Table α :=
  (t.next, ⟨t.next + 1, (t.next, a) :: t.entries⟩)

def erase (t : Table α) (k : Nat) : Table α :=
  { t with entries := t.entries.filter fun e => e.1 != k }

/-- Puts an entry under a key that was given out, in place of the one there may be. -/
def set (t : Table α) (k : Nat) (a : α) : Table α :=
  { t with entries := (k, a) :: (t.erase k).entries }

def modify (t : Table α) (k : Nat) (f : α → α) : Table α :=
  { t with entries := t.entries.map fun e => if e.1 = k then (e.1, f e.2) else e }

def any (t : Table α) (p : α → Bool) : Bool := t.entries.any fun e => p e.2

theorem lookup_filter_ne (l : List (Nat × α)) (k j : Nat) :
    (l.filter fun e => e.1 != k).lookup j = if j = k then none else l.lookup j := by
  induction l with
  | nil => simp
  | cons e l ih =>
    obtain ⟨i, a⟩ := e
    by_cases hi : i = k
    · subst hi
      by_cases hj : j = i
      · subst hj; simpa [List.filter_cons] using ih
      · have hb : (j == i) = false := by simpa using hj
        simpa [List.filter_cons, List.lookup_cons, hj, hb] using ih
    · by_cases hj : j = i
      · subst hj; simp [hi]
      · have hb : (j == i) = false := by simpa using hj
        simpa [List.filter_cons, List.lookup_cons, hi, hb] using ih

@[simp] theorem get?_erase (t : Table α) (k j : Nat) :
    (t.erase k).get? j = if j = k then none else t.get? j :=
  lookup_filter_ne t.entries k j

@[simp] theorem get?_set (t : Table α) (k j : Nat) (a : α) :
    (t.set k a).get? j = if j = k then some a else t.get? j := by
  by_cases h : j = k
  · subst h; simp [set, get?]
  · have hb : (j == k) = false := by simpa using h
    have := lookup_filter_ne t.entries k j
    simpa [set, get?, erase, List.lookup_cons, h, hb] using this

@[simp] theorem get?_insert (t : Table α) (j : Nat) (a : α) :
    (t.insert a).2.get? j = if j = t.next then some a else t.get? j := by
  by_cases h : j = t.next
  · subst h; simp [insert, get?]
  · have hb : (j == t.next) = false := by simpa using h
    simp [insert, get?, List.lookup_cons, h, hb]

@[simp] theorem get?_modify (t : Table α) (k j : Nat) (f : α → α) :
    (t.modify k f).get? j = if j = k then (t.get? j).map f else t.get? j := by
  obtain ⟨n, l⟩ := t
  simp only [modify, get?]
  induction l with
  | nil => simp
  | cons e l ih =>
    obtain ⟨i, a⟩ := e
    by_cases hi : j = i
    · subst hi
      by_cases hk : j = k <;> simp [hk]
    · have hb : (j == i) = false := by simpa using hi
      by_cases hk : i = k
      · subst hk; simpa [List.lookup_cons, hi, hb] using ih
      · simpa [List.lookup_cons, hk, hb] using ih

end Table

end Switchboard
