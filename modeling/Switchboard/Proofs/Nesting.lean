import Switchboard.Proofs.WireForms
import Mathlib.Data.List.Nodup

/-! # JSON payloads are read back unless they nest too deep

Writing a value as JSON has no limit, and reading it has one: no more than 127 arrays and objects
may be nested in one another. Below the limit a value is read back as it was written, but for the
members of its objects, which come back in the order of their keys. So writing and reading disagree
about the values that nest deeper, and about no others. Main statement:
`json_payload_round_trip`.
-/

namespace Switchboard

open Json

namespace Json

/-- A property holds of all values if it holds of an array and of an object whenever it holds of
what they hold. -/
theorem Value.induction {P : Value → Prop} (null : P .null) (bool : ∀ b, P (.bool b))
    (integer : ∀ n, P (.integer n)) (double : ∀ bits, P (.double bits))
    (string : ∀ s, P (.string s)) (array : ∀ items, (∀ v ∈ items, P v) → P (.array items))
    (object : ∀ members, (∀ m ∈ members, P m.2) → P (.object members)) (v : Value) : P v :=
  @Value.rec P (fun vs => ∀ v ∈ vs, P v) (fun ms => ∀ m ∈ ms, P m.2) (fun m => P m.2)
    null bool integer double string array object
    (by simp) (fun _ _ here more => List.forall_mem_cons.mpr ⟨here, more⟩)
    (by simp) (fun _ _ here more => List.forall_mem_cons.mpr ⟨here, more⟩)
    (fun _ _ here => here) v

mutual

/-- A test holds of a value and of every value that is nested in it. -/
def Value.everywhere (p : Value → Bool) : Value → Bool
  | .array items => p (.array items) && Value.everywhereIn p items
  | .object members => p (.object members) && Value.everywhereUnder p members
  | v => p v

def Value.everywhereIn (p : Value → Bool) : List Value → Bool
  | [] => true
  | v :: rest => v.everywhere p && Value.everywhereIn p rest

def Value.everywhereUnder (p : Value → Bool) : List (String × Value) → Bool
  | [] => true
  | (_, v) :: rest => v.everywhere p && Value.everywhereUnder p rest

end

mutual

/-- How many arrays and objects are nested in one another, the value itself included. -/
def Value.nesting : Value → Nat
  | .array items => Value.nestingIn items + 1
  | .object members => Value.nestingUnder members + 1
  | _ => 0

def Value.nestingIn : List Value → Nat
  | [] => 0
  | v :: rest => max v.nesting (Value.nestingIn rest)

def Value.nestingUnder : List (String × Value) → Nat
  | [] => 0
  | (_, v) :: rest => max v.nesting (Value.nestingUnder rest)

end

mutual

/-- The value with the members of every object in the order of their keys. -/
def Value.sorted : Value → Value
  | .array items => .array (Value.sortedItems items)
  | .object members => .object (Value.sortedInto [] members)
  | v => v

def Value.sortedItems : List Value → List Value
  | [] => []
  | v :: rest => v.sorted :: Value.sortedItems rest

/-- The members, each of them sorted, put into those seen before. -/
def Value.sortedInto (seen : List (String × Value)) :
    List (String × Value) → List (String × Value)
  | [] => seen
  | (k, v) :: rest => Value.sortedInto (putMember k v.sorted seen) rest

end

section

variable {p : Value → Bool} {items : List Value} {members : List (String × Value)} {room : Nat}

@[simp] theorem everywhereIn_iff :
    Value.everywhereIn p items = true ↔ ∀ v ∈ items, v.everywhere p = true := by
  induction items with
  | nil => simp [Value.everywhereIn]
  | cons v vs ih => simp [Value.everywhereIn, ih]

@[simp] theorem everywhereUnder_iff :
    Value.everywhereUnder p members = true ↔ ∀ m ∈ members, m.2.everywhere p = true := by
  induction members with
  | nil => simp [Value.everywhereUnder]
  | cons m ms ih => simp [Value.everywhereUnder, ih]

@[simp] theorem nestingIn_le_iff :
    Value.nestingIn items ≤ room ↔ ∀ v ∈ items, v.nesting ≤ room := by
  induction items with
  | nil => simp [Value.nestingIn]
  | cons v vs ih => simp only [Value.nestingIn, Nat.max_le, ih, List.forall_mem_cons]

@[simp] theorem nestingUnder_le_iff :
    Value.nestingUnder members ≤ room ↔ ∀ m ∈ members, m.2.nesting ≤ room := by
  induction members with
  | nil => simp [Value.nestingUnder]
  | cons m ms ih => simp only [Value.nestingUnder, Nat.max_le, ih, List.forall_mem_cons]

@[simp] theorem sortedItems_eq_map : Value.sortedItems items = items.map Value.sorted := by
  induction items with
  | nil => rfl
  | cons v vs ih => simp [Value.sortedItems, ih]

end

/-! ## Reading within some room -/

/-- Every number is an integer of 64 bits, and no object has two members under one key. -/
def Value.isIntegral : Value → Bool :=
  Value.everywhere fun
    | .double _ => false
    | .integer n => isWordSized n
    | .object members => (members.map Prod.fst).Nodup
    | _ => true

theorem isIntegral_array {items : List Value} :
    (Value.array items).isIntegral = true ↔ ∀ v ∈ items, v.isIntegral = true := by
  simp [Value.isIntegral, Value.everywhere]

theorem isIntegral_object {members : List (String × Value)} :
    (Value.object members).isIntegral = true ↔
      (members.map Prod.fst).Nodup ∧ ∀ m ∈ members, m.2.isIntegral = true := by
  simp [Value.isIntegral, Value.everywhere]

theorem allExact_iff {items : List Value} :
    Value.allExact items = true ↔ ∀ v ∈ items, v.isExact = true := by
  induction items with
  | nil => simp [Value.allExact]
  | cons v vs ih => simp [Value.allExact, ih]

theorem membersExact_iff {members : List (String × Value)} :
    Value.membersExact members = true ↔ ∀ m ∈ members, m.2.isExact = true := by
  induction members with
  | nil => simp [Value.membersExact]
  | cons m ms ih => simp [Value.membersExact, ih]

theorem isExact_of_isIntegral {v : Value} (integral : v.isIntegral = true) : v.isExact = true := by
  induction v using Value.induction with
  | double bits => cases integral
  | array items ih =>
    exact allExact_iff.mpr fun v hv => ih v hv (isIntegral_array.mp integral v hv)
  | object members ih =>
    exact membersExact_iff.mpr fun m hm => ih m hm ((isIntegral_object.mp integral).2 m hm)
  | _ => rfl

theorem value?_ofInt {n : Int} (sized : isWordSized n = true) :
    (Numeral.ofInt n).value? = some (.integer n) := by
  simp [Numeral.value?, sized]

/-- Items are read, each of them sorted, if there is room for all of them. -/
theorem valuesWithin?_trees {room : Nat} {items ws : List Value}
    (each : ∀ v ∈ items, ∀ w, v.tree.valueWithin? room = some w ↔ v.nesting ≤ room ∧ w = v.sorted) :
    Raw.valuesWithin? room (Value.trees items) = some ws ↔
      (∀ v ∈ items, v.nesting ≤ room) ∧ ws = items.map Value.sorted := by
  induction items generalizing ws with
  | nil => simp [Value.trees, Raw.valuesWithin?, eq_comm]
  | cons v vs ih =>
    obtain ⟨here, more⟩ := List.forall_mem_cons.mp each
    simp only [Value.trees, Raw.valuesWithin?, Option.bind_eq_bind, Option.bind_eq_some_iff, here,
      ih more, Option.some.injEq, List.forall_mem_cons, List.map_cons]
    grind

/-- Members are read, each of them sorted and put in its place, if there is room for all of them. -/
theorem membersWithin?_trees {room : Nat} {seen members ns : List (String × Value)}
    (each : ∀ m ∈ members, ∀ w,
      m.2.tree.valueWithin? room = some w ↔ m.2.nesting ≤ room ∧ w = m.2.sorted) :
    Raw.membersWithin? room seen (Value.memberTrees members) = some ns ↔
      (∀ m ∈ members, m.2.nesting ≤ room) ∧ ns = Value.sortedInto seen members := by
  induction members generalizing seen with
  | nil => simp [Value.memberTrees, Raw.membersWithin?, Value.sortedInto, eq_comm]
  | cons m ms ih =>
    obtain ⟨here, more⟩ := List.forall_mem_cons.mp each
    simp only [Value.memberTrees, Raw.membersWithin?, Option.bind_eq_bind,
      Option.bind_eq_some_iff, here, ih more, text?_quoted, Option.some.injEq,
      List.forall_mem_cons, Value.sortedInto]
    grind

/-- **A tree is read as the sorted value that it was written from, if there is room for its
nesting.** -/
theorem valueWithin?_tree {v : Value} (integral : v.isIntegral = true) (room : Nat) (w : Value) :
    v.tree.valueWithin? room = some w ↔ v.nesting ≤ room ∧ w = v.sorted := by
  induction v using Value.induction generalizing room w with
  | double bits => cases integral
  | integer n =>
    simp [Value.tree, Raw.valueWithin?, value?_ofInt integral, Value.nesting, Value.sorted, eq_comm]
  | array items ih =>
    cases room with
    | zero => simp [Value.tree, Raw.valueWithin?, Value.nesting]
    | succ room =>
      have each := fun v hv => ih v hv (isIntegral_array.mp integral v hv) room
      simp only [Value.tree, Raw.valueWithin?, Option.map_eq_some_iff, valuesWithin?_trees each,
        Value.nesting, Value.sorted, Nat.add_le_add_iff_right, nestingIn_le_iff, sortedItems_eq_map]
      grind
  | object members ih =>
    cases room with
    | zero => simp [Value.tree, Raw.valueWithin?, Value.nesting]
    | succ room =>
      have each := fun m hm => ih m hm ((isIntegral_object.mp integral).2 m hm) room
      simp only [Value.tree, Raw.valueWithin?, Option.map_eq_some_iff, membersWithin?_trees each,
        Value.nesting, Value.sorted, Nat.add_le_add_iff_right, nestingUnder_le_iff]
      grind
  | _ => simp [Value.tree, Raw.valueWithin?, Value.nesting, Value.sorted, eq_comm]

/-- Two values say the same: they are equal, or they are arrays of the same items, or they are
objects with the same keys and the same value under each of them. The order of members does not
count. -/
inductive Value.Same : Value → Value → Prop
  | refl (v : Value) : Same v v
  | array {vs ws : List Value} (length : vs.length = ws.length)
      (items : ∀ (i : Nat) (v w : Value), vs[i]? = some v → ws[i]? = some w → Same v w) :
      Same (.array vs) (.array ws)
  | object {ms ns : List (String × Value)}
      (keys : ∀ k, k ∈ ms.map Prod.fst ↔ k ∈ ns.map Prod.fst)
      (values : ∀ (k : String) (v w : Value), (k, v) ∈ ms → (k, w) ∈ ns → Same v w) :
      Same (.object ms) (.object ns)

theorem putMember_perm {k : String} {v : Value} {seen : List (String × Value)}
    (new : k ∉ seen.map Prod.fst) : (putMember k v seen).Perm ((k, v) :: seen) := by
  induction seen with
  | nil => rfl
  | cons m ms ih =>
    obtain ⟨other, new⟩ := not_or.mp (List.mem_cons.not.mp new)
    rw [putMember]
    split
    · rfl
    · exact ((ih new).cons m).trans (.swap ..)

/-- Members under new keys, no two of them under the same, are added to the others. -/
theorem sortedInto_perm {seen members : List (String × Value)}
    (new : (seen.map Prod.fst ++ members.map Prod.fst).Nodup) :
    (Value.sortedInto seen members).Perm (seen ++ members.map fun m => (m.1, m.2.sorted)) := by
  induction members generalizing seen with
  | nil => simp [Value.sortedInto]
  | cons m ms ih =>
    obtain ⟨k, v⟩ := m
    have new := List.nodup_middle.mp new
    have put : (putMember k v.sorted seen).Perm ((k, v.sorted) :: seen) :=
      putMember_perm fun old => (List.nodup_cons.mp new).1 (List.mem_append_left _ old)
    have others := ih (((put.map Prod.fst).append_right _).nodup_iff.mpr new)
    exact others.trans ((put.append_right _).trans List.perm_middle.symm)

/-- Sorting a value changes nothing of what it says. -/
theorem sorted_same {v : Value} (integral : v.isIntegral = true) : v.sorted.Same v := by
  induction v using Value.induction with
  | array items ih =>
    rw [Value.sorted, sortedItems_eq_map]
    refine .array (List.length_map _) fun i w v hw hv => ?_
    rw [List.getElem?_map, hv] at hw
    have item := List.mem_of_getElem? hv
    exact Option.some.inj hw ▸ ih v item (isIntegral_array.mp integral v item)
  | object members ih =>
    obtain ⟨distinct, integral⟩ := isIntegral_object.mp integral
    have perm : (Value.sortedInto [] members).Perm (members.map fun m => (m.1, m.2.sorted)) :=
      sortedInto_perm distinct
    rw [Value.sorted]
    refine .object (fun k => ?_) fun k w v hw hv => ?_
    · rw [(perm.map Prod.fst).mem_iff]
      simp
    · obtain ⟨m, hm, same⟩ := List.mem_map.mp (perm.mem_iff.mp hw)
      obtain ⟨rfl, rfl⟩ := Prod.mk.inj same
      -- the key has no other value
      have value : m.2 = v := congrArg Prod.snd (List.inj_on_of_nodup_map distinct hm hv rfl)
      exact value ▸ ih m hm (integral m hm)
  | _ => exact .refl _

/-- The members of every object are in the order of their keys. -/
def Value.isOrdered : Value → Bool :=
  Value.everywhere fun
    | .object members => (members.map Prod.fst).Pairwise (· < ·)
    | _ => true

theorem isOrdered_array {items : List Value} :
    (Value.array items).isOrdered = true ↔ ∀ v ∈ items, v.isOrdered = true := by
  simp [Value.isOrdered, Value.everywhere]

theorem isOrdered_object {members : List (String × Value)} :
    (Value.object members).isOrdered = true ↔
      (members.map Prod.fst).Pairwise (· < ·) ∧ ∀ m ∈ members, m.2.isOrdered = true := by
  simp [Value.isOrdered, Value.everywhere]

/-- A member under the last key comes last. -/
theorem putMember_last {k : String} {v : Value} {seen : List (String × Value)}
    (last : ∀ m ∈ seen, m.1 < k) : putMember k v seen = seen ++ [(k, v)] := by
  induction seen with
  | nil => rfl
  | cons m ms ih =>
    obtain ⟨here, more⟩ := List.forall_mem_cons.mp last
    rw [putMember, if_neg (String.lt_asymm here), if_neg (String.ne_of_lt here).symm, ih more]
    rfl

/-- Members that are in order, and behind those seen before, stay as they are. -/
theorem sortedInto_of_ordered {seen members : List (String × Value)}
    (ordered : ((seen ++ members).map Prod.fst).Pairwise (· < ·))
    (each : ∀ m ∈ members, m.2.sorted = m.2) :
    Value.sortedInto seen members = seen ++ members := by
  induction members generalizing seen with
  | nil => simp [Value.sortedInto]
  | cons m ms ih =>
    obtain ⟨k, v⟩ := m
    obtain ⟨here, more⟩ := List.forall_mem_cons.mp each
    have last : ∀ m ∈ seen, m.1 < k := by
      rw [List.map_append, List.pairwise_append] at ordered
      exact fun m hm => ordered.2.2 m.1 (List.mem_map_of_mem hm) k (by simp)
    rw [Value.sortedInto, here, putMember_last last, ih (by simpa using ordered) more]
    simp

theorem sorted_of_isOrdered {v : Value} (ordered : v.isOrdered = true) : v.sorted = v := by
  induction v using Value.induction with
  | array items ih =>
    rw [Value.sorted, sortedItems_eq_map, Value.array.injEq]
    exact (List.map_congr_left fun v hv => ih v hv (isOrdered_array.mp ordered v hv)).trans
      (List.map_id _)
  | object members ih =>
    obtain ⟨keys, ordered⟩ := isOrdered_object.mp ordered
    have each := fun m hm => ih m hm (ordered m hm)
    rw [Value.sorted, sortedInto_of_ordered (by simpa using keys) each, List.nil_append]
  | _ => rfl

end Json

/-! ## Payloads -/

namespace Payload

/-- A payload that was made of a value is read as far as the nesting limit allows. -/
theorem json?_ofJson {v : Value} (exact : v.isExact = true) :
    (Payload.ofJson v).json? .value = v.tree.valueWithin? nestingLimit := by
  have text : Raw.ofBytes? v.bytes = some v.tree := ofBytes?_text exact
  simp only [json?, ofJson, if_true, Shape.ofBytes, text, Shape.value, Raw.value?]
  cases v.tree.valueWithin? nestingLimit <;> rfl

/-- The value that is read is the one that was written, sorted. -/
theorem json?_ofJson_eq_some_iff {v w : Value} (integral : v.isIntegral = true) :
    (Payload.ofJson v).json? .value = some w ↔ v.nesting ≤ 127 ∧ w = v.sorted := by
  rw [json?_ofJson (isExact_of_isIntegral integral), valueWithin?_tree integral, nestingLimit]

theorem json?_ofJson_eq_none_iff {v : Value} (integral : v.isIntegral = true) :
    (Payload.ofJson v).json? .value = none ↔ 127 < v.nesting := by
  simp [Option.eq_none_iff_forall_ne_some, json?_ofJson_eq_some_iff integral]

end Payload

/-- **A value is read back from its JSON payload exactly if it nests at most 127 arrays and
objects.** Numbers with a fraction apart, this holds of every value that says something definite:
its integers have 64 bits, its objects have no key twice, its texts and its keys are any texts. What
is read says the same as what was written, and is the same where the members of every object were
in the order of their keys; a value that nests deeper is not read at all. A payload under another
tag is not read as anything, whatever its bytes are. -/
theorem json_payload_round_trip :
    (∀ v : Value, v.isIntegral = true →
      ((∃ w, (Payload.ofJson v).json? .value = some w ∧ w.Same v) ↔ v.nesting ≤ 127) ∧
      ((Payload.ofJson v).json? .value = none ↔ 127 < v.nesting) ∧
      (v.isOrdered = true →
        ((Payload.ofJson v).json? .value = some v ↔ v.nesting ≤ 127))) ∧
    ∀ (α : Type) (shape : Shape α) (p : Payload), p.format ≠ .json → p.json? shape = none := by
  refine ⟨fun v integral => ⟨⟨?_, fun shallow => ?_⟩, Payload.json?_ofJson_eq_none_iff integral,
    fun ordered => ?_⟩, fun α shape p other => if_neg other⟩
  · rintro ⟨w, read, -⟩
    exact ((Payload.json?_ofJson_eq_some_iff integral).mp read).1
  · exact ⟨v.sorted, (Payload.json?_ofJson_eq_some_iff integral).mpr ⟨shallow, rfl⟩,
      sorted_same integral⟩
  · rw [Payload.json?_ofJson_eq_some_iff integral, sorted_of_isOrdered ordered]
    exact and_iff_left rfl

def nestedArrays : Nat → Value
  | 0 => .null
  | n + 1 => .array [nestedArrays n]

theorem nestedArrays_spec (n : Nat) : (nestedArrays n).isIntegral = true ∧
    (nestedArrays n).isOrdered = true ∧ (nestedArrays n).nesting = n := by
  induction n with
  | zero => exact ⟨rfl, rfl, rfl⟩
  | succ n ih =>
    simp [nestedArrays, isIntegral_array, isOrdered_array, Value.nesting, Value.nestingIn, ih]

/-- Null inside 127 arrays is read back and inside 128 it is not, nor is anything under the tag of
texts. An object whose members are not in order is read as one that says the same. -/
theorem values_at_the_nesting_limit :
    let v : Value := .object [("b", .integer (2 ^ 64 - 1)), ("a", .array [.string "\"\\\n😀"])]
    (nestedArrays 127).isIntegral = true ∧ (nestedArrays 127).isOrdered = true ∧
      (Payload.ofJson (nestedArrays 127)).json? .value = some (nestedArrays 127) ∧
      (nestedArrays 128).isIntegral = true ∧
      (Payload.ofJson (nestedArrays 128)).json? .value = none ∧
      (⟨(nestedArrays 127).bytes, .text⟩ : Payload).json? Shape.value = none ∧
      v.isIntegral = true ∧ v.isOrdered = false ∧
      ∃ w, (Payload.ofJson v).json? .value = some w ∧ w.Same v := by
  intro v
  have integral : v.isIntegral = true := by decide +kernel
  obtain ⟨all, kept, limit⟩ := nestedArrays_spec 127
  obtain ⟨all', -, beyond⟩ := nestedArrays_spec 128
  obtain ⟨back, other⟩ := json_payload_round_trip
  exact ⟨all, kept, ((back _ all).2.2 kept).mpr (Nat.le_of_eq limit), all',
    (back _ all').2.1.mpr (by omega), other _ _ _ (by decide), integral, by decide +kernel,
    (back v integral).1.mpr (by decide +kernel)⟩

end Switchboard
