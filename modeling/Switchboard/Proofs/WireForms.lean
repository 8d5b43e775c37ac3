import Switchboard.Proofs.Spelling
import Switchboard.Wire

/-!
# Messages survive the wire

A shape reads back what a writer writes if every value that is written is exact
and its tree is taken for the value it was written from. The parts of a message
are put together from such pairs of a writer and a shape, field by field, and so
is the message. From that follow what a wire format has to offer: a message is
read as itself, two messages never share a text, and a text that was read once
and written again does not change any more.
-/

namespace Switchboard

open Json

/-- Where each member of a list has a result, the results are those of the members. -/
theorem mapM_eq_some_map {f : α → Option β} {g : α → β} (as : List α)
    (h : ∀ a ∈ as, f a = some (g a)) : as.mapM f = some (as.map g) := by
  induction as with
  | nil => rfl
  | cons a as ih =>
    obtain ⟨here, more⟩ := List.forall_mem_cons.mp h
    simp [here, ih more]

@[simp] theorem Code.ofName?_name (c : Code) : Code.ofName? c.name = some c := by
  cases c <;> rfl

@[simp] theorem Kind.ofName?_name (k : Kind) : Kind.ofName? k.name = some k := by
  cases k <;> rfl

@[simp] theorem Priority.ofName?_name (p : Priority) : Priority.ofName? p.name = some p := by
  cases p <;> rfl

@[simp] theorem PayloadFormat.ofName?_name (f : PayloadFormat) :
    PayloadFormat.ofName? f.name = some f := by
  cases f <;> rfl

theorem Radix.mapM_digit? (k : Radix.Case) {ds : List Nat} (h : ∀ d ∈ ds, d < 16) :
    (ds.map k.digit).mapM Radix.digit? = some ds := by
  simpa [List.mapM_map, Function.comp_def] using
    mapM_eq_some_map (g := id) ds fun d hd => Radix.digit?_digit k (h d hd)

namespace MessageId

theorem ofDigits?_padded (id : MessageId) :
    ofDigits? ((Radix.padded 16 32 id.bits.toNat).map Radix.Case.lower.digit) = some id := by
  have digits :=
    Radix.mapM_digit? .lower (Radix.lt_of_mem_padded (b := 16) (by decide) 32 id.bits.toNat)
  have back := Radix.value_padded 16 32 id.bits.toNat (Nat.lt_of_lt_of_eq id.bits.isLt (by decide))
  simp [ofDigits?, Radix.length_padded, Radix.ofHex?, digits, back]

/-- Five groups joined by hyphens are read as their digits. -/
theorem ofGroups?_join {a b c d e : List Char} (ha : a.length = 8) (hb : b.length = 4)
    (hc : c.length = 4) (hd : d.length = 4) (he : e.length = 12) :
    ofGroups? (a ++ '-' :: b ++ '-' :: c ++ '-' :: d ++ '-' :: e) =
      ofDigits? (a ++ b ++ c ++ d ++ e) := by
  simp [ofGroups?, ha, hb, hc, hd, he, List.drop_append, List.drop_eq_nil_of_le]

/-- The length of a text tells that it is the five groups. -/
theorem ofText?_of_length {s : String} (h : s.toList.length = 36) :
    ofText? s = ofGroups? s.toList := by
  simp only [ofText?, h]
  rfl

/-- **The text of an id is read as the id.** -/
@[simp] theorem ofText?_text (id : MessageId) : ofText? id.text = some id := by
  have digits := ofDigits?_padded id
  have length : ((Radix.padded 16 32 id.bits.toNat).map Radix.Case.lower.digit).length = 32 := by
    rw [List.length_map, Radix.length_padded]
  unfold text
  generalize (Radix.padded 16 32 id.bits.toNat).map Radix.Case.lower.digit = cs
    at digits length ⊢
  have groups : cs.take 8 ++ (cs.drop 8).take 4 ++ (cs.drop 12).take 4 ++ (cs.drop 16).take 4 ++
      cs.drop 20 = cs := by
    rw [← List.take_add, ← List.take_add, ← List.take_add, List.take_append_drop]
  rw [ofText?_of_length (by simp [length]), String.toList_ofList, ofGroups?_join, groups,
    digits] <;> simp [length]

end MessageId

namespace Json

/-! ## Shapes that read back what is written -/

/-- Whatever the writer writes is exact, and the shape takes its tree for what it was written
from. -/
def Shape.Reads (shape : Shape α) (write : α → Value) : Prop :=
  ∀ a, (write a).isExact = true ∧ shape (write a).tree = some a

/-- The text that a writer makes is read back by its shape. -/
theorem Shape.Reads.ofText {shape : Shape α} {write : α → Value} (h : shape.Reads write) (a : α) :
    shape.ofText (write a).text = .ok a := by
  obtain ⟨exact, read⟩ := h a
  rw [Shape.ofText, Shape.ofBytes, ofBytes?_text exact]
  simp only [read]

@[simp] theorem Numeral.int?_ofInt (n : Int) : (Numeral.ofInt n).int? = some n := by
  simp only [Numeral.int?, Numeral.ofInt, Radix.value_digits, List.isEmpty_nil,
    Option.isNone_none, Bool.and_self, if_true, decide_eq_true_eq]
  split
  · rw [if_neg (by omega), Option.some.injEq]
    omega
  · rw [Option.some.injEq]
    omega

/-- A number below the bound is read back. -/
theorem Shape.natural_tree {bound n : Nat} (h : n < bound) :
    Shape.natural bound (Value.integer n).tree = some n := by
  have inside : 0 ≤ (n : Int) ∧ (n : Int) ≤ (bound : Int) - 1 := by omega
  simp only [Shape.natural, Shape.integer, Value.tree, Numeral.int?_ofInt, Option.bind_eq_bind,
    Option.bind_some, if_pos inside]
  rfl

theorem Shape.Reads.octet : Shape.octet.Reads fun b => .integer b.toNat := fun b =>
  ⟨rfl, by simp [Shape.octet, Shape.natural_tree b.toNat_lt]⟩

theorem Shape.Reads.word16 : Shape.word16.Reads fun b => .integer b.toNat := fun b =>
  ⟨rfl, by simp [Shape.word16, Shape.natural_tree b.toNat_lt]⟩

theorem Shape.Reads.word32 : Shape.word32.Reads fun b => .integer b.toNat := fun b =>
  ⟨rfl, by simp [Shape.word32, Shape.natural_tree b.toNat_lt]⟩

theorem Shape.Reads.text : Shape.text.Reads .string := fun s =>
  ⟨rfl, text?_quoted s⟩

theorem Shape.Reads.named {name : α → String} {ofName? : String → Option α}
    (h : ∀ a, ofName? (name a) = some a) : (Shape.named ofName?).Reads fun a => .string (name a) :=
  fun a => ⟨rfl, by simp [Shape.named, Shape.text, Value.tree, h]⟩

theorem Shape.Reads.enumeration {name : α → String} {ofName? : String → Option α}
    (h : ∀ a, ofName? (name a) = some a) :
    (Shape.enumeration ofName?).Reads fun a => .string (name a) :=
  fun a => ⟨rfl, by simp [Shape.enumeration, Value.tree, h]⟩

theorem Shape.Reads.mapM {shape : Shape α} {write : α → Value} (h : shape.Reads write)
    (as : List α) : Value.allExact (as.map write) = true ∧
      (as.map fun a => (write a).tree).mapM shape = some as := by
  constructor
  · induction as with
    | nil => rfl
    | cons a as ih => simp [Value.allExact, (h a).1, ih]
  · simpa [List.mapM_map, Function.comp_def] using
      mapM_eq_some_map (g := id) as fun a _ => (h a).2

theorem Shape.Reads.bytes :
    Shape.bytes.Reads fun bs => .array (bs.data.toList.map fun b => .integer b.toNat) := by
  intro bs
  obtain ⟨exact, read⟩ := Shape.Reads.octet.mapM bs.data.toList
  refine ⟨exact, ?_⟩
  simp only [Value.tree, trees_eq_map, List.map_map, Function.comp_def, Shape.bytes] at read ⊢
  rw [read]
  rfl

/-- A field that may be absent is read back, unless its shape takes null for a value. -/
theorem Shape.Reads.optional {shape : Shape α} {write : α → Value} (h : shape.Reads write)
    (null : shape .null = none) (o : Option α) :
    (Value.ofOption write o).isExact = true ∧
      Shape.optional shape (some (Value.ofOption write o).tree) = some o := by
  cases o with
  | none => exact ⟨rfl, rfl⟩
  | some a =>
    obtain ⟨exact, read⟩ := h a
    refine ⟨exact, ?_⟩
    have value : (write a).tree ≠ .null := by
      intro absent
      rw [absent, null] at read
      cases read
    simp only [Shape.optional, Shape.nullable, Value.ofOption]
    rw [read]
    rfl

/-- The members under their literal keys are found again. -/
theorem Shape.members?_quoted (names : List String) (ms : List (String × Raw))
    (h : ∀ m ∈ ms, m.1 ∈ names) :
    Shape.members? names (ms.map fun m => (.quoted m.1, m.2)) = some ms := by
  induction ms with
  | nil => rfl
  | cons m ms ih =>
    obtain ⟨here, more⟩ := List.forall_mem_cons.mp h
    simp [Shape.members?, ih more, here]

/-- Each of several members with different keys is the field of its key. -/
theorem Shape.field?_of_mem {ms : List (String × Raw)} (distinct : (ms.map Prod.fst).Nodup)
    {m : String × Raw} (h : m ∈ ms) : Shape.field? m.1 ms = some (some m.2) := by
  induction ms with
  | nil => cases h
  | cons n ms ih =>
    obtain ⟨new, distinct⟩ := List.nodup_cons.mp distinct
    rcases List.mem_cons.mp h with rfl | h
    · have once : ms.any (·.1 == m.1) = false := by
        rw [List.any_eq_false]
        intro n hn same
        exact new (List.mem_map.mpr ⟨n, hn, by simpa using same⟩)
      simp [Shape.field?, once]
    · have other : n.1 ≠ m.1 := fun same => new (same ▸ List.mem_map_of_mem h)
      simp [Shape.field?, other, ih distinct h]

/-- **The fields of a record are read back**, in the order in which they are written. -/
theorem Shape.fields_tree (ms : List (String × Value)) (distinct : (ms.map Prod.fst).Nodup) :
    Shape.fields (ms.map Prod.fst) (Value.object ms).tree =
      some (ms.map fun m => some m.2.tree) := by
  have keys : (ms.map fun m => (m.1, m.2.tree)).map Prod.fst = ms.map Prod.fst := by simp
  have members := Shape.members?_quoted (ms.map Prod.fst)
    (ms.map fun m => (m.1, m.2.tree)) (by
      intro m hm
      rw [← keys]
      exact List.mem_map_of_mem hm)
  have found : ∀ m ∈ ms, Shape.field? m.1 (ms.map fun m => (m.1, m.2.tree)) =
      some (some m.2.tree) := fun m hm =>
    Shape.field?_of_mem (keys ▸ distinct) (m := (m.1, m.2.tree)) (List.mem_map.mpr ⟨m, hm, rfl⟩)
  simp only [List.map_map, Function.comp_def] at members
  simp only [Shape.fields, Value.tree, memberTrees_eq_map, members, Option.bind_eq_bind,
    Option.bind_some, List.mapM_map]
  exact mapM_eq_some_map ms found

end Json

/-! ## Messages and their parts -/

theorem Code.reads : Code.shape.Reads Code.toJson := .enumeration Code.ofName?_name

theorem Kind.reads : Kind.shape.Reads Kind.toJson := .enumeration Kind.ofName?_name

theorem Priority.reads : Priority.shape.Reads Priority.toJson :=
  .enumeration Priority.ofName?_name

theorem PayloadFormat.reads : PayloadFormat.shape.Reads PayloadFormat.toJson :=
  .enumeration PayloadFormat.ofName?_name

theorem MessageId.reads : MessageId.shape.Reads MessageId.toJson := .named MessageId.ofText?_text

theorem Address.reads : Address.shape.Reads Address.toJson := by
  intro a
  refine ⟨rfl, ?_⟩
  have fields := Shape.fields_tree [
    ("authority", .string a.authority),
    ("entity_id", .integer a.entityId.toNat),
    ("entity_version_major", .integer a.majorVersion.toNat),
    ("resource_id", .integer a.resourceId.toNat)] (by simp)
  simp only [List.map_cons, List.map_nil] at fields
  simp [Address.shape, Address.toJson, fields, Shape.required, (Shape.Reads.text _).2,
    (Shape.Reads.word32 _).2, (Shape.Reads.octet _).2, (Shape.Reads.word16 _).2]

theorem Payload.reads : Payload.shape.Reads Payload.toJson := by
  intro p
  have data := Shape.Reads.bytes p.data
  have format := PayloadFormat.reads p.format
  have fields := Shape.fields_tree [
    ("data", .array (p.data.data.toList.map fun b => .integer b.toNat)),
    ("format", p.format.toJson)] (by simp)
  simp only [List.map_cons, List.map_nil] at fields
  exact ⟨by simpa [Payload.toJson, Value.isExact, Value.membersExact, format.1] using data.1,
    by simp [Payload.shape, Payload.toJson, fields, Shape.required, data.2, format.2]⟩

theorem Attributes.reads : Attributes.shape.Reads Attributes.toJson := by
  intro a
  have id := MessageId.reads.optional rfl a.id
  have kind := Kind.reads a.kind
  have source := Address.reads.optional rfl a.source
  have sink := Address.reads.optional rfl a.sink
  have priority := Priority.reads a.priority
  have ttl := Shape.Reads.word32.optional rfl a.ttl
  have token := Shape.Reads.text.optional rfl a.token
  have requestId := MessageId.reads.optional rfl a.requestId
  have commStatus := Code.reads.optional rfl a.commStatus
  have commMessage := Shape.Reads.text.optional rfl a.commMessage
  have fields := Shape.fields_tree [
    ("id", .ofOption MessageId.toJson a.id),
    ("message_type", a.kind.toJson),
    ("source", .ofOption Address.toJson a.source),
    ("sink", .ofOption Address.toJson a.sink),
    ("priority", a.priority.toJson),
    ("ttl", .ofOption (fun t => .integer t.toNat) a.ttl),
    ("token", .ofOption .string a.token),
    ("request_id", .ofOption MessageId.toJson a.requestId),
    ("comm_status", .ofOption Code.toJson a.commStatus),
    ("comm_message", .ofOption .string a.commMessage)] (by simp)
  simp only [List.map_cons, List.map_nil] at fields
  constructor
  · simp [Attributes.toJson, Value.isExact, Value.membersExact, id.1, kind.1, source.1, sink.1,
      priority.1, ttl.1, token.1, requestId.1, commStatus.1, commMessage.1]
  · simp [Attributes.shape, Attributes.toJson, fields, Shape.required, id.2, kind.2, source.2,
      sink.2, priority.2, ttl.2, token.2, requestId.2, commStatus.2, commMessage.2]

theorem Message.reads : Message.shape.Reads Message.toJson := by
  intro m
  have attributes := Attributes.reads m.attributes
  have payload := Payload.reads.optional rfl m.payload
  have fields := Shape.fields_tree [
    ("attributes", m.attributes.toJson),
    ("payload", .ofOption Payload.toJson m.payload)] (by simp)
  simp only [List.map_cons, List.map_nil] at fields
  exact ⟨by simp [Message.toJson, Value.isExact, Value.membersExact, attributes.1, payload.1],
    by simp [Message.shape, Message.toJson, fields, Shape.required, attributes.2, payload.2]⟩

/-- A text read as a message and written again. -/
def Message.recode (s : String) : Except Problem String :=
  (Message.shape.ofText s).map fun m => m.toJson.text

/-- **Messages survive the wire.** The text of any message at all is read as that message: whatever
its attributes are and whichever of them are absent, whatever its payload holds, and whether or not
any rules accept it. So two different messages never have the same text, and a text that was read
and written once is not changed by being read and written again. -/
theorem wire_round_trip :
    (∀ m : Message, Message.shape.ofText m.toJson.text = .ok m) ∧
      Function.Injective (fun m : Message => m.toJson.text) ∧
      ∀ s, (Message.recode s).bind Message.recode = Message.recode s := by
  have back := Message.reads.ofText
  refine ⟨back, fun m m' same => ?_, fun s => ?_⟩
  · have both := back m
    rw [show m.toJson.text = m'.toJson.text from same, back m'] at both
    exact (Except.ok.inj both).symm
  · unfold Message.recode
    cases Message.shape.ofText s with
    | error problem => rfl
    | ok m => simp [Except.map, Except.bind, back]

end Switchboard
