import Switchboard.Proofs.Answers
import Switchboard.Proofs.WireForms

/-! # Failures that name an address

A failure that is about a method or a topic names it by its text. Nothing in that text is escaped,
and an authority may hold slashes and digits itself. Still no two addresses have one text: read
from the right, the text falls into three numbers without slashes, and what is left is the
authority. What a failure says around this text begins or ends in a way of its own, so the failure
as a whole names one address as well. Main statement: `texts_name_one_address`.
-/

namespace Switchboard

namespace Radix

variable {k : Case} {m n : Nat}

theorem ofHex?_hex (k : Case) (n : Nat) : ofHex? (hex k n).toList = some n := by
  have small := lt_of_mem_digits (b := 16) (n := n) (by decide)
  rw [hex, String.toList_ofList, ofHex?, mapM_digit? k small, Option.map_some, value_digits]

theorem hex_injective (same : hex k m = hex k n) : m = n := by
  have read := ofHex?_hex k m
  rw [same, ofHex?_hex] at read
  exact (Option.some.inj read).symm

theorem slash_notMem_hex : '/' ∉ (hex k n).toList := by
  intro slash
  rw [hex, String.toList_ofList] at slash
  obtain ⟨d, hd, same⟩ := List.mem_map.mp slash
  have digit := digit?_digit k (lt_of_mem_digits (by decide) d hd)
  rw [same] at digit
  cases digit

end Radix

/-- A list is cut at the first place of a separator in one way. -/
theorem cut_at_first {c : α} {xs ys us vs : List α} (hx : c ∉ xs) (hy : c ∉ ys)
    (same : xs ++ c :: us = ys ++ c :: vs) : xs = ys ∧ us = vs := by
  induction xs generalizing ys with
  | nil =>
    cases ys with
    | nil => exact ⟨rfl, (List.cons.inj same).2⟩
    | cons y ys => exact absurd (List.cons.inj same).1 (List.ne_of_not_mem_cons hy)
  | cons x xs ih =>
    cases ys with
    | nil => exact absurd (List.cons.inj same).1.symm (List.ne_of_not_mem_cons hx)
    | cons y ys =>
      obtain ⟨rfl, rest⟩ := List.cons.inj same
      obtain ⟨rfl, others⟩ :=
        ih (List.not_mem_of_not_mem_cons hx) (List.not_mem_of_not_mem_cons hy) rest
      exact ⟨rfl, others⟩

theorem cut_at_last {c : α} {us vs xs ys : List α} (hx : c ∉ xs) (hy : c ∉ ys)
    (same : us ++ c :: xs = vs ++ c :: ys) : us = vs ∧ xs = ys := by
  have reversed := congrArg List.reverse same
  simp only [List.reverse_append, List.reverse_cons, List.append_assoc,
    List.singleton_append] at reversed
  obtain ⟨last, others⟩ := cut_at_first (by simpa using hx) (by simpa using hy) reversed
  exact ⟨List.reverse_inj.mp others, List.reverse_inj.mp last⟩

namespace Address

theorem toList_text (a : Address) : a.text.toList =
    '/' :: '/' :: a.authority.toList ++ '/' :: (Radix.hex .upper a.entityId.toNat).toList ++
      '/' :: (Radix.hex .upper a.majorVersion.toNat).toList ++
      '/' :: (Radix.hex .upper a.resourceId.toNat).toList := by
  simp [text]

/-- No two addresses have the same text. -/
theorem text_injective : Function.Injective Address.text := by
  intro a b same
  have chars := congrArg String.toList same
  rw [toList_text, toList_text] at chars
  -- one number after the other is cut off at the last slash
  have free : ∀ {n}, '/' ∉ (Radix.hex .upper n).toList := Radix.slash_notMem_hex
  obtain ⟨chars, resource⟩ := cut_at_last free free chars
  obtain ⟨chars, version⟩ := cut_at_last free free chars
  obtain ⟨chars, entity⟩ := cut_at_last free free chars
  simp only [List.cons.injEq, true_and, String.toList_inj] at chars resource version entity
  cases a
  cases b
  simp only [mk.injEq]
  exact ⟨chars, UInt32.toNat_inj.mp (Radix.hex_injective entity),
    UInt8.toNat_inj.mp (Radix.hex_injective version),
    UInt16.toNat_inj.mp (Radix.hex_injective resource)⟩

end Address

/-! ## What is said of an address -/

/-- The ways in which a failure names an address. -/
inductive Mention
  /-- A handler was to be added or removed, but the address is no method. -/
  | notMethod
  /-- A handler was to be added for a method that has one. -/
  | taken
  /-- A handler was to be removed that does not serve the method. -/
  | unregistered
  /-- A call was answered by a server without a handler for the method. -/
  | unserved
  /-- A message was to be posted, but the address is no topic. -/
  | notTopic
  deriving DecidableEq, Repr

namespace Mention

def failure : Mention → Address → Failure
  | notMethod, a => .invalidArgument (a.text ++ " is not an RPC method address")
  | taken, a => .alreadyExists ("a handler is already registered for " ++ a.text)
  | unregistered, a => .notFound ("handler is not registered for " ++ a.text)
  | unserved, a => .remote ⟨.notFound, "no handler registered for " ++ a.text⟩
  | notTopic, a => .invalidArgument (a.text ++ " is not a topic address")

def before : Mention → String
  | notMethod | notTopic => "invalid argument: "
  | taken => "already exists: " ++ "a handler is already registered for "
  | unregistered => "not found: " ++ "handler is not registered for "
  | unserved => "remote error: " ++ (Code.notFound.name ++ ": " ++ "no handler registered for ")

def after : Mention → String
  | notMethod => " is not an RPC method address"
  | notTopic => " is not a topic address"
  | taken | unregistered | unserved => ""

variable {k l : Mention} {a b : Address}

theorem failure_text (k : Mention) (a : Address) :
    (k.failure a).text = k.before ++ a.text ++ k.after := by
  cases k with
  | notMethod | notTopic => exact (String.append_assoc ..).symm
  | taken | unregistered =>
    exact ((String.append_empty ..).trans (String.append_assoc ..)).symm
  | unserved =>
    refine Eq.symm ((String.append_empty ..).trans ((String.append_assoc ..).trans ?_))
    exact congrArg ("remote error: " ++ ·) (String.append_assoc ..)

/-- The first letter of the text, which tells all but two of the ways apart. -/
def initial : Mention → Char
  | notMethod | notTopic => 'i'
  | taken => 'a'
  | unregistered => 'n'
  | unserved => 'r'

theorem head?_failure_text (k : Mention) (a : Address) :
    (k.failure a).text.toList.head? = some k.initial := by
  have letter : k.before.toList.head? = some k.initial := by cases k <;> decide +kernel
  rw [failure_text, String.append_assoc, String.toList_append, List.head?_append, letter,
    Option.some_or]

/-- Of the two ways with one beginning, neither end is a part of the other. -/
theorem eq_of_failure_text (same : (k.failure a).text = (l.failure b).text) : k = l := by
  have letters : k.initial = l.initial := by
    rw [← Option.some.injEq, ← head?_failure_text k a, same, head?_failure_text]
  have ends : k.after.toList <:+ l.after.toList ∨ l.after.toList <:+ k.after.toList := by
    have chars := congrArg String.toList same
    simp only [failure_text, String.toList_append] at chars
    exact List.suffix_or_suffix_of_suffix ⟨_, rfl⟩ ⟨_, chars.symm⟩
  revert letters ends
  cases k <;> cases l <;> first | exact fun _ _ => rfl | decide +kernel

/-- The text of a failure tells what is said, and of which address. -/
theorem failure_text_injective (same : (k.failure a).text = (l.failure b).text) :
    k = l ∧ a = b := by
  obtain rfl := eq_of_failure_text same
  rw [failure_text, failure_text, String.append_left_inj, String.append_right_inj] at same
  exact ⟨rfl, Address.text_injective same⟩

end Mention

/-- The refusals of operations on a method that name no address. -/
def Failure.anonymous : List Failure :=
  [.unavailable "dispatcher is closed",
    .invalidArgument "method address does not match the transport's source address"]

/-- Two slashes follow what stands before an address, but not in a failure that names none. -/
theorem Mention.failure_ne_anonymous (k : Mention) (a : Address) :
    ∀ e ∈ Failure.anonymous, e.text ≠ (k.failure a).text := by
  have letter := k.head?_failure_text a
  have slashes : k.before.toList ++ ['/', '/'] <+: (k.failure a).text.toList := by
    rw [failure_text, String.toList_append, String.toList_append, Address.toList_text]
    exact ⟨_, by simp only [List.append_assoc, List.cons_append, List.nil_append]; rfl⟩
  intro e anonymous same
  rw [← same] at letter slashes
  revert letter slashes
  simp only [Failure.anonymous, List.mem_cons, List.not_mem_nil, or_false] at anonymous
  rcases anonymous with rfl | rfl <;> cases k <;> decide +kernel

/-- What is said of an address: an operation on it is refused, or nobody serves a call to it. -/
inductive Address.Refused (a : Address) : Failure → Prop
  | serve {v : Server} {e : Failure} (refused : v.checkVacant a = .error e) : Refused a e
  | unserve {v : Server} {h : Handler} {e : Failure} (refused : v.unserve a h = .error e) :
    Refused a e
  | post {entity : Address} {resource : UInt16} {e : Failure}
      (topic : entity.atResource resource = a)
      (refused : World.topic entity resource = .error e) : Refused a e
  | call {v : Server} {now : Nat} {request answer : Message} {draft : Draft} {fresh : MessageId}
      {e : Failure} (sink : request.attributes.sink = some a)
      (judged : v.judge now request = .unserved draft)
      (sent : draft.finish fresh none = .ok answer) (told : answer.outcome = .error e) :
    Refused a e

namespace Server

variable {v : Server} {a : Address} {e : Failure} {now : Nat} {m : Message} {draft : Draft}

theorem checkMethod_eq_error (refused : v.checkMethod a = .error e) :
    e ∈ Failure.anonymous ∨ e = Mention.failure .notMethod a := by
  unfold checkMethod at refused
  split at refused
  · cases refused
    exact .inr rfl
  · split at refused <;> cases refused
    exact .inl (by simp [Failure.anonymous])

theorem checkVacant_eq_error (refused : v.checkVacant a = .error e) :
    e ∈ Failure.anonymous ∨ ∃ k : Mention, e = k.failure a := by
  unfold checkVacant at refused
  split at refused
  · cases refused
    exact .inl (by simp [Failure.anonymous])
  · split at refused
    · rename_i checked
      cases refused
      exact (checkMethod_eq_error checked).imp_right fun named => ⟨_, named⟩
    · split at refused <;> cases refused
      exact .inr ⟨.taken, rfl⟩

theorem unserve_eq_error {h : Handler} (refused : v.unserve a h = .error e) :
    e ∈ Failure.anonymous ∨ ∃ k : Mention, e = k.failure a := by
  unfold unserve at refused
  split at refused
  · rename_i checked
    cases refused
    exact (checkMethod_eq_error checked).imp_right fun named => ⟨_, named⟩
  · split at refused <;> cases refused
    exact .inr ⟨.unregistered, rfl⟩

/-- The answer to a request that nobody serves is about the method that the request names. -/
theorem unserved_of_judge (judged : v.judge now m = .unserved draft) :
    ∃ method, m.attributes.sink = some method ∧ draft = unservedAnswer m.attributes method := by
  obtain ⟨request, valid, -, -, rfl⟩ := judge_eq_unserved judged
  -- a valid request has a sink, so no address stands in for it
  obtain ⟨method, sink⟩ := Option.isSome_iff_exists.mp (Attributes.valid_request request valid).2.1
  exact ⟨method, sink, by rw [sink, Option.getD_some]⟩

theorem commMessage_unservedAnswer (request : Attributes) (method : Address) :
    (unservedAnswer request method).attributes.commMessage =
      some ("no handler registered for " ++ method.text) := by
  simp [unservedAnswer, Draft.set]

end Server

/-- Whatever is refused, its failure names it or is one of those that name nothing. -/
theorem Address.Refused.names {a : Address} {e : Failure} (h : a.Refused e) :
    e ∈ Failure.anonymous ∨ ∃ k : Mention, e = k.failure a := by
  cases h with
  | serve refused => exact Server.checkVacant_eq_error refused
  | unserve refused => exact Server.unserve_eq_error refused
  | post topic refused =>
    subst topic
    simp only [World.topic] at refused
    split at refused <;> cases refused
    exact .inr ⟨.notTopic, rfl⟩
  | call sink judged sent told =>
    obtain ⟨method, sink', rfl⟩ := Server.unserved_of_judge judged
    obtain rfl := Option.some.inj (sink.symm.trans sink')
    obtain ⟨rfl, -⟩ := Draft.finish_ok sent
    rw [Message.outcome_of_commStatus .notFound ("no handler registered for " ++ a.text) rfl rfl]
      at told
    exact .inr ⟨.unserved, (Except.error.inj told).symm⟩

/-- **A text that names an address names no other one.** No two addresses have the same text,
whatever their authorities and numbers are. Where adding or removing a handler, posting or calling
fails, the text of the failure holds that of the address, unless it names none at all, and no
failure about another address has this text. And of two requests that nobody serves, the same is
only told if they were sent to the same method. -/
theorem texts_name_one_address :
    (∀ a b : Address, a.text = b.text → a = b) ∧
    (∀ (a : Address) (e : Failure), a.Refused e → e ∉ Failure.anonymous →
      (∃ before after, e.text = before ++ a.text ++ after) ∧
      ∀ (b : Address) (f : Failure), b.Refused f → f.text = e.text → b = a) ∧
    ∀ (v v' : Server) (now now' : Nat) (m m' : Message) (d d' : Draft),
      v.judge now m = .unserved d → v'.judge now' m' = .unserved d' →
      d.attributes.commMessage = d'.attributes.commMessage →
      ∃ method, m.attributes.sink = some method ∧ m'.attributes.sink = some method := by
  refine ⟨fun a b => (Address.text_injective ·), fun a e refused named => ?_, ?_⟩
  · obtain ⟨k, rfl⟩ := refused.names.resolve_left named
    refine ⟨⟨_, _, k.failure_text a⟩, fun b f refused' same => ?_⟩
    rcases refused'.names with anonymous | ⟨l, rfl⟩
    · exact absurd same (k.failure_ne_anonymous a f anonymous)
    · exact (Mention.failure_text_injective same).2
  · intro v v' now now' m m' d d' judged judged' same
    obtain ⟨method, sink, rfl⟩ := Server.unserved_of_judge judged
    obtain ⟨method', sink', rfl⟩ := Server.unserved_of_judge judged'
    rw [Server.commMessage_unservedAnswer, Server.commMessage_unservedAnswer, Option.some.injEq,
      String.append_right_inj] at same
    obtain rfl := Address.text_injective same
    exact ⟨method, sink, sink'⟩

/-- An authority that looks like the end of another text, in a server without handlers: both the
removal of a handler and a call name the method, and none but the method. -/
theorem method_with_slashes_is_named :
    let method : Address := ⟨"car/1F/2", 0x1FFFF, 3, 7⟩
    let v : Server := .onLink 0 method
    let h : Handler := { key := 0, delay := 0, run := fun _ => .returned none }
    let e : Failure := .notFound "handler is not registered for //car/1F/2/1FFFF/3/7"
    let m : Message := ⟨{
      id := some (.stamped 1 0), kind := .request, source := some ⟨"", 1, 1, 0⟩,
      sink := some method, priority := .interactive, ttl := some 1000 }, none⟩
    let d : Draft := Server.unservedAnswer m.attributes method
    v.unserve method h = .error e ∧ e ∉ Failure.anonymous ∧ v.judge 1 m = .unserved d ∧
      (∀ (b : Address) (f : Failure), b.Refused f → f.text = e.text → b = method) ∧
      ∀ (v' : Server) (now' : Nat) (m' : Message) (d' : Draft), v'.judge now' m' = .unserved d' →
        d'.attributes.commMessage = d.attributes.commMessage →
        m'.attributes.sink = some method := by
  intro method v h e m d
  have text : method.text = "//car/1F/2/1FFFF/3/7" := by decide +kernel
  have refused : v.unserve method h = .error e := by
    have own : v.checkMethod method = .ok () := by decide +kernel
    rw [Server.unserve, own, text]
    rfl
  have named : e ∉ Failure.anonymous := by decide +kernel
  have judged : v.judge 1 m = .unserved d := rfl
  obtain ⟨-, refusals, answers⟩ := texts_name_one_address
  refine ⟨refused, named, judged, (refusals method e (.unserve refused) named).2, ?_⟩
  intro v' now' m' d' judged' same
  obtain ⟨a, sink', sink⟩ := answers v' v now' 1 m' m d' d judged' judged same
  exact sink'.trans sink.symm

end Switchboard
