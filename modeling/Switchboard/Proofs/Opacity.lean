import Switchboard.Proofs.Lockstep
import Switchboard.Proofs.Traffic

/-! # Tokens and payloads are opaque

Neither the hub nor an engine looks at a token or a payload. What is left of a run when they are
veiled says so: runs that look the same under the veil are possible together and go the same way,
as long as no handler chooses the kind of its result by them. That they are veiled alike is a
likeness (`veil`), so the runs are in lockstep. Nor does a token come back: what a server answers
is drafted from a request without its token. Main statement: `tokens_and_payloads_unseen`.
-/

namespace Switchboard

/-- The message without its token and its payload. -/
def Message.veiled (m : Message) : Message := ⟨{ m.attributes with token := none }, none⟩

def Draft.veiled (d : Draft) : Draft := ⟨{ d.attributes with token := none }⟩

def SendOptions.veiled (o : SendOptions) : SendOptions := { o with token := none }

def CallOptions.veiled (o : CallOptions) : CallOptions := { o with token := none }

def veiledOutcome (o : Except Failure Payload) : Except Failure Payload := o.map fun _ => .empty

/-- The operation without the tokens and payloads of its messages. That a payload has no JSON form
shows through the veil. -/
def Operation.veiled : Operation → Operation
  | send l m => send l m.veiled
  | publish l resource _ options => publish l resource none options.veiled
  | notify l resource destination _ options => notify l resource destination none options.veiled
  | call i method payload options => call i method (payload.map fun _ => none) options.veiled
  | o => o

def World.Command.veiled : World.Command → World.Command
  | invoke i method _ options => invoke i method none options.veiled
  | enter o => enter o.veiled
  | spawn o => spawn o.veiled
  | c => c

def Act.veiled : Act → Act
  | command c => command c.veiled
  | inbound l m => inbound l m.veiled
  | a => a

def Cause.veiled : Cause → Cause
  | answered m => answered m.veiled
  | c => c

def Event.veiled : Event → Event
  | sent l m => sent l m.veiled
  | delivered l m => delivered l m.veiled
  | unexpected i m => unexpected i m.veiled
  | handled s key m => handled s key m.veiled
  | answered s r m => answered s r.veiled m.veiled
  | ended i id c => ended i id c.veiled
  | resolved t o => resolved t (veiledOutcome o)
  | e => e

def Call.veiled (c : Call) : Call := { c with outcome := c.outcome.map veiledOutcome }

/-- Whether the handler fails, and with which status, does not depend on tokens and payloads. -/
def Handler.IsBlind (h : Handler) : Prop :=
  ∀ m m', m.veiled = m'.veiled → (h.run m).failure? = (h.run m').failure?

/-- Under the veil the worlds are the same: they are in step, and the calls and all that happened
are the same up to tokens and payloads. -/
structure World.Matches (w v : World) : Prop extends w.InStep v where
  calls : ∀ k, (v.calls.get? k).map Call.veiled = (w.calls.get? k).map Call.veiled
  events : v.events.map (fun x => (x.1, x.2.veiled)) = w.events.map fun x => (x.1, x.2.veiled)

/-! ## What engines draft under the veil -/

theorem SendOptions.veiled_apply (o : SendOptions) (d : Draft) :
    (o.veiled.apply d).veiled = (o.apply d).veiled := by
  obtain ⟨priority, ttl, _ | token⟩ := o <;> rfl

theorem CallOptions.veiled_draft (o : CallOptions) (c : Caller) (method : Address)
    (id : MessageId) : (c.draft method o.veiled id).veiled = (c.draft method o id).veiled := by
  obtain ⟨timeout, priority, _ | token⟩ := o <;> rfl

theorem Draft.finish_veiled {d d' : Draft} (same : d.veiled = d'.veiled) (fresh : MessageId)
    (payload payload' : Option Payload) :
    Finishes (fun m m' => m.veiled = m'.veiled) (d.finish fresh payload)
      (d'.finish fresh payload') := by
  have frame : d.attributes.frame = d'.attributes.frame :=
    show d.veiled.attributes.frame = d'.veiled.attributes.frame by rw [same]
  have finished : (⟨d.veiled.identified fresh, none⟩ : Message) =
      ⟨d'.veiled.identified fresh, none⟩ := by rw [same]
  unfold finish
  rw [← validate_congr frame fresh]
  cases (d.identified fresh).validate with
  | ok _ => exact .ok finished
  | error e => exact .error _

/-- The status of an answer depends on the failure alone. -/
theorem Ending.draft_eq (e : Ending) (a : Attributes) : (e.answer a).1 =
    match e.failure? with
    | none => Draft.answer a
    | some s => (Draft.answer a).set (.commStatus s.code s.message) := by
  cases e <;> rfl

theorem Message.outcome_veiled (m : Message) :
    veiledOutcome m.veiled.outcome = veiledOutcome m.outcome := by
  obtain ⟨⟨_, _, _, _, _, _, _, _, status, text⟩, payload⟩ := m
  cases status with
  | none => rfl
  | some code => cases code <;> rfl

theorem Message.frame_of_veiled {m m' : Message} (same : m.veiled = m'.veiled) :
    m.frame = m'.frame :=
  show m.veiled.frame = m'.veiled.frame by rw [same]

/-- Messages that are the same under the veil may stand for each other. -/
def veil : Likeness where
  message m m' := m.veiled = m'.veiled
  outcome _ o o' := veiledOutcome o = veiledOutcome o'
  handler := Handler.IsBlind
  message_refl _ := rfl
  outcome_refl _ _ := rfl
  frame := Message.frame_of_veiled
  answers {m m' _} same _ := by
    rw [← m.outcome_veiled, ← m'.outcome_veiled, same]
  handled {h m m'} fresh blind same _ := by
    have draft : ((h.run m).answer m.attributes).1 = ((h.run m').answer m'.attributes).1 := by
      rw [← Ending.answer_congr _ (Message.frame_of_veiled same), Ending.draft_eq, Ending.draft_eq,
        blind m m' same]
    exact Draft.finish_veiled (congrArg Draft.veiled draft) fresh _ _

theorem SendOptions.posts_of_veiled {o o' : SendOptions} (same : o.veiled = o'.veiled)
    (draft : Address → Draft) (payload payload' : Option Payload) :
    veil.Posts draft payload payload' o o' := by
  refine fun topic fresh => Draft.finish_veiled ?_ fresh payload payload'
  rw [← veiled_apply, same, veiled_apply]

theorem CallOptions.asks_of_veiled {o o' : CallOptions} (same : o.veiled = o'.veiled)
    (method : Address) (payload payload' : Option Payload) :
    veil.Asks method payload payload' o o' := by
  refine ⟨(congrArg CallOptions.timeout same).symm, fun c id => ?_⟩
  refine Draft.finish_veiled ?_ id payload payload'
  rw [← veiled_draft, same, veiled_draft]

theorem Operation.alike_of_veiled {o o' : Operation} (same : o.veiled = o'.veiled)
    (blind : ∀ h, o.handler? = some h → h.IsBlind) : o.Alike veil o' := by
  cases o <;> cases o' <;> simp only [veiled, reduceCtorEq] at same
  case send.send l m l' m' =>
    obtain ⟨rfl, like⟩ := send.inj same
    exact .send l like
  case publish.publish l resource payload options l' resource' payload' options' =>
    obtain ⟨rfl, rfl, -, like⟩ := publish.inj same
    exact .publish l resource (SendOptions.posts_of_veiled like _ _ _)
  case notify.notify l resource destination payload options l' resource' destination' payload'
      options' =>
    obtain ⟨rfl, rfl, rfl, -, like⟩ := notify.inj same
    exact .notify l resource destination (SendOptions.posts_of_veiled like _ _ _)
  case call.call i method payload options i' method' payload' options' =>
    obtain ⟨rfl, rfl, encoded, like⟩ := call.inj same
    cases payload <;> cases payload' <;> cases encoded
    · exact .unencoded i method _ options options'
    · exact .call i method (CallOptions.asks_of_veiled like _ _ _)
  -- what carries no message is the same without the veil
  all_goals
    cases same
    exact .refl blind

theorem World.Command.alike_of_veiled {c c' : World.Command} (same : c.veiled = c'.veiled)
    (blind : ∀ h, (Act.command c).handler? = some h → h.IsBlind) : c.Alike veil c' := by
  cases c <;> cases c' <;> simp only [veiled, reduceCtorEq] at same
  case invoke.invoke i method payload options i' method' payload' options' =>
    obtain ⟨rfl, rfl, -, like⟩ := invoke.inj same
    exact .invoke i method (CallOptions.asks_of_veiled like _ _ _)
  case enter.enter o o' => exact .enter (Operation.alike_of_veiled (enter.inj same) blind)
  case spawn.spawn o o' => exact .spawn (Operation.alike_of_veiled (spawn.inj same) blind)
  all_goals
    cases same
    exact .refl blind

theorem Act.alike_of_veiled {a b : Act} (same : a.veiled = b.veiled)
    (blind : ∀ h, a.handler? = some h → h.IsBlind) : a.Alike veil b := by
  cases a <;> cases b <;> simp only [veiled, reduceCtorEq] at same
  case command.command c c' =>
    exact .command (World.Command.alike_of_veiled (command.inj same) blind)
  case inbound.inbound l m l' m' =>
    obtain ⟨rfl, like⟩ := inbound.inj same
    exact .inbound l like
  all_goals
    cases same
    exact .refl blind

/-- Acts that are the same under the veil one by one are alike one by one. -/
theorem forall₂_alike_of_veiled {as bs : List Act} (same : as.map Act.veiled = bs.map Act.veiled)
    (blind : ∀ a ∈ as, ∀ h, a.handler? = some h → h.IsBlind) :
    List.Forall₂ (Act.Alike veil) as bs := by
  induction as generalizing bs with
  | nil =>
    obtain rfl := List.map_eq_nil_iff.mp same.symm
    exact .nil
  | cons a as ih =>
    obtain ⟨b, bs, rfl, first, rest⟩ := List.map_eq_cons_iff.mp same.symm
    exact .cons (Act.alike_of_veiled first.symm (blind a List.mem_cons_self))
      (ih rest.symm fun a ha => blind a (List.mem_cons_of_mem _ ha))

theorem Event.Alike.veiled {e e' : Event} (like : e.Alike Switchboard.veil e') :
    e'.veiled = e.veiled := by
  cases like with
  | sent l like => exact congrArg (Event.sent l) like.symm
  | delivered l like => exact congrArg (Event.delivered l) like.symm
  | unexpected i like => exact congrArg (Event.unexpected i) like.symm
  | handled s key request like => exact congrArg (Event.handled s key) like.symm
  | answered s request asked like => exact congrArg₂ (Event.answered s) asked.symm like.symm
  | ended i id like =>
    cases like with
    | answered like => exact congrArg (fun m => Event.ended i id (.answered m)) like.symm
    | _ => rfl
  | resolved t id like => exact congrArg (Event.resolved t) like.symm
  | _ => rfl

theorem Call.Alike.veiled {x y : Call} (like : x.Alike Switchboard.veil y) :
    y.veiled = x.veiled := by
  obtain ⟨caller, id, outcome, waiter⟩ := x
  obtain ⟨caller', id', outcome', waiter'⟩ := y
  obtain ⟨rfl, rfl, same, rfl⟩ := like
  cases same with
  | none => rfl
  | some same => exact congrArg (fun o => Call.mk caller' id' (some o) waiter') same.symm

theorem World.Alike.matched {w v : World} (h : w.Alike veil v) : w.Matches v where
  toInStep := h.inStep
  calls k := by
    rcases h.calls.get? k with ⟨hw, hv⟩ | ⟨x, y, hw, hv, like⟩
    · rw [hw, hv]
    · rw [hw, hv]
      exact congrArg some like.veiled
  events := by
    have same := h.events
    generalize w.events = es at same ⊢
    generalize v.events = es' at same ⊢
    induction same with
    | nil => rfl
    | cons first _ ih => exact congrArg₂ List.cons (Prod.ext first.1 first.2.veiled) ih

/-- No answer carries a token. -/
theorem Message.IsAnswerTo.no_token {m r : Message} (h : m.IsAnswerTo r) :
    m.attributes.isResponse = true ∧ m.attributes.token = none := by
  obtain ⟨fresh, draft, payload, finish, made⟩ := h
  obtain ⟨rfl, -⟩ := Draft.finish_ok finish
  rcases made with ⟨h, made⟩ | made
  · obtain ⟨rfl, -⟩ := Prod.mk.inj made
    cases h.run r <;> exact ⟨rfl, rfl⟩
  · obtain ⟨rfl, -⟩ := Prod.mk.inj made
    exact ⟨rfl, rfl⟩

/-- What servers answer are answers, whatever else reaches the engines. -/
theorem World.answers_kept :
    Kept (fun _ _ => True) fun a => ∀ s r m, a.2.Has (.answered s r m) → m.IsAnswerTo r where
  outset _ ho _ before s r m answered := before s r m (ho.answers answered)
  move _ hm before s r m answered := by
    rcases hm.answers answered with old | ⟨w, t, j, es, draft, payload, -, replies, finish⟩
    · exact before s r m old
    · exact replies.isAnswerTo finish

/-! ## Runs under the veil -/

/-- **Tokens and payloads are unseen.** Take two runs that are the same under the veil, with
handlers that do not choose by tokens and payloads whether and how they fail. If one is possible,
so is the other, and under the veil they lead to the same world: the same listeners, pending calls
and handlers, the same messages sent, delivered and reported in the same order, the same kind of
outcome for every call. And no answer of a server carries a token, whatever its handlers do. -/
theorem tokens_and_payloads_unseen {w : World} (new : w.IsNew) {as : List Act}
    (run : w.CanRun as) :
    (∀ bs, as.map Act.veiled = bs.map Act.veiled →
      (∀ a ∈ as, ∀ h, a.handler? = some h → h.IsBlind) →
      w.CanRun bs ∧ (w.after as).Matches (w.after bs)) ∧
    ∀ s r m, (w.after as).Has (.answered s r m) →
      m.attributes.isResponse = true ∧ m.attributes.token = none := by
  refine ⟨fun bs same blind => ?_, fun s r m answered => ?_⟩
  · obtain ⟨run', alike⟩ := (World.Alike.new new).after (.new new) (.new new) run
      (forall₂_alike_of_veiled same blind)
    exact ⟨run', alike.matched⟩
  · have none : ∀ s r m, w.Has (.answered s r m) → m.IsAnswerTo r := by
      obtain ⟨wall, ids, rfl⟩ := new
      rintro s r m ⟨τ, ⟨⟩⟩
    have answers := (World.answers_kept.run run (Along.of_forall fun _ _ _ => trivial) (.new new)
      none).2
    exact (answers s r m answered).no_token

/-- A call with a token and its double without one, each with a text of its own, that a handler
sends back: the runs match, the texts come back, and the token does not. -/
theorem token_not_sent_back :
    let ids : MessageId.Source := { issue := fun n => .stamped 1 (BitVec.ofNat 74 n) }
    let method : Address := ⟨"shop", 16, 1, 7⟩
    let echo : Handler := ⟨0, 0, fun m => .returned m.payload⟩
    let w : World := { wall := 0, ids := ids }
    let asked (text : String) (token : Option String) : List Act :=
      [.command (.addLink ⟨"shop", 16, 1, 0⟩), .command (.addServer 0),
        .command (.enter (.serve 0 method echo)), .command (.addLink ⟨"till", 32, 1, 0⟩),
        .command (.addCaller 1 false),
        .command (.invoke 0 method (some (.ofText text))
          { CallOptions.standard with token := token }), .turn 2, .turn 3, .turn 4]
    let as := asked "a" (some "open")
    let bs := asked "b" none
    w.IsNew ∧ w.CanRun as ∧ as.map Act.veiled = bs.map Act.veiled ∧
      (∀ a ∈ as, ∀ h, a.handler? = some h → h.IsBlind) ∧ w.CanRun bs ∧
      (w.after as).Matches (w.after bs) ∧
      (((w.after as).calls.get? 0).bind (·.outcome)).bind Except.toOption = some (.ofText "a") ∧
      (((w.after bs).calls.get? 0).bind (·.outcome)).bind Except.toOption = some (.ofText "b") ∧
      ∃ r m, (w.after as).Has (.answered 0 r m) ∧ r.attributes.token = some "open" ∧
        m.attributes.token = none := by
  intro ids method echo w asked as bs
  have new : w.IsNew := ⟨0, ids, rfl⟩
  have run : w.CanRun as := by decide +kernel
  have same : as.map Act.veiled = bs.map Act.veiled := rfl
  have blind : ∀ a ∈ as, ∀ h, a.handler? = some h → h.IsBlind := by
    intro a ha h adds
    obtain rfl : h = echo := List.mem_singleton.mp (List.mem_filterMap.mpr ⟨a, ha, adds⟩)
    exact fun m m' _ => rfl
  have key := tokens_and_payloads_unseen new run
  obtain ⟨run', matched⟩ := key.1 bs same blind
  let asks : Nat × Event → Option (Message × Message)
    | (_, .answered 0 r m) => if r.attributes.token = some "open" then some (r, m) else none
    | _ => none
  have answers : ((w.after as).events.findSome? asks).isSome = true := by decide +kernel
  obtain ⟨⟨r, m⟩, found⟩ := Option.isSome_iff_exists.mp answers
  obtain ⟨⟨τ, e⟩, happened, is⟩ := List.exists_of_findSome?_eq_some found
  simp only [asks] at is
  split at is
  · rename_i event
    obtain ⟨rfl, rfl⟩ := Prod.mk.inj event
    split at is <;> cases is
    rename_i token
    have answered : (w.after as).Has (.answered 0 r m) := ⟨_, happened⟩
    exact ⟨new, run, same, blind, run', matched, by decide +kernel, by decide +kernel, r, m,
      answered, token, (key.2 0 r m answered).2⟩
  · cases is

end Switchboard
