import Switchboard.Validation

/-! # What is said of a message that breaks the rules

The rules of a kind are checks in a fixed order, each with a text of its own. A message
is refused just when it fails a check, and the reason joins the texts of the checks that
it fails by commas. No text has a comma in it, so the reason can be taken apart again:
its pieces are the failed checks, in the order of the checks, and no two of them are the
same. Main statement: `failed_checks_are_told`.
-/

namespace Switchboard

section Joined

open String.Slice.Pattern.Model

variable {separator : String} {c : Char} {r : List Char} {s : String.Slice} {p q : s.Pos}
  {x t y : String}

theorem copy_subslice (le : p ≤ q) (hp : p.Splits x (t ++ y)) (hq : q.Splits (x ++ t) y) :
    (s.subslice p q le).copy = t := by
  obtain ⟨_, same⟩ := String.Slice.copy_slice_eq_iff_splits.mpr ⟨x, y, hp, hq⟩
  simpa [String.Slice.Subslice.copy_eq] using same

theorem not_matchesAt_of_notMem (starts : separator.toList = c :: r) (free : c ∉ t.toList)
    (hp : p.Splits x (t ++ y)) (hq : q.Splits (x ++ t) y) {p' : s.Pos} (le : p ≤ p')
    (lt : p' < q) : ¬MatchesAt separator p' := by
  intro found
  obtain ⟨x', y', hp'⟩ := ForwardStringSearcher.matchesAt_iff_splits.mp found
  obtain ⟨t₁, rfl, -⟩ := (hp.le_iff_exists_eq_append hp').mp le
  obtain ⟨t₂, nonempty, parts, begins⟩ := (hp'.lt_iff_exists_eq_append hq).mp lt
  have rest : t = t₁ ++ t₂ := by
    rw [String.append_assoc] at parts
    exact (String.append_right_inj x).mp parts
  obtain ⟨d, ds, hd⟩ : ∃ d ds, t₂.toList = d :: ds :=
    List.exists_cons_of_ne_nil (by simpa using nonempty)
  -- what is left of the text begins as the separator does
  have first := congrArg String.toList begins
  simp only [String.toList_append, starts, hd, List.cons_append, List.cons.injEq] at first
  exact free (by simp [rest, hd, first.1])

/-- The pieces of a joined text, wherever in a longer text it stands last. -/
theorem split_from [StrictPatternModel separator] (starts : separator.toList = c :: r)
    {ts : List String} (free : ∀ u ∈ t :: ts, c ∉ u.toList)
    (hp : p.Splits x (separator.intercalate (t :: ts))) :
    (String.Slice.Pattern.Model.split separator p p (String.Slice.Pos.le_refl p)).map
      String.Slice.Subslice.copy = t :: ts := by
  induction ts generalizing t p x with
  | nil =>
    rw [String.intercalate_singleton] at hp
    have hq : s.endPos.Splits (x ++ t) "" := hp.eq_append ▸ s.splits_endPos
    have hp : p.Splits x (t ++ "") := by simpa using hp
    have le := (hp.le_iff_exists_eq_append hq).mpr ⟨t, rfl, rfl⟩
    rw [split_eq_of_not_matchesAt s.endPos le fun _ =>
      not_matchesAt_of_notMem starts (free t List.mem_cons_self) hp hq, split_endPos,
      List.map_singleton, copy_subslice le hp hq]
  | cons u ts ih =>
    rw [String.intercalate_cons_cons, String.append_assoc] at hp
    obtain ⟨q, hq⟩ : ∃ q : s.Pos,
        q.Splits (x ++ t) (separator ++ separator.intercalate (u :: ts)) :=
      ⟨_, String.Slice.Pos.splits_ofEqAppend (by simp [hp.eq_append, String.append_assoc])⟩
    obtain ⟨q', hq'⟩ : ∃ q' : s.Pos,
        q'.Splits (x ++ t ++ separator) (separator.intercalate (u :: ts)) :=
      ⟨_, String.Slice.Pos.splits_ofEqAppend (by simp [hp.eq_append, String.append_assoc])⟩
    have le := (hp.le_iff_exists_eq_append hq).mpr ⟨t, rfl, rfl⟩
    have found : IsLongestMatchAt separator q q' :=
      ForwardStringSearcher.isLongestMatchAt_iff_splits.mpr ⟨_, _, hq, hq'⟩
    rw [split_eq_of_not_matchesAt q le fun _ =>
      not_matchesAt_of_notMem starts (free t List.mem_cons_self) hp hq,
      split_eq_of_isLongestMatchAt found, List.map_cons, copy_subslice le hp hq,
      ih (fun v hv => free v (List.mem_cons_of_mem _ hv)) hq']

theorem split_intercalate (starts : separator.toList = c :: r) {ts : List String}
    (nonempty : ts ≠ []) (free : ∀ u ∈ ts, c ∉ u.toList) :
    ((separator.intercalate ts).split separator).toList.map String.Slice.copy = ts := by
  have separates : separator ≠ "" := by
    rintro rfl
    cases starts
  have := ForwardStringSearcher.strictPatternModel separates
  have := ForwardStringSearcher.lawfulToForwardSearcherModel separates
  obtain ⟨t, ts, rfl⟩ := List.exists_cons_of_ne_nil nonempty
  have start : (separator.intercalate (t :: ts)).toSlice.startPos.Splits ""
      (separator.intercalate (t :: ts)) := by simp
  have pieces := split_from starts free start
  rw [String.split_eq_split_toSlice, String.Slice.toList_split_eq_splitToSubslice,
    String.Slice.Pattern.toList_splitToSubslice_eq_modelSplit, List.map_map]
  simpa [String.Slice.Subslice.copy_eq] using pieces

end Joined

/-- The text of an id is made of digits and hyphens. -/
theorem MessageId.comma_notMem_text (id : MessageId) : ',' ∉ id.text.toList := by
  have free : ',' ∉ (Radix.padded 16 32 id.bits.toNat).map Radix.Case.lower.digit := by
    intro comma
    obtain ⟨d, hd, same⟩ := List.mem_map.mp comma
    have none : ∀ m : Fin 16, Radix.Case.lower.digit m ≠ ',' := by decide
    exact none ⟨d, Radix.lt_of_mem_padded (by decide) _ _ d hd⟩ same
  rw [text, String.toList_ofList]
  generalize (Radix.padded 16 32 id.bits.toNat).map Radix.Case.lower.digit = cs at free
  have taken : ∀ n, ',' ∉ cs.take n := fun n comma => free (List.mem_of_mem_take comma)
  have dropped : ∀ n, ',' ∉ cs.drop n := fun n comma => free (List.mem_of_mem_drop comma)
  have between : ∀ m n, ',' ∉ (cs.drop m).take n := fun m n comma =>
    dropped m (List.mem_of_mem_take comma)
  simp [taken, dropped, between]

theorem MessageId.isValid_eq_any (id : MessageId) : id.isValid = id.millis?.any (0 < ·) := by
  cases millis : id.millis? <;> simp [isValid, millis]

/-! ## Checks -/

/-- A check: whether a message passes it, and what is said if it does not. -/
structure Check where
  passed : Bool
  complaint : String
  deriving DecidableEq, Repr

def Check.report (c : Check) : List String := if c.passed then [] else [c.complaint]

theorem Check.eq_of_mem_report {c : Check} {u : String} (told : u ∈ c.report) :
    u = c.complaint := by
  unfold report at told
  split at told
  · cases told
  · exact List.mem_singleton.mp told

namespace Attributes

variable (a : Attributes)

/-- The message has an id, and the id says that it was made after the start of 1970. -/
def idCheck : Check :=
  match a.id with
  | none => ⟨false, "Missing id"⟩
  | some id => ⟨id.millis?.any (0 < ·), "Invalid id [" ++ id.text ++ "]: no timestamp"⟩

def ttlCheck : Check :=
  match a.ttl with
  | none => ⟨false, "Missing TTL"⟩
  | some ttl => ⟨0 < ttl, "TTL must be greater than zero"⟩

def commonChecks : List Check :=
  [a.idCheck, ⟨a.source.isSome, "Missing source"⟩,
    ⟨a.priority != .unspecified, "Invalid priority"⟩]

def kindChecks : List Check :=
  match a.kind with
  | .unspecified => []
  | .publish => [⟨a.sink.isNone, "Publish message must not have a sink"⟩]
  | .request => [⟨a.sink.isSome, "Missing sink (method address)"⟩, a.ttlCheck]
  | .response =>
    [⟨a.sink.isSome, "Missing sink (reply-to address)"⟩,
      ⟨a.requestId.isSome, "Missing request id"⟩]
  | .notification =>
    [⟨a.sink.isSome, "Missing sink"⟩,
      ⟨a.requestId.isNone, "Notification must not have a request id"⟩]

/-- All checks that a message is put to, in their order. -/
def checks : List Check := a.commonChecks ++ a.kindChecks

/-- What the checks say that a message fails. -/
def complaints : List String := (a.checks.filter fun c => !c.passed).map Check.complaint

/-- The message obeys the rules of its kind; for messages of unspecified kind there are none. -/
def IsWellFormed : Prop :=
  (∃ id ms, a.id = some id ∧ id.millis? = some ms ∧ 0 < ms) ∧ a.source.isSome ∧
    a.priority ≠ .unspecified ∧
    match a.kind with
    | .unspecified => False
    | .publish => a.sink = none
    | .request => a.sink.isSome ∧ ∃ ttl, a.ttl = some ttl ∧ 0 < ttl
    | .response => a.sink.isSome ∧ a.requestId.isSome
    | .notification => a.sink.isSome ∧ a.requestId = none

variable {a}

theorem complaints_eq_flatMap : a.complaints = a.checks.flatMap Check.report := by
  unfold complaints
  induction a.checks with
  | nil => rfl
  | cons c cs ih => cases passed : c.passed <;> simp [Check.report, passed, ih]

theorem text_flag (broken : Bool) (d : Defect) :
    (flag broken d).map Defect.text = Check.report ⟨!broken, d.text⟩ := by
  cases broken <;> rfl

theorem text_commonDefects :
    a.commonDefects.map Defect.text = a.commonChecks.flatMap Check.report := by
  have dated : ∀ id : MessageId, (!!id.isValid) = id.millis?.any (0 < ·) := fun id => by
    rw [Bool.not_not, id.isValid_eq_any]
  cases h : a.id <;>
    simp only [commonDefects, commonChecks, idCheck, h, List.map_append, text_flag, dated,
      List.flatMap_cons, List.flatMap_nil, List.append_nil, List.append_assoc,
      Option.not_isNone] <;>
    rfl

theorem text_ttlDefects : a.ttlDefects.map Defect.text = a.ttlCheck.report := by
  unfold ttlDefects ttlCheck
  cases a.ttl with
  | none => rfl
  | some ttl =>
    have positive : (!(ttl == 0)) = decide (0 < ttl) := by
      rw [Bool.eq_iff_iff]
      simp [UInt32.pos_iff_ne_zero]
    dsimp only
    rw [text_flag, positive]
    rfl

theorem text_kindDefects {rules : RuleSet} (own : a.kind = rules.kind) :
    (a.kindDefects rules).map Defect.text = a.kindChecks.flatMap Check.report := by
  cases rules <;>
    simp only [kindDefects, kindChecks, own, RuleSet.kind, List.map_append, text_flag,
      text_ttlDefects, List.flatMap_cons, List.flatMap_nil, List.append_nil, Option.not_isNone,
      Option.not_isSome] <;>
    rfl

/-- Under the rules of its own kind, the defects of a message are the checks that it fails. -/
theorem text_defects {rules : RuleSet} (own : a.kind = rules.kind) :
    (a.defects rules).map Defect.text = a.complaints := by
  rw [complaints_eq_flatMap, checks, List.flatMap_append, ← text_commonDefects,
    ← text_kindDefects own, defects, own]
  simp [flag]

/-- A message of a kind that has rules is refused with the checks that it fails. -/
theorem validate_cases (specified : a.kind ≠ .unspecified) :
    a.validate = .ok () ∧ a.complaints = [] ∨
      ∃ e, a.validate = .error e ∧ a.complaints ≠ [] ∧
        e.text = String.intercalate ", " a.complaints := by
  obtain ⟨rules, own⟩ := RuleSet.exists_kind specified
  have texts := text_defects own
  rw [validate_of_kind own, validateAs]
  split
  · rename_i none
    rw [none] at texts
    exact .inl ⟨rfl, texts.symm⟩
  · rename_i found
    refine .inr ⟨_, rfl, ?_, by rw [← texts]; rfl⟩
    rw [← texts]
    simpa using found

/-- A message that fails no check obeys the rules, if there are any. -/
theorem complaints_eq_nil : a.complaints = [] ∧ a.kind ≠ .unspecified ↔ a.IsWellFormed := by
  have all : a.complaints = [] ↔ ∀ c ∈ a.checks, c.passed = true := by
    simp [complaints, List.filter_eq_nil_iff]
  have dated : a.idCheck.passed = true ↔
      ∃ id ms, a.id = some id ∧ id.millis? = some ms ∧ 0 < ms := by
    cases h : a.id <;> simp [idCheck, h, Option.any_eq_true]
  have lives : a.ttlCheck.passed = true ↔ ∃ ttl, a.ttl = some ttl ∧ 0 < ttl := by
    cases h : a.ttl <;> simp [ttlCheck, h]
  rw [all, checks, IsWellFormed]
  cases kind : a.kind <;>
    simp [commonChecks, kindChecks, kind, dated, lives]

/-! ## The pieces of a reason -/

/-- What is said of an id without a time is not said of anything else. -/
theorem undated_ne (id : MessageId) {u : String} (other : u.toList.take 9 ≠ "Invalid i".toList) :
    "Invalid id [" ++ id.text ++ "]: no timestamp" ≠ u := by
  rintro rfl
  exact other (by simp)

/-- The checks that follow the one of the id. -/
def laterChecks (a : Attributes) : List Check :=
  ⟨a.source.isSome, "Missing source"⟩ :: ⟨a.priority != .unspecified, "Invalid priority"⟩ ::
    a.kindChecks

theorem checks_eq : a.checks = a.idCheck :: a.laterChecks := rfl

/-- Their texts are told apart, from each other and from what is said of ids, and have no comma. -/
theorem laterTexts_plain : (a.laterChecks.map Check.complaint).Nodup ∧
    ∀ u ∈ a.laterChecks.map Check.complaint,
      ',' ∉ u.toList ∧ u ≠ "Missing id" ∧ u.toList.take 9 ≠ "Invalid i".toList := by
  have living : a.ttlCheck.complaint = "Missing TTL" ∨
      a.ttlCheck.complaint = "TTL must be greater than zero" := by
    unfold ttlCheck
    cases a.ttl <;> simp
  cases kind : a.kind with
  | request => rcases living with living | living <;> simp [laterChecks, kindChecks, kind, living]
  | _ => simp [laterChecks, kindChecks, kind]

theorem nodup_texts : (a.checks.map Check.complaint).Nodup := by
  rw [checks_eq, List.map_cons, List.nodup_cons]
  refine ⟨fun twice => ?_, laterTexts_plain.1⟩
  obtain ⟨-, unmissed, dated⟩ := laterTexts_plain.2 _ twice
  unfold idCheck at unmissed dated
  cases id : a.id with
  | none => simp [id] at unmissed
  | some id' =>
    rw [id] at dated
    exact undated_ne id' dated rfl

theorem comma_notMem_texts : ∀ u ∈ a.checks.map Check.complaint, ',' ∉ u.toList := by
  rw [checks_eq, List.map_cons]
  refine List.forall_mem_cons.mpr ⟨?_, fun u told => (laterTexts_plain.2 u told).1⟩
  unfold idCheck
  cases a.id with
  | none => decide
  | some id => simp [id.comma_notMem_text]

theorem complaints_sublist : a.complaints.Sublist (a.checks.map Check.complaint) :=
  List.filter_sublist.map _

/-- A message without an id that is given a sound one fails the same checks but for this one. -/
theorem complaints_identified {fresh : MessageId} (dated : fresh.isValid = true) :
    Attributes.complaints { a with id := some (a.id.getD fresh) } =
      a.complaints.filter (· != "Missing id") := by
  have later : (a.laterChecks.flatMap Check.report).filter (· != "Missing id") =
      a.laterChecks.flatMap Check.report := by
    refine List.filter_eq_self.mpr fun u told => ?_
    obtain ⟨c, checked, told⟩ := List.mem_flatMap.mp told
    rw [Check.eq_of_mem_report told]
    exact bne_iff_ne.mpr (laterTexts_plain.2 _ (List.mem_map_of_mem checked)).2.1
  have identified : Check.report (idCheck { a with id := some (a.id.getD fresh) }) =
      a.idCheck.report.filter (· != "Missing id") := by
    unfold idCheck
    cases a.id with
    | none =>
      rw [MessageId.isValid_eq_any] at dated
      simp [Check.report, dated]
    | some id =>
      refine (List.filter_eq_self.mpr fun u told => bne_iff_ne.mpr ?_).symm
      rw [Check.eq_of_mem_report told]
      exact undated_ne id (by decide)
  rw [complaints_eq_flatMap, complaints_eq_flatMap, checks_eq, checks_eq, List.flatMap_cons,
    List.flatMap_cons, List.filter_append, later, identified]
  rfl

/-- The reason can be taken apart. -/
theorem split_reason (failed : a.complaints ≠ []) :
    ((String.intercalate ", " a.complaints).split ", ").toList.map String.Slice.copy =
      a.complaints :=
  split_intercalate (c := ',') (r := [' ']) rfl failed fun u told =>
    comma_notMem_texts u (complaints_sublist.subset told)

/-- Whether a message is refused, and why, hangs on some of its attributes only. -/
theorem validate_congr {b : Attributes} (kind : b.kind = a.kind) (id : b.id = a.id)
    (source : b.source = a.source) (sink : b.sink = a.sink) (priority : b.priority = a.priority)
    (ttl : a.kind = .request → b.ttl = a.ttl)
    (requestId : a.kind = .response ∨ a.kind = .notification → b.requestId = a.requestId) :
    b.validate = a.validate := by
  have common : b.commonDefects = a.commonDefects := by
    simp only [commonDefects, id, source, priority]
  cases own : a.kind <;> rw [own] at kind <;>
    simp only [validate, validateAs, defects, kindDefects, ttlDefects, RuleSet.ofKind?, common,
      sink, own, kind]
  · rw [ttl own]
  · rw [requestId (.inl own)]
  · rw [requestId (.inr own)]

end Attributes

/-- **A message is accepted if and only if it obeys the rules of its kind, and otherwise every check
that it fails is told**, each of them once and in the order of the checks; the pieces between the
commas of the reason are what they say. No attribute but those that the checks of its kind look at
has a part in it. -/
theorem failed_checks_are_told (a : Attributes) :
    (a.validate = .ok () ↔ a.IsWellFormed) ∧
    (a.kind ≠ .unspecified → ∀ e, a.validate = .error e →
      (e.text.split ", ").toList.map String.Slice.copy = a.complaints ∧ a.complaints.Nodup) ∧
    ∀ b : Attributes, b.kind = a.kind → b.id = a.id → b.source = a.source → b.sink = a.sink →
      b.priority = a.priority → (a.kind = .request → b.ttl = a.ttl) →
      (a.kind = .response ∨ a.kind = .notification → b.requestId = a.requestId) →
      b.validate = a.validate := by
  refine ⟨?_, fun specified e refused => ?_, fun b => Attributes.validate_congr⟩
  · rw [← Attributes.complaints_eq_nil]
    by_cases specified : a.kind = .unspecified
    · simp [Attributes.validate, specified, RuleSet.ofKind?]
    · rcases Attributes.validate_cases specified with ⟨ok, none⟩ | ⟨e, refused, some, -⟩
      · simp [ok, none, specified]
      · simp [refused, some]
  · rcases Attributes.validate_cases specified with ⟨ok, -⟩ | ⟨e', refused', some, text⟩
    · cases ok.symm.trans refused
    · cases refused'.symm.trans refused
      refine ⟨?_, Attributes.nodup_texts.sublist Attributes.complaints_sublist⟩
      rw [text]
      exact Attributes.split_reason some

/-- A request that has nothing but an id without a time fails five checks. -/
theorem five_failed_checks :
    let a : Attributes := { id := some ⟨0#128⟩, kind := .request }
    a.kind ≠ .unspecified ∧ ∃ e, a.validate = .error e ∧
      (e.text.split ", ").toList.map String.Slice.copy =
        ["Invalid id [00000000-0000-0000-0000-000000000000]: no timestamp", "Missing source",
          "Invalid priority", "Missing sink (method address)", "Missing TTL"] := by
  intro a
  have specified : a.kind ≠ .unspecified := by decide
  obtain ⟨-, told, -⟩ := failed_checks_are_told a
  obtain ⟨pieces, -⟩ := told specified _ rfl
  refine ⟨specified, _, rfl, pieces.trans ?_⟩
  decide +kernel

end Switchboard
