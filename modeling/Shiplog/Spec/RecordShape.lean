import Shiplog.Spec.NetworkErrors

/-!
# The shape of a GitHub record

The mapper and the schema together accept a record exactly if it is `WellShaped`: the
number or sha prints, the date gives a valid `Date`, and the other fields pass their
checks. A missing number prints as `undefined`, and a date of `null` is the first of
January 1970, so these two gaps are not noticed.

## Key results

- `parse_obj_iff`, `parse_eventInput_iff`: which values the schema accepts in a mapper's object
- `normalize_parses_iff`: a record is mapped and accepted exactly if it is well shaped
- `ingestProcessor_of_wellShaped` / `ingestProcessor_of_not_wellShaped`: what a calm attempt
  does with either
- `missingField_rejected_iff`: which records with a missing field are turned away
-/

namespace Shiplog

open NormalizedEventSchema (nonEmptyString coerceDate)

variable {rt : Runtime} {r : NangoRecord} {kind : EventType}

/-! ## What the mappers read -/

/-- The values a case of `normalizeGithubRecord` builds its event from. -/
structure SourceFields where
  ref : JsVal
  actor : JsVal
  title : JsVal
  url : JsVal
  date : JsVal
  version : JsVal

/-- They differ from case to case; the commit's title is cut after its first line. -/
def sourceFields (r : NangoRecord) : EventType → SourceFields
  | .commit =>
    { ref := r.get "sha"
      actor := (r.get "author_login").coalesce (((r.get "author").get "login").coalesce
        ((r.get "author_name").coalesce (.str "unknown")))
      title := (r.get "message").coalesce (((r.get "commit").get "message").coalesce (.str ""))
      url := r.get "html_url"
      date := (r.get "author_date").coalesce (((r.get "commit").get "author").get "date")
      version := r.get "sha" }
  | .pr =>
    { ref := r.get "number"
      actor := ((r.get "user").get "login").coalesce (.str "unknown")
      title := r.get "title"
      url := r.get "html_url"
      date := r.get "created_at"
      version := r.get "updated_at" }
  | _ =>
    { ref := r.get "number"
      actor := (r.get "user_login").coalesce (((r.get "user").get "login").coalesce
        (.str "unknown"))
      title := r.get "title"
      url := r.get "html_url"
      date := r.get "created_at"
      version := r.get "updated_at" }

/-- The number or sha prints, the date is valid, and the rest passes the schema. -/
structure SourceFields.Valid (rt : Runtime) (f : SourceFields) : Prop where
  ref : Printable rt f.ref
  actor : ∃ s, nonEmptyString f.actor = some s
  title : ∃ s, f.title = .str s
  url : ∃ s, NormalizedEventSchema.url rt f.url = some s
  date : ∃ ms, coerceDate rt f.date = some ms
  version : ∃ s, NormalizedEventSchema.version rt f.version = some s

/-- The record of this kind passes the mapper and the schema. -/
def WellShaped (rt : Runtime) (kind : EventType) (r : NangoRecord) : Prop :=
  (sourceFields r kind).Valid rt

/-- The schema accepts an object exactly if it accepts every field. -/
theorem parse_obj_iff (fs : List (String × JsVal)) :
    (∃ ev, NormalizedEventSchema.parse rt (.obj fs) = .ok ev) ↔
      (∃ s, nonEmptyString (JsVal.lookup fs "source") = some s) ∧
        (∃ k, NormalizedEventSchema.eventType (JsVal.lookup fs "type") = some k) ∧
        (∃ s, nonEmptyString (JsVal.lookup fs "externalId") = some s) ∧
        (∃ s, nonEmptyString (JsVal.lookup fs "actor") = some s) ∧
        (∃ s, NormalizedEventSchema.string (JsVal.lookup fs "title") = some s) ∧
        (∃ s, NormalizedEventSchema.url rt (JsVal.lookup fs "url") = some s) ∧
        (∃ ms, coerceDate rt (JsVal.lookup fs "occurredAt") = some ms) ∧
        ∃ s, NormalizedEventSchema.version rt (JsVal.lookup fs "version") = some s := by
  simp only [NormalizedEventSchema.parse, JsVal.get_obj]
  -- one field after the other: the first that is rejected rejects the event
  cases nonEmptyString (JsVal.lookup fs "source") with
  | none => simp
  | some source =>
    cases NormalizedEventSchema.eventType (JsVal.lookup fs "type") with
    | none => simp
    | some kind =>
      cases nonEmptyString (JsVal.lookup fs "externalId") with
      | none => simp
      | some externalId =>
        cases nonEmptyString (JsVal.lookup fs "actor") with
        | none => simp
        | some actor =>
          cases NormalizedEventSchema.string (JsVal.lookup fs "title") with
          | none => simp
          | some title =>
            cases NormalizedEventSchema.url rt (JsVal.lookup fs "url") with
            | none => simp
            | some url =>
              cases coerceDate rt (JsVal.lookup fs "occurredAt") with
              | none => simp
              | some ms =>
                cases NormalizedEventSchema.version rt (JsVal.lookup fs "version") with
                | none => simp
                | some version => simp

private theorem string_eq_some_iff (v : JsVal) :
    (∃ s, NormalizedEventSchema.string v = some s) ↔ ∃ s, v = .str s := by
  cases v <;> simp [NormalizedEventSchema.string]

/-- The schema accepts a mapper's object exactly if it accepts the values in it. -/
theorem parse_eventInput_iff {externalId : String} (hid : externalId ≠ "")
    (actor title url version : JsVal) (occurredAt : Option Int) :
    (∃ ev, NormalizedEventSchema.parse rt
        (eventInput kind externalId actor title url occurredAt version) = .ok ev) ↔
      (∃ s, nonEmptyString actor = some s) ∧ (∃ s, title = .str s) ∧
        (∃ s, NormalizedEventSchema.url rt url = some s) ∧ (∃ ms, occurredAt = some ms) ∧
        ∃ s, NormalizedEventSchema.version rt version = some s := by
  have hkind : NormalizedEventSchema.eventType (.str kind.name) = some kind := by
    cases kind <;> rfl
  unfold eventInput
  rw [parse_obj_iff]
  constructor
  · rintro ⟨-, -, -, hactor, htitle, hurl, hdate, hversion⟩
    exact ⟨hactor, (string_eq_some_iff title).mp htitle, hurl, hdate, hversion⟩
  · rintro ⟨hactor, htitle, hurl, hdate, hversion⟩
    exact ⟨⟨"github", rfl⟩, ⟨kind, hkind⟩, ⟨externalId, if_neg hid⟩, hactor,
      (string_eq_some_iff title).mpr htitle, hurl, hdate, hversion⟩

/-- A text with a prefix is not empty. -/
private theorem externalId_ne_empty (kind : EventType) (ref : String) :
    kind.name ++ ":" ++ ref ≠ "" := by
  intro h
  have hlen := congrArg String.length h
  rw [String.length_append, String.length_append] at hlen
  have hcolon : (":" : String).length = 1 := rfl
  have hempty : ("" : String).length = 0 := rfl
  omega

/-- The date the schema sees is the one the mapper made. -/
private theorem coerceDate_eq_some {v : JsVal} {ms : Int} :
    coerceDate rt v = some ms ↔ newDate rt v = .ok (some ms) := by
  unfold coerceDate
  cases newDate rt v with
  | ok ms' => simp
  | error err => simp

/-- What becomes of the title: a commit's is cut, the others are passed on. -/
def mappedTitle (rt : Runtime) (kind : EventType) (title : JsVal) : Except JsVal JsVal :=
  if kind = .commit then firstLine rt title else .ok title

/-- The mapped title is a string exactly if the title is one. -/
private theorem mappedTitle_str_iff {title : JsVal} :
    (∃ mapped s, mappedTitle rt kind title = .ok mapped ∧ mapped = .str s) ↔
      ∃ s, title = .str s := by
  unfold mappedTitle firstLine
  cases title with
  | str s => by_cases hkind : kind = .commit <;> simp [hkind]
  | _ => by_cases hkind : kind = .commit <;> simp [hkind]

/-- The three mappers are one, up to the values they read. -/
private theorem normalize_eq (hcase : githubCase (modelOf (some r)) = some kind) :
    normalizeGithubRecord rt (some r) = (do
      let ref ← (sourceFields r kind).ref.toStr rt
      let title ← mappedTitle rt kind (sourceFields r kind).title
      let occurredAt ← newDate rt (sourceFields r kind).date
      return eventInput kind (kind.name ++ ":" ++ ref) (sourceFields r kind).actor title
        (sourceFields r kind).url occurredAt (sourceFields r kind).version) := by
  unfold normalizeGithubRecord
  simp only [hcase]
  cases kind with
  | issue => rfl
  | pr => rfl
  | commit => rfl
  | release =>
    -- no model name selects a release
    unfold githubCase at hcase
    split at hcase
    · split at hcase
      · cases hcase
      · split at hcase
        · cases hcase
        · split at hcase <;> cases hcase
    · cases hcase

/-- A record is mapped and accepted exactly if it is well shaped. -/
theorem normalize_parses_iff (hcase : githubCase (modelOf (some r)) = some kind) :
    (∃ input ev, normalizeGithubRecord rt (some r) = .ok input ∧
      NormalizedEventSchema.parse rt input = .ok ev) ↔ WellShaped rt kind r := by
  rw [normalize_eq hcase]
  constructor
  · rintro ⟨input, ev, hnorm, hparse⟩
    obtain ⟨ref, href, hnorm⟩ := Except.bind_ok hnorm
    obtain ⟨title, htitle, hnorm⟩ := Except.bind_ok hnorm
    obtain ⟨occurredAt, hdate, hnorm⟩ := Except.bind_ok hnorm
    cases hnorm
    obtain ⟨hactor, ⟨s, hs⟩, hurl, ⟨ms, hms⟩, hversion⟩ :=
      (parse_eventInput_iff (externalId_ne_empty kind ref) _ _ _ _ _).mp ⟨ev, hparse⟩
    subst hms
    exact ⟨⟨ref, href⟩, hactor, mappedTitle_str_iff.mp ⟨title, s, htitle, hs⟩, hurl,
      ⟨ms, coerceDate_eq_some.mpr hdate⟩, hversion⟩
  · rintro ⟨⟨ref, href⟩, hactor, htitle, hurl, ⟨ms, hms⟩, hversion⟩
    obtain ⟨title, s, htitle, hs⟩ := mappedTitle_str_iff.mpr htitle
    obtain ⟨ev, hparse⟩ := (parse_eventInput_iff (externalId_ne_empty kind ref) _ _ _ _ _).mpr
      ⟨hactor, ⟨s, hs⟩, hurl, ⟨ms, rfl⟩, hversion⟩
    refine ⟨_, ev, ?_, hparse⟩
    rw [href, htitle, coerceDate_eq_some.mp hms]
    rfl

/-! ## A calm attempt -/

/-- Nothing is injected into the attempt: no failure mode, no demo fault, and no store
    operation throws. -/
structure Calm (rt : Runtime) (job : IngestJobData) (env : AttemptEnv) : Prop where
  injected : injectedFault rt (injectedMode env.failMode job) = none
  demoFault : demoFaultId job = none
  store : env.ingestFaults = noFaults

/-- The attempt throws an `UnrecoverableError` and leaves the spine alone. -/
def Rejected (rt : Runtime) (job : IngestJobData) (env : AttemptEnv)
    (deadLetters : List DeadLetter) (spine : Spine) : Prop :=
  ∃ err, ingestProcessor rt job env deadLetters spine = (.error err, spine) ∧ IsUnrecoverable err

variable {job : IngestJobData} {env : AttemptEnv} {deadLetters : List DeadLetter} {spine : Spine}

/-- Without faults the `try` block is the mapper and the ingest. -/
private theorem ingestTry_of_calm (hcalm : Calm rt job env) (deadLetters : List DeadLetter)
    (spine : Spine) :
    ingestTry rt job env deadLetters spine =
      match normalizeGithubRecord rt job.record with
      | .error err => (.error err, spine)
      | .ok input => ingestEvent rt noFaults input (some job.tenantId) spine := by
  cases h : normalizeGithubRecord rt job.record with
  | error err => simp only [ingestTry, hcalm.demoFault, ingestInput, hcalm.injected, h]
  | ok input =>
    simp only [ingestTry, hcalm.demoFault, ingestInput, hcalm.injected, hcalm.store, h]

/-- The errors of the mapper and of the schema are logical. -/
theorem IsPlainError.logical {err : JsVal} (h : IsPlainError rt err) (now : Int) :
    (classifyError rt now err).kind = .logical := by
  obtain ⟨name, message, hname, rfl⟩ := h
  rcases hname with rfl | rfl
  · rfl
  · rfl

/-- An attempt that catches a logical error with a message rejects its record. -/
private theorem rejected_of_logical {err : JsVal} (hb : Benign rt env.now err)
    (hkind : (classifyError rt env.now err).kind = .logical)
    (htry : ingestTry rt job env deadLetters spine = (.error err, spine)) :
    Rejected rt job env deadLetters spine := by
  refine ⟨rethrow rt env.now err, ?_, rethrow_logical hb hkind⟩
  simp only [ingestProcessor, htry]

/-- A record that is not well shaped is rejected. -/
theorem ingestProcessor_of_not_wellShaped (hcalm : Calm rt job env) (hrecord : job.record = some r)
    (hcase : githubCase (modelOf (some r)) = some kind) (h : ¬ WellShaped rt kind r) :
    Rejected rt job env deadLetters spine := by
  have htry := ingestTry_of_calm hcalm deadLetters spine
  rw [hrecord] at htry
  cases hnorm : normalizeGithubRecord rt (some r) with
  | error err =>
    rw [hnorm] at htry
    have hplain := normalize_error hnorm
    exact rejected_of_logical (hplain.benign env.now) (hplain.logical env.now) htry
  | ok input =>
    cases hparse : NormalizedEventSchema.parse rt input with
    | error err =>
      obtain ⟨paths, rfl⟩ := parse_error hparse
      simp only [hnorm, ingestEvent, IngestCall.prepare, hparse] at htry
      exact rejected_of_logical (benign_zodError rt env.now paths) rfl htry
    | ok ev => exact absurd ((normalize_parses_iff hcase).mp ⟨input, ev, hnorm, hparse⟩) h

/-- A well-shaped one is ingested. -/
theorem ingestProcessor_of_wellShaped (hcalm : Calm rt job env) (hrecord : job.record = some r)
    (hcase : githubCase (modelOf (some r)) = some kind) (h : WellShaped rt kind r) :
    ∃ res, (ingestProcessor rt job env deadLetters spine).1 = .ok res := by
  obtain ⟨input, ev, hnorm, hparse⟩ := (normalize_parses_iff hcase).mpr h
  have htry := ingestTry_of_calm hcalm deadLetters spine
  have hingest := ValidInput.ingestEvent_eq ⟨input, ev, hparse⟩ job.tenantId spine
  simp only at hingest
  simp only [hrecord, hnorm, hingest] at htry
  simp only [ingestProcessor, htry]
  exact ⟨_, rfl⟩

/-! ## Missing fields -/

/-- A field the event is built from is absent or `null`. -/
def MissingField (r : NangoRecord) : EventType → Prop
  | .commit => (r.get "sha").isNullish = true ∨ (r.get "html_url").isNullish = true ∨
    ((r.get "author_date").isNullish = true ∧
      (((r.get "commit").get "author").get "date").isNullish = true)
  | _ => ∃ key ∈ ["number", "title", "html_url", "created_at", "updated_at"],
    (r.get key).isNullish = true

/-- A gap that neither the mapper nor the schema looks at: no number, or the date `null`. -/
def UncheckedGap (r : NangoRecord) : EventType → Prop
  | .commit => (r.get "author_date").isNullish = true ∧
    ((r.get "commit").get "author").get "date" = .null
  | _ => (r.get "number").isNullish = true ∨ r.get "created_at" = .null

private theorem isNullish_iff {v : JsVal} : v.isNullish = true ↔ v = .undefined ∨ v = .null := by
  cases v <;> simp [JsVal.isNullish]

/-- What the schema accepts as text, URL or version is there. -/
private theorem not_nullish_of_checked (rt : Runtime) {v : JsVal} (h : (∃ s, v = .str s) ∨
    (∃ s, NormalizedEventSchema.url rt v = some s) ∨
      ∃ s, NormalizedEventSchema.version rt v = some s) : v.isNullish = false := by
  rcases h with ⟨s, rfl⟩ | ⟨s, hs⟩ | ⟨s, hs⟩
  · rfl
  · cases v with
    | str => rfl
    | _ => cases hs
  · cases v with
    | str => rfl
    | num => rfl
    | _ => cases hs

/-- Of the missing dates only `null` makes a valid one. -/
private theorem eq_null_of_date {v : JsVal} (hv : v.isNullish = true)
    (h : ∃ ms, coerceDate rt v = some ms) : v = .null := by
  rcases isNullish_iff.mp hv with rfl | rfl
  · obtain ⟨ms, hms⟩ := h
    cases hms
  · rfl

/-- Only those gaps are found in a well-shaped record. -/
private theorem uncheckedGap_of_wellShaped (hmissing : MissingField r kind)
    (h : WellShaped rt kind r) : UncheckedGap r kind := by
  have htitle := not_nullish_of_checked rt (Or.inl h.title)
  have hurl := not_nullish_of_checked rt (Or.inr (Or.inl h.url))
  have hversion := not_nullish_of_checked rt (Or.inr (Or.inr h.version))
  cases kind with
  | commit =>
    rcases hmissing with hsha | hmiss | ⟨hflat, hnested⟩
    · exact absurd (hversion.symm.trans hsha) (by decide)
    · exact absurd (hurl.symm.trans hmiss) (by decide)
    · have hdate := h.date
      simp only [sourceFields, JsVal.coalesce, hflat, if_true] at hdate
      exact ⟨hflat, eq_null_of_date hnested hdate⟩
  | _ =>
    obtain ⟨key, hkey, hnull⟩ := hmissing
    simp only [List.mem_cons, List.not_mem_nil, or_false] at hkey
    rcases hkey with rfl | rfl | rfl | rfl | rfl
    · exact Or.inl hnull
    · exact absurd (htitle.symm.trans hnull) (by decide)
    · exact absurd (hurl.symm.trans hnull) (by decide)
    · exact Or.inr (eq_null_of_date hnull h.date)
    · exact absurd (hversion.symm.trans hnull) (by decide)

/-- **Missing fields.** For every record of a supported model in which a field the event is
    built from is absent or `null`, in an attempt without faults: the processor throws an
    `UnrecoverableError` and leaves the spine alone, if and only if the record is not well
    shaped all the same. It is, unless its number is missing or its date is `null`. -/
theorem missingField_rejected_iff (hcalm : Calm rt job env) (hrecord : job.record = some r)
    (hcase : githubCase (modelOf (some r)) = some kind) (hmissing : MissingField r kind) :
    (Rejected rt job env deadLetters spine ↔ ¬ WellShaped rt kind r) ∧
      (WellShaped rt kind r → UncheckedGap r kind) := by
  refine ⟨⟨?_, ingestProcessor_of_not_wellShaped hcalm hrecord hcase⟩,
    uncheckedGap_of_wellShaped hmissing⟩
  rintro ⟨err, herr, -⟩ hshape
  obtain ⟨res, hres⟩ := ingestProcessor_of_wellShaped hcalm hrecord hcase hshape
  rw [herr] at hres
  cases hres

/-! ## An issue with one field left out -/

/-- The job of an issue that lacks a field. -/
def issueJobWithout (key : String) : IngestJobData :=
  { issueJob with
    record := some ⟨(issueRecord "v1" "A").fields.filter fun field => field.1 ≠ key⟩ }

/-- Nothing is injected into the calm attempt at it. -/
private theorem calm_issueJobWithout {key : String}
    (h : injectedFault plainRuntime (injectedMode .undefined (issueJobWithout key)) = none) :
    Calm plainRuntime (issueJobWithout key) calmAttempt where
  injected := h
  demoFault := rfl
  store := rfl

/-- Without a title the issue is turned away. -/
theorem missingField_rejected_title :
    Rejected plainRuntime (issueJobWithout "title") calmAttempt [] [] := by
  have hmissing : MissingField ⟨(issueRecord "v1" "A").fields.filter
      fun field => field.1 ≠ "title"⟩ .issue :=
    ⟨"title", by decide, rfl⟩
  apply (missingField_rejected_iff (calm_issueJobWithout rfl) rfl rfl hmissing).1.mpr
  intro hshape
  obtain ⟨s, hs⟩ := hshape.title
  cases hs

/-- Without a number it is ingested, as `issue:undefined`. -/
theorem missingField_number_ingested :
    ¬ ∀ (job : IngestJobData) (env : AttemptEnv) (deadLetters : List DeadLetter) (spine : Spine)
      (r : NangoRecord) (kind : EventType), Calm plainRuntime job env → job.record = some r →
      githubCase (modelOf (some r)) = some kind → MissingField r kind →
      Rejected plainRuntime job env deadLetters spine := by
  intro h
  obtain ⟨err, herr, -⟩ := h (issueJobWithout "number") calmAttempt [] []
    ⟨(issueRecord "v1" "A").fields.filter fun field => field.1 ≠ "number"⟩ .issue
    (calm_issueJobWithout rfl) rfl rfl ⟨"number", by decide, rfl⟩
  cases herr

end Shiplog
