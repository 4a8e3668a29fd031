import Shiplog.ForStd.Except
import Shiplog.Spec.TenantIngest

/-!
# Which records are one entity

`normalizeGithubRecord` names the entity of a record by its kind and its number or sha. The
repository a record comes from is only in its `html_url`, and does not show in the name: issues
of two repositories that share a number are versions of one entity. This module says exactly
which records a batch keeps apart.

## Key results

- `NormalizedRecord.externalId_eq`: the external id of a record
- `externalIds_separate`: when two objects have different external ids, and when every record
  of a batch is added under a row of its own
- `externalIds_merge`: issues of two repositories
-/

namespace Shiplog

/-! ## GitHub objects -/

/-- What a record stands for on GitHub: an issue, pull request or commit of a repository. -/
@[ext] structure GithubObject where
  repository : Option (String × String)
  kind : EventType
  ref : String
deriving DecidableEq

/-- Owner and repository of an `html_url`: the two parts of its path that come first. -/
def repositoryOf : JsVal → Option (String × String)
  | .str url =>
    match url.toList.splitOn '/' with
    | _ :: _ :: _ :: owner :: repository :: _ =>
      some (String.ofList owner, String.ofList repository)
    | _ => none
  | _ => none

/-- The number of an issue or pull request, the sha of a commit. -/
def githubRef (record : NangoRecord) : EventType → JsVal
  | .commit => record.get "sha"
  | _ => record.get "number"

/-- The object of a record of a supported model. -/
def githubObject (rt : Runtime) (record : NangoRecord) : Option GithubObject :=
  match githubCase (modelOf (some record)) with
  | none => none
  | some kind =>
    match (githubRef record kind).toStr rt with
    | .ok ref => some ⟨repositoryOf (record.get "html_url"), kind, ref⟩
    | .error _ => none

/-- The name `normalizeGithubRecord` gives it. -/
def GithubObject.externalId (object : GithubObject) : String :=
  object.kind.name ++ ":" ++ object.ref

/-- A record that is normalized. -/
structure NormalizedRecord (rt : Runtime) where
  record : NangoRecord
  input : JsVal
  normalizes : normalizeGithubRecord rt (some record) = .ok input

section Records

variable {rt : Runtime}

/-- A record that is normalized is of a supported kind, and its number or sha is a text. -/
private theorem NormalizedRecord.eq_eventInput (r : NormalizedRecord rt) :
    ∃ kind ref actor title url occurredAt version,
      githubCase (modelOf (some r.record)) = some kind ∧
        (githubRef r.record kind).toStr rt = .ok ref ∧
        r.input = eventInput kind (kind.name ++ ":" ++ ref) actor title url occurredAt version := by
  have h := r.normalizes
  unfold normalizeGithubRecord at h
  cases hcase : githubCase (modelOf (some r.record)) with
  | none =>
    simp only [hcase] at h
    obtain ⟨_, -, h⟩ := Except.bind_ok h
    cases h
  | some kind =>
    simp only [hcase] at h
    cases kind with
    | issue =>
      obtain ⟨ref, href, h⟩ := Except.bind_ok h
      obtain ⟨_, -, h⟩ := Except.bind_ok h
      exact ⟨.issue, ref, _, _, _, _, _, rfl, href, (Except.ok.inj h).symm⟩
    | pr =>
      obtain ⟨ref, href, h⟩ := Except.bind_ok h
      obtain ⟨_, -, h⟩ := Except.bind_ok h
      exact ⟨.pr, ref, _, _, _, _, _, rfl, href, (Except.ok.inj h).symm⟩
    | commit =>
      obtain ⟨ref, href, h⟩ := Except.bind_ok h
      obtain ⟨_, -, h⟩ := Except.bind_ok h
      obtain ⟨_, -, h⟩ := Except.bind_ok h
      exact ⟨.commit, ref, _, _, _, _, _, rfl, href, (Except.ok.inj h).symm⟩
    | release =>
      -- only the three kinds above have a case; the default throws
      obtain ⟨_, -, h⟩ := Except.bind_ok h
      cases h

/-- So it stands for an object, and is named by it. -/
theorem NormalizedRecord.externalId_eq (r : NormalizedRecord rt) :
    ∃ object, githubObject rt r.record = some object ∧
      r.input.get "externalId" = .str object.externalId ∧
      r.input.get "source" = .str "github" := by
  obtain ⟨kind, ref, actor, title, url, occurredAt, version, hcase, href, hinput⟩ :=
    r.eq_eventInput
  refine ⟨⟨repositoryOf (r.record.get "html_url"), kind, ref⟩, ?_, ?_, ?_⟩
  · unfold githubObject
    simp only [hcase, href]
  · rw [hinput]
    rfl
  · rw [hinput]
    rfl

/-- The object a normalized record stands for. -/
def NormalizedRecord.object (r : NormalizedRecord rt) : GithubObject :=
  (githubObject rt r.record).get (by
    obtain ⟨object, hobject, -⟩ := r.externalId_eq
    rw [hobject]
    rfl)

private theorem NormalizedRecord.get_externalId (r : NormalizedRecord rt) :
    r.input.get "externalId" = .str r.object.externalId := by
  obtain ⟨object, hobject, hid, -⟩ := r.externalId_eq
  rw [hid]
  unfold NormalizedRecord.object
  simp only [hobject, Option.get_some]

/-- No kind is called by a name with a colon. -/
private theorem EventType.occurrences_name (kind : EventType) : kind.name.occurrences ':' = 0 := by
  cases kind <;> decide

private theorem EventType.name_inj {kind kind' : EventType} (h : kind.name = kind'.name) :
    kind = kind' := by
  revert h
  cases kind <;> cases kind' <;> decide

/-- External ids are the same for one kind and one number or sha, and only then. -/
private theorem GithubObject.externalId_inj {object object' : GithubObject} :
    object.externalId = object'.externalId ↔
      object.kind = object'.kind ∧ object.ref = object'.ref := by
  constructor
  · intro h
    have hcount : object.kind.name.occurrences ':' = object'.kind.name.occurrences ':' := by
      rw [EventType.occurrences_name, EventType.occurrences_name]
    obtain ⟨hname, href⟩ := String.append_sep_inj_of_count rfl hcount h
    exact ⟨EventType.name_inj hname, href⟩
  · intro ⟨hkind, href⟩
    unfold externalId
    rw [hkind, href]

/-! ## One record among stored rows -/

/-- The row would be taken for a version of the other one's entity, or for its very version. -/
def Event.Clashes (r r' : Event) : Prop :=
  r.source = r'.source ∧ r.externalId = r'.externalId ∨ r.freeText = r'.freeText

/-- A valid input is counted as added where no row of the tenant clashes with it, and only
    there. -/
private theorem statusIn_call_added_iff (hsha : Function.Injective rt.sha256Hex) {spine : Spine}
    (hown : OwnKeys rt spine) (t : ObjectId) (e : ValidInput rt) :
    (e.call t).statusIn spine = .added ↔
      ∀ r ∈ spine, r.tenantId = t → ¬ r.Clashes (e.call t).row := by
  have hentity : ∀ r : Event, (e.call t).sameEntity r = false ↔ (r.tenantId = t →
      ¬ (r.source = (e.call t).row.source ∧ r.externalId = (e.call t).row.externalId)) := by
    intro r
    rw [← Bool.not_eq_true]
    simp only [IngestCall.sameEntity, Bool.and_eq_true, decide_eq_true_eq, and_assoc, not_and]
    rfl
  -- the index of the other tenants says no more than the tenant's own rows
  have hkeys : (e.call t).keyTaken spine = (e.call t).keyExists spine :=
    keyTaken_eq_keyExists hsha hown (call_idemKey e t)
  rw [IngestCall.statusIn_added_iff, hkeys, ← Bool.not_eq_true, keyExists_iff hsha hown,
    IngestCall.latest_eq_none]
  constructor
  · rintro ⟨hkey, hdiff⟩ r hr ht hclash
    cases hclash with
    | inl hsame => exact (hentity r).mp (hdiff r hr) ht hsame
    | inr htext => exact hkey ⟨r, hr, ht, htext⟩
  · intro hclear
    constructor
    · rintro ⟨r, hr, ht, htext⟩
      exact hclear r hr ht (Or.inr htext)
    · intro r hr
      exact (hentity r).mpr fun ht hsame => hclear r hr ht (Or.inl hsame)

/-! ## Batches -/

/-- A normalized record that the schema accepts. -/
structure ValidRecord (rt : Runtime) extends NormalizedRecord rt where
  ev : NormalizedEvent
  parses : NormalizedEventSchema.parse rt input = .ok ev

namespace ValidRecord

def toValidInput (r : ValidRecord rt) : ValidInput rt := ⟨r.input, r.ev, r.parses⟩

/-- The row the record is stored in. -/
def row (r : ValidRecord rt) (t : ObjectId) : Event := (r.toValidInput.call t).row

/-- One turn of the batch loop. -/
def turn (rt : Runtime) (t : ObjectId) (acc : RunCounts × Spine) (record : NangoRecord) :
    RunCounts × Spine :=
  ingestRecord rt (fun record => normalizeGithubRecord rt (some record)) (some t) record acc.1
    acc.2

private theorem turn_eq (r : ValidRecord rt) (t : ObjectId) (counts : RunCounts) (spine : Spine) :
    turn rt t (counts, spine) r.record =
      (counts.count ((r.toValidInput.call t).statusIn spine),
        if (r.toValidInput.call t).appends spine then spine ++ [r.row t] else spine) := by
  unfold turn ingestRecord
  simp only [r.normalizes]
  have hingest := r.toValidInput.ingestEvent_eq t spine
  unfold toValidInput at hingest ⊢
  simp only at hingest
  rw [hingest]
  rfl

/-- A turn whose record is counted as added appends its row. -/
private theorem turn_of_added {r : ValidRecord rt} {t : ObjectId} {spine : Spine}
    (h : (r.toValidInput.call t).statusIn spine = .added) (counts : RunCounts) :
    turn rt t (counts, spine) r.record =
      ({ counts with added := counts.added + 1 }, spine ++ [r.row t]) := by
  rw [turn_eq, h]
  cases happ : (r.toValidInput.call t).appends spine with
  | true => rfl
  | false =>
    rw [IngestCall.statusIn_of_not_appends happ] at h
    cases h

/-- Any other turn leaves the number of added records as it is. -/
private theorem added_turn_of_not {r : ValidRecord rt} {t : ObjectId} {spine : Spine}
    (h : (r.toValidInput.call t).statusIn spine ≠ .added) (counts : RunCounts) :
    (turn rt t (counts, spine) r.record).1.added = counts.added := by
  rw [turn_eq]
  show (counts.count ((r.toValidInput.call t).statusIn spine)).added = counts.added
  cases hstatus : (r.toValidInput.call t).statusIn spine with
  | added => exact absurd hstatus h
  | updated => rfl
  | unchanged => rfl

/-- A batch counts no more records as added than it has. -/
private theorem added_foldl_le (t : ObjectId) (rs : List (ValidRecord rt)) (counts : RunCounts)
    (spine : Spine) :
    ((rs.map fun r => r.record).foldl (turn rt t) (counts, spine)).1.added ≤
      counts.added + rs.length := by
  induction rs generalizing counts spine with
  | nil => exact Nat.le_refl _
  | cons r rs ih =>
    rw [List.map_cons, List.foldl_cons, List.length_cons]
    have hrest := ih (turn rt t (counts, spine) r.record).1 (turn rt t (counts, spine) r.record).2
    have hfirst : (turn rt t (counts, spine) r.record).1.added ≤ counts.added + 1 := by
      by_cases hadded : (r.toValidInput.call t).statusIn spine = .added
      · rw [turn_of_added hadded]
      · rw [added_turn_of_not hadded]
        omega
    apply Nat.le_trans hrest
    omega

/-- A row of the batch sits under its own key. -/
private theorem ownKeys_append {spine : Spine} (hown : OwnKeys rt spine) (r : ValidRecord rt)
    (t : ObjectId) : OwnKeys rt (spine ++ [r.row t]) :=
  List.forall_mem_concat hown rfl

/-- **A batch of valid records**: every record is counted as added and has a row of its own,
    exactly if no record clashes with a stored row of the tenant or with one before it. -/
private theorem foldl_turn_iff (hsha : Function.Injective rt.sha256Hex) (t : ObjectId)
    (rs : List (ValidRecord rt)) (counts : RunCounts) {spine : Spine} (hown : OwnKeys rt spine) :
    (rs.map fun r => r.record).foldl (turn rt t) (counts, spine) =
        ({ counts with added := counts.added + rs.length }, spine ++ rs.map fun r => r.row t) ↔
      (∀ r ∈ rs, ∀ e ∈ spine, e.tenantId = t → ¬ e.Clashes (r.row t)) ∧
        rs.Pairwise fun r r' => ¬ (r.row t).Clashes (r'.row t) := by
  induction rs generalizing counts spine with
  | nil => simp
  | cons r rs ih =>
    rw [List.map_cons, List.foldl_cons, List.forall_mem_cons, List.pairwise_cons]
    have hadded := statusIn_call_added_iff hsha hown t r.toValidInput
    by_cases hclear : (r.toValidInput.call t).statusIn spine = .added
    · -- the record is added, and the rest finds its row
      have hih := ih { counts with added := counts.added + 1 } (ownKeys_append hown r t)
      rw [turn_of_added hclear]
      simp only [List.append_assoc, List.singleton_append, Nat.add_assoc,
        Nat.add_comm 1 rs.length] at hih
      rw [List.map_cons, List.length_cons, hih]
      have hfirst := hadded.mp hclear
      constructor
      · intro ⟨hspine, hpair⟩
        refine ⟨⟨hfirst, fun r' hr' e he => ?_⟩, fun r' hr' => ?_, hpair⟩
        · exact hspine r' hr' e (List.mem_append_left _ he)
        · exact hspine r' hr' (r.row t) (List.mem_append_right _ List.mem_cons_self) rfl
      · rintro ⟨⟨-, hspine⟩, hhere, hpair⟩
        refine ⟨fun r' hr' => List.forall_mem_concat (hspine r' hr') fun _ => hhere r' hr', hpair⟩
    · -- it is not, and the count stays behind
      constructor
      · intro hall
        -- the rest adds at most one to the count for each record
        have hle := added_foldl_le t rs (turn rt t (counts, spine) r.record).1
          (turn rt t (counts, spine) r.record).2
        rw [added_turn_of_not hclear] at hle
        have hcount : counts.added + (r :: rs).length ≤ counts.added + rs.length := by
          have heq := congrArg (fun acc : RunCounts × Spine => acc.1.added) hall
          simp only at heq
          rw [← heq]
          exact hle
        rw [List.length_cons] at hcount
        omega
      · rintro ⟨⟨hspine, -⟩, -⟩
        exact absurd (hadded.mpr hspine) hclear

/-- A parsed event carries the source and the external id it was parsed from. -/
private theorem parse_texts {input : JsVal} {ev : NormalizedEvent}
    (h : NormalizedEventSchema.parse rt input = .ok ev) {source externalId : String}
    (hsource : input.get "source" = .str source)
    (hid : input.get "externalId" = .str externalId) :
    ev.source = source ∧ ev.externalId = externalId := by
  cases input with
  | obj fields =>
    simp only [NormalizedEventSchema.parse] at h
    rw [hsource, hid] at h
    split at h
    · next s _ x _ _ _ _ _ hs _ hx _ _ _ _ _ =>
      cases h
      simp only [NormalizedEventSchema.nonEmptyString] at hs hx
      split at hs
      · cases hs
      · split at hx
        · cases hx
        · exact ⟨(Option.some.inj hs).symm, (Option.some.inj hx).symm⟩
    · cases h
  | _ => cases hsource

/-- What the batch stores of a valid record: the source, and the name of its object. -/
private theorem row_texts (r : ValidRecord rt) (t : ObjectId) :
    (r.row t).source = "github" ∧ (r.row t).externalId = r.object.externalId := by
  obtain ⟨_, -, -, hsource⟩ := r.externalId_eq
  exact parse_texts r.parses hsource r.get_externalId

/-- The text a record's version is stored under, behind tenant and source. -/
def versionText (r : ValidRecord rt) : String := r.object.externalId ++ "|" ++ r.ev.version

/-- Two records clash if they have one kind and one number or sha, or one version text. -/
private theorem clashes_iff (r r' : ValidRecord rt) (t : ObjectId) :
    (r.row t).Clashes (r'.row t) ↔
      r.object.kind = r'.object.kind ∧ r.object.ref = r'.object.ref ∨
        r.versionText = r'.versionText := by
  obtain ⟨hsource, hid⟩ := r.row_texts t
  obtain ⟨hsource', hid'⟩ := r'.row_texts t
  have hversion : ∀ r : ValidRecord rt, (r.row t).version = r.ev.version := fun _ => rfl
  have htext : (r.row t).freeText = (r'.row t).freeText ↔ r.versionText = r'.versionText := by
    unfold Event.freeText versionText
    rw [hsource, hsource', hid, hid', hversion, hversion]
    -- both begin with the one source, so the text behind it tells them apart
    constructor
    · intro h
      exact (String.append_sep_inj_of_length rfl h).2
    · intro h
      rw [h]
  unfold Event.Clashes
  rw [htext, hsource, hsource', hid, hid', GithubObject.externalId_inj]
  simp only [true_and]

end ValidRecord

end Records

/-- **Which objects are kept apart.** Two records that stand for different objects have
    different external ids exactly if objects of one kind and one number or sha are of one
    repository. And in a tenant without rows, a batch of valid records counts every record as
    added, each under a row of its own, exactly if no two records have one kind and one number
    or sha, and no two have one version text. -/
theorem externalIds_separate {rt : Runtime} (hsha : Function.Injective rt.sha256Hex) :
    (∀ r r' : NormalizedRecord rt,
      (r.object ≠ r'.object → r.input.get "externalId" ≠ r'.input.get "externalId") ↔
        (r.object.kind = r'.object.kind → r.object.ref = r'.object.ref →
          r.object.repository = r'.object.repository)) ∧
    ∀ (t : ObjectId) (spine : Spine), OwnKeys rt spine → (∀ e ∈ spine, e.tenantId ≠ t) →
      ∀ rs : List (ValidRecord rt),
        ingestNangoRecords rt (fun record => normalizeGithubRecord rt (some record)) (some t)
            (rs.map fun r => r.record) spine =
          (⟨rs.length, 0, 0, 0, 0⟩, spine ++ rs.map fun r => r.row t) ↔
        rs.Pairwise fun r r' =>
          ¬ (r.object.kind = r'.object.kind ∧ r.object.ref = r'.object.ref) ∧
            r.versionText ≠ r'.versionText := by
  refine ⟨fun r r' => ?_, fun t spine hown hempty rs => ?_⟩
  · -- the external id is the kind and the number or sha, without the repository
    have hids : r.input.get "externalId" = r'.input.get "externalId" ↔
        r.object.kind = r'.object.kind ∧ r.object.ref = r'.object.ref := by
      rw [r.get_externalId, r'.get_externalId, JsVal.str.injEq, GithubObject.externalId_inj]
    constructor
    · intro hsep hkind href
      by_contra hne
      exact hsep (fun heq => hne (congrArg GithubObject.repository heq)) (hids.mpr ⟨hkind, href⟩)
    · intro hrepo hne hid
      obtain ⟨hkind, href⟩ := hids.mp hid
      exact hne (GithubObject.ext (hrepo hkind href) hkind href)
  · -- no stored row is of the tenant, so only clashes within the batch count
    have hbatch := ValidRecord.foldl_turn_iff hsha t rs emptyCounts hown
    have hcounts : { emptyCounts with added := emptyCounts.added + rs.length } =
        (⟨rs.length, 0, 0, 0, 0⟩ : RunCounts) := by
      simp only [emptyCounts, Nat.zero_add]
    rw [hcounts] at hbatch
    simp only [ValidRecord.clashes_iff, not_or] at hbatch
    exact hbatch.trans (and_iff_right fun r hr e he ht => absurd ht (hempty e he))

/-! ## Issues and pull requests -/

/-- Number 1 of a repository, of the given model. -/
def numberOne (model owner title : String) : NangoRecord where
  fields := [("id", .str owner), ("number", .num 1), ("title", .str title),
    ("html_url", .str ("https://github.com/" ++ owner ++ "/app/issues/1")),
    ("user", .obj [("login", .str "ann")]), ("created_at", .str "2024-01-01T00:00:00Z"),
    ("updated_at", .str "2024-01-02T00:00:00Z"),
    ("_nango_metadata", .obj [("model", .str model)])]

/-- Issue 1 of a repository. -/
def issueOne (owner title : String) : ValidRecord hexRuntime where
  record := numberOne "GithubIssue" owner title
  input := eventInput .issue "issue:1" (.str "ann") (.str title)
    (.str ("https://github.com/" ++ owner ++ "/app/issues/1")) (some 0)
    (.str "2024-01-02T00:00:00Z")
  normalizes := rfl
  ev := ⟨"github", .issue, "issue:1", "ann", title,
    "https://github.com/" ++ owner ++ "/app/issues/1", 0, "2024-01-02T00:00:00Z"⟩
  parses := rfl

/-- Pull request 1 of a repository. -/
def pullOne (owner title : String) : ValidRecord hexRuntime where
  record := numberOne "GithubPullRequest" owner title
  input := eventInput .pr "pr:1" (.str "ann") (.str title)
    (.str ("https://github.com/" ++ owner ++ "/app/issues/1")) (some 0)
    (.str "2024-01-02T00:00:00Z")
  normalizes := rfl
  ev := ⟨"github", .pr, "pr:1", "ann", title,
    "https://github.com/" ++ owner ++ "/app/issues/1", 0, "2024-01-02T00:00:00Z"⟩
  parses := rfl

/-- An issue and a pull request that share a number are both added. -/
theorem externalIds_separate_pull :
    ingestNangoRecords hexRuntime (fun record => normalizeGithubRecord hexRuntime (some record))
        (some tenantA) [(issueOne "acme" "A").record, (pullOne "acme" "A").record] [] =
      (⟨2, 0, 0, 0, 0⟩, [(issueOne "acme" "A").row tenantA, (pullOne "acme" "A").row tenantA]) := by
  refine ((@externalIds_separate hexRuntime Hex.ofText_injective).2 tenantA []
    (fun r hr => absurd hr List.not_mem_nil) (fun r hr => absurd hr List.not_mem_nil)
    [issueOne "acme" "A", pullOne "acme" "A"]).mpr ?_
  refine List.pairwise_pair.mpr ?_
  decide +kernel

/-- Issue 1 of two repositories is one entity, and the second is dropped as a replay of the
    first. -/
theorem externalIds_merge :
    (issueOne "acme" "A").object ≠ (issueOne "globex" "B").object ∧
      (issueOne "acme" "A").input.get "externalId" =
        (issueOne "globex" "B").input.get "externalId" ∧
      (ingestNangoRecords plainRuntime
        (fun record => normalizeGithubRecord plainRuntime (some record)) (some tenantA)
        [(issueOne "acme" "A").record, (issueOne "globex" "B").record] []).1 =
          ⟨1, 0, 0, 0, 1⟩ := by
  refine ⟨by decide +kernel, rfl, ?_⟩
  decide +kernel

end Shiplog
