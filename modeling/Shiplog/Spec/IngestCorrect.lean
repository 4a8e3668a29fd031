import Shiplog.ForStd.Hex
import Shiplog.Native.Ingest

/-!
# What one `ingestEvent` call does

The spec lemmas every later file uses in place of the definitions of
`Shiplog.Native.Ingest`.

## Key results

- `prepare_some`: for a given tenant the prologue succeeds exactly on schema-valid inputs
- `commit_noFaults`: without faults a call appends its row or changes nothing
- `ingestEvent_eq_next`: the sequential function is the small steps of a lone call
- `IngestRun.Step.move`: what a step of a call is, whether the store answers or throws
- `IngestRun.Step.cases`: a step leaves the spine alone, or is the upsert appending the row
  of a call whose key is free
- `latest_append_of_le` / `latest_append_of_lt`: how an appended row changes what a later
  call reads
-/

namespace Shiplog

/-! ## The prologue -/

/-- The canonical JSON of an event's content exists: its date is valid. -/
private theorem contentHash_eventContent (rt : Runtime) (ev : NormalizedEvent) :
    ∃ h, contentHash rt (eventContent ev) = .ok h :=
  ⟨_, rfl⟩

/-- The content hash of an event. -/
def eventHash (rt : Runtime) (ev : NormalizedEvent) : String :=
  match contentHash rt (eventContent ev) with
  | .ok h => h
  | .error _ => ""

private theorem contentHash_eq_eventHash (rt : Runtime) (ev : NormalizedEvent) :
    contentHash rt (eventContent ev) = .ok (eventHash rt ev) := by
  obtain ⟨h, hh⟩ := contentHash_eventContent rt ev
  simp only [eventHash, hh]

namespace IngestCall

/-- The call that ingests a parsed event for a tenant. -/
def ofEvent (rt : Runtime) (tenantId : ObjectId) (ev : NormalizedEvent) : IngestCall where
  tenantId := tenantId
  ev := ev
  idemKey := idempotencyKey rt tenantId.toStr ev.source ev.externalId ev.version
  cHash := eventHash rt ev

/-- With a tenant, the prologue is the schema followed by the two hashes. -/
theorem prepare_some (rt : Runtime) (input : JsVal) (tenantId : ObjectId) :
    prepare rt input (some tenantId) =
      (NormalizedEventSchema.parse rt input).map (ofEvent rt tenantId) := by
  simp only [prepare]
  cases NormalizedEventSchema.parse rt input with
  | error err => rfl
  | ok ev => simp only [contentHash_eq_eventHash]; rfl

/-- The call a successful prologue sets up. -/
theorem prepare_ok {rt : Runtime} {input : JsVal} {tenantId : Option ObjectId} {c : IngestCall}
    (h : prepare rt input tenantId = .ok c) :
    ∃ tid ev, tenantId = some tid ∧ NormalizedEventSchema.parse rt input = .ok ev ∧
      c = ofEvent rt tid ev := by
  cases tenantId with
  | none => simp only [prepare, reduceCtorEq] at h
  | some tid =>
    rw [prepare_some] at h
    cases hp : NormalizedEventSchema.parse rt input with
    | error err => rw [hp] at h; exact nomatch h
    | ok ev =>
      rw [hp] at h
      exact ⟨tid, ev, rfl, rfl, (Except.ok.inj h).symm⟩

/-! ## The store operations -/

/-- A call whose row exists for its own tenant finds its key in the index. -/
theorem keyTaken_of_keyExists {c : IngestCall} {spine : Spine} (h : c.keyExists spine = true) :
    c.keyTaken spine = true := by
  simp only [keyExists, keyTaken, List.any_eq_true, Bool.and_eq_true, decide_eq_true_eq] at h ⊢
  obtain ⟨r, hr, -, hk⟩ := h
  exact ⟨r, hr, hk⟩

theorem keyTaken_iff {c : IngestCall} {spine : Spine} :
    c.keyTaken spine = true ↔ ∃ r ∈ spine, r.idempotencyKey = c.idemKey := by
  simp only [keyTaken, List.any_eq_true, decide_eq_true_eq]

@[simp] theorem keyTaken_append (c : IngestCall) (spine : Spine) (r : Event) :
    c.keyTaken (spine ++ [r]) = (c.keyTaken spine || decide (r.idempotencyKey = c.idemKey)) := by
  simp [keyTaken]

/-- Whether an undisturbed call would append its row: its key is free and its entity's
    latest row, if there is one, has other content. -/
def appends (c : IngestCall) (spine : Spine) : Bool :=
  !c.keyTaken spine && (c.classify spine).isSome

/-- The status of an undisturbed call. -/
def statusIn (c : IngestCall) (spine : Spine) : IngestStatus :=
  if c.appends spine then
    match c.classify spine with
    | some status => status.1
    | none => .unchanged
  else .unchanged

theorem statusIn_of_not_appends {c : IngestCall} {spine : Spine} (h : c.appends spine = false) :
    c.statusIn spine = .unchanged := by
  simp [statusIn, h]

/-- A call that appends its row reports `'added'` or `'updated'`. -/
theorem statusIn_of_appends {c : IngestCall} {spine : Spine} (h : c.appends spine = true) :
    c.statusIn spine ≠ .unchanged := by
  have hsome : (c.classify spine).isSome = true := by
    simp only [appends, Bool.and_eq_true] at h
    exact h.2
  obtain ⟨status, hs⟩ := Option.isSome_iff_exists.mp hsome
  simp only [statusIn, h, if_true, hs]
  exact status.2

/-- **One undisturbed call.** It appends its row, or changes nothing. -/
theorem commit_noFaults (c : IngestCall) (spine : Spine) :
    c.commit noFaults spine =
      (.ok (c.result (c.statusIn spine)),
        if c.appends spine then spine ++ [c.row] else spine) := by
  simp only [commit, noFaults]
  by_cases hex : c.keyExists spine = true
  · -- the fast path only answers what the index would
    have htaken := keyTaken_of_keyExists hex
    have hno : c.appends spine = false := by simp [appends, htaken]
    simp [hex, hno, statusIn]
  · cases hcl : c.classify spine with
    | none =>
      have hno : c.appends spine = false := by simp [appends, hcl]
      simp [hex, hno, statusIn]
    | some status =>
      by_cases htaken : c.keyTaken spine = true
      · -- another tenant's row under the same key: the upsert matches it
        have hno : c.appends spine = false := by simp [appends, htaken]
        simp [hex, htaken, hno, statusIn]
      · have hyes : c.appends spine = true := by simp [appends, hcl, htaken]
        simp [hex, htaken, hyes, statusIn, hcl]

/-- A call finds no latest row exactly when its entity has no row. -/
theorem latest_eq_none {c : IngestCall} {spine : Spine} :
    c.latest spine = none ↔ ∀ r ∈ spine, c.sameEntity r = false := by
  simp only [latest, List.argmax_eq_none, List.reverse_eq_nil_iff, List.filter_eq_nil_iff,
    Bool.not_eq_true]

/-- A row of another entity is invisible to a call's classification. -/
theorem latest_append_of_ne {c : IngestCall} {spine : Spine} {r : Event}
    (h : c.sameEntity r = false) : c.latest (spine ++ [r]) = c.latest spine := by
  simp [latest, List.filter_append, h]

/-- An older row does not become the latest one. -/
theorem latest_append_of_lt {c : IngestCall} {spine : Spine} {r l : Event}
    (hl : c.latest spine = some l) (hlt : r.occurredAt < l.occurredAt) :
    c.latest (spine ++ [r]) = some l := by
  by_cases h : c.sameEntity r = true
  · simp only [latest, List.filter_append, List.filter_cons_of_pos h, List.filter_nil]
    exact List.argmax_reverse_append_of_lt _ _ _ _ hl hlt
  · rw [latest_append_of_ne (by simpa using h), hl]

/-- A row of the entity that is no older becomes the latest one. -/
theorem latest_append_of_le {c : IngestCall} {spine : Spine} {r : Event}
    (h : c.sameEntity r = true) (hle : ∀ l ∈ c.latest spine, l.occurredAt ≤ r.occurredAt) :
    c.latest (spine ++ [r]) = some r := by
  simp only [latest, List.filter_append, List.filter_cons_of_pos h, List.filter_nil]
  exact List.argmax_reverse_append_of_le _ _ _ hle

/-- Calls about one entity read the same latest row. -/
theorem latest_congr {c c' : IngestCall} (h : c.sameEntity c'.row = true) (spine : Spine) :
    c.latest spine = c'.latest spine := by
  simp only [sameEntity, Bool.and_eq_true, decide_eq_true_eq] at h
  obtain ⟨⟨ht, hs⟩, he⟩ := h
  -- the two filters are one
  have heq : c.sameEntity = c'.sameEntity := by
    funext r
    simp only [sameEntity, ← ht, ← hs, ← he, row]
  simp only [latest, heq]

theorem sameEntity_row (c : IngestCall) : c.sameEntity c.row = true := by
  simp [sameEntity, row]

/-- Being about one entity is symmetric. -/
theorem sameEntity_symm {c c' : IngestCall} (h : c'.sameEntity c.row = true) :
    c.sameEntity c'.row = true := by
  simp only [sameEntity, Bool.and_eq_true, decide_eq_true_eq] at h ⊢
  exact ⟨⟨h.1.1.symm, h.1.2.symm⟩, h.2.symm⟩

/-- A call is suppressed exactly by a latest row with its content hash. -/
theorem classify_eq_none {c : IngestCall} {spine : Spine} :
    c.classify spine = none ↔ ∃ r, c.latest spine = some r ∧ r.contentHash = c.cHash := by
  simp only [classify]
  cases c.latest spine with
  | none => simp
  | some r =>
    by_cases h : r.contentHash = c.cHash
    · simp [h]
    · simp [h]

/-- A call does not append exactly when its key is taken or its content is suppressed. -/
theorem appends_eq_false {c : IngestCall} {spine : Spine} :
    c.appends spine = false ↔
      c.keyTaken spine = true ∨ ∃ r, c.latest spine = some r ∧ r.contentHash = c.cHash := by
  rw [← classify_eq_none]
  simp only [appends, Bool.and_eq_false_iff, Bool.not_eq_false', Option.isSome_eq_false_iff,
    Option.isNone_iff_eq_none]

theorem appends_eq_true {c : IngestCall} {spine : Spine} :
    c.appends spine = true ↔
      c.keyTaken spine = false ∧ ∀ r, c.latest spine = some r → r.contentHash ≠ c.cHash := by
  rw [← Bool.not_eq_false, appends_eq_false]
  simp only [not_or, Bool.not_eq_true, not_exists, not_and]

/-- A call whose key is free and whose entity has no row is counted as added, and no other. -/
theorem statusIn_added_iff {c : IngestCall} {spine : Spine} :
    c.statusIn spine = .added ↔ c.keyTaken spine = false ∧ c.latest spine = none := by
  unfold statusIn appends classify
  cases c.keyTaken spine with
  | true => simp
  | false =>
    cases c.latest spine with
    | none => simp
    | some r =>
      by_cases hhash : r.contentHash = c.cHash
      · simp [hhash]
      · simp [hhash]

end IngestCall

/-! ## The sequential function -/

/-- `ingestEvent` on a schema-valid input is the undisturbed call on its event. -/
private theorem ingestEvent_of_parse {rt : Runtime} {input : JsVal} {ev : NormalizedEvent}
    (h : NormalizedEventSchema.parse rt input = .ok ev) (tenantId : ObjectId) (spine : Spine) :
    ingestEvent rt noFaults input (some tenantId) spine =
      (IngestCall.ofEvent rt tenantId ev).commit noFaults spine := by
  simp only [ingestEvent, IngestCall.prepare_some, h]
  rfl

/-- A schema-valid input together with the event it parses to. -/
structure ValidInput (rt : Runtime) where
  input : JsVal
  ev : NormalizedEvent
  parses : NormalizedEventSchema.parse rt input = .ok ev

namespace ValidInput

variable {rt : Runtime}

/-- The call that ingests the input for a tenant. -/
def call (e : ValidInput rt) (tenantId : ObjectId) : IngestCall := .ofEvent rt tenantId e.ev

/-- What `ingestEvent` does with the input. -/
theorem ingestEvent_eq (e : ValidInput rt) (tenantId : ObjectId) (spine : Spine) :
    ingestEvent rt noFaults e.input (some tenantId) spine =
      (.ok ((e.call tenantId).result ((e.call tenantId).statusIn spine)),
        if (e.call tenantId).appends spine then spine ++ [(e.call tenantId).row] else spine) := by
  rw [ingestEvent_of_parse e.parses, ← IngestCall.commit_noFaults]
  rfl

/-- Ingest inputs one after another for one tenant. -/
def ingestAll (tenantId : ObjectId) (es : List (ValidInput rt)) (spine : Spine) : Spine :=
  es.foldl (fun spine e => (ingestEvent rt noFaults e.input (some tenantId) spine).2) spine

/-- One more input: its row is appended, or nothing happens. -/
theorem ingestAll_concat (tenantId : ObjectId) (es : List (ValidInput rt)) (e : ValidInput rt)
    (spine : Spine) :
    ingestAll tenantId (es ++ [e]) spine =
      if (e.call tenantId).appends (ingestAll tenantId es spine) then
        ingestAll tenantId es spine ++ [(e.call tenantId).row]
      else ingestAll tenantId es spine := by
  simp only [ingestAll, List.foldl_append, List.foldl_cons, List.foldl_nil, ingestEvent_eq]

/-- Ingesting the input into this spine answers `'unchanged'` and changes nothing. -/
def NoOp (tenantId : ObjectId) (e : ValidInput rt) (spine : Spine) : Prop :=
  ∃ key, ingestEvent rt noFaults e.input (some tenantId) spine = (.ok ⟨.unchanged, key⟩, spine)

/-- An ingest is a no-op exactly when its call does not append. -/
theorem noOp_iff {tenantId : ObjectId} {e : ValidInput rt} {spine : Spine} :
    NoOp tenantId e spine ↔ (e.call tenantId).appends spine = false := by
  simp only [NoOp, ingestEvent_eq, Prod.mk.injEq]
  constructor
  · intro ⟨key, hres, _⟩
    rw [← Bool.not_eq_true]
    intro happ
    exact IngestCall.statusIn_of_appends happ (congrArg IngestResult.status (Except.ok.inj hres))
  · intro h
    exact ⟨_, by rw [IngestCall.statusIn_of_not_appends h]; rfl, by rw [h]; rfl⟩

end ValidInput

/-- The sequential function is the small steps of a call that runs alone. -/
theorem ingestEvent_eq_next (rt : Runtime) (args : IngestArgs) (spine : Spine) :
    (fun st : IngestRun × Spine => st.1.next rt st.2)^[4] (.called args, spine) =
      (.finished (ingestEvent rt noFaults args.input args.tenantId spine).1,
        (ingestEvent rt noFaults args.input args.tenantId spine).2) := by
  simp only [Function.iterate_succ, Function.iterate_zero, Function.comp_apply, id_eq,
    IngestRun.next, ingestEvent]
  cases hprep : IngestCall.prepare rt args.input args.tenantId with
  | error err => rfl
  | ok c =>
    simp only [IngestCall.commit, noFaults]
    by_cases hex : c.keyExists spine = true
    · simp only [if_pos hex]
    · simp only [if_neg hex]
      cases hcl : c.classify spine with
      | none => rfl
      | some status =>
        by_cases htaken : c.keyTaken spine = true
        · simp only [if_pos htaken]
        · simp only [if_neg htaken]

/-! ## One step among many -/

/-- What one step of a run is, whether the store answers or throws. -/
inductive IngestRun.Move (rt : Runtime) : IngestRun → Spine → IngestRun → Spine → Prop where
  | prepared {args : IngestArgs} {c : IngestCall} {spine : Spine}
      (h : IngestCall.prepare rt args.input args.tenantId = .ok c) :
      Move rt (.called args) spine (.running c .exists_) spine
  | rejected {args : IngestArgs} {err : JsVal} {spine : Spine} :
      Move rt (.called args) spine (.finished (.error err)) spine
  | advanced {c : IngestCall} {pc pc' : IngestPc} {spine : Spine} :
      Move rt (.running c pc) spine (.running c pc') spine
  | unchanged {c : IngestCall} {pc : IngestPc} {spine : Spine} :
      Move rt (.running c pc) spine (.finished (.ok (c.result .unchanged))) spine
  | failed {c : IngestCall} {pc : IngestPc} {err : JsVal} {spine : Spine} :
      Move rt (.running c pc) spine (.finished (.error err)) spine
  | appended {c : IngestCall} {status : FreshStatus} {spine : Spine}
      (h : c.keyTaken spine = false) :
      Move rt (.running c (.updateOne status)) spine (.finished (.ok (c.result status)))
        (spine ++ [c.row])

namespace IngestRun

/-- The next operation of a call, answered by the store. -/
private theorem move_next (rt : Runtime) {run : IngestRun} (spine : Spine)
    (h : run.outcome = none) :
    Move rt run spine (run.next rt spine).1 (run.next rt spine).2 := by
  cases run with
  | called args =>
    simp only [next]
    cases hprep : IngestCall.prepare rt args.input args.tenantId with
    | error err => exact .rejected
    | ok c => exact .prepared hprep
  | running c pc =>
    cases pc with
    | exists_ =>
      simp only [next]
      split
      · exact .unchanged
      · exact .advanced
    | findOne =>
      simp only [next]
      split
      · exact .unchanged
      · exact .advanced
    | updateOne status =>
      simp only [next]
      split
      · -- the key was taken between the reads and the upsert
        exact .unchanged
      · next hfree => exact .appended (Bool.not_eq_true _ ▸ hfree)
  | finished o => exact nomatch h

/-- The next operation of a call, throwing. -/
private theorem move_fault (rt : Runtime) {run : IngestRun} (err : JsVal) (spine : Spine)
    (h : run.op ≠ none) : Move rt run spine (run.fault err) spine := by
  cases run with
  | called args => exact absurd rfl h
  | running c pc =>
    cases pc with
    | exists_ => exact .failed
    | findOne => exact .failed
    | updateOne status =>
      simp only [fault]
      split
      · -- E11000 is a lost race, hence answered `'unchanged'`
        exact .unchanged
      · exact .failed
  | finished o => exact absurd rfl h

/-- Every step of a call is one of the moves. -/
theorem Step.move {rt : Runtime} {run run' : IngestRun} {spine spine' : Spine}
    (h : Step rt run spine run' spine') : Move rt run spine run' spine' := by
  cases h with
  | answer hrun => exact move_next rt spine hrun
  | duplicateKey htaken herr => exact move_fault rt _ spine nofun
  | throw hop herr => exact move_fault rt _ spine hop

/-- A finished call makes no move. -/
private theorem Move.outcome_eq_none {rt : Runtime} {run run' : IngestRun} {spine spine' : Spine}
    (h : Move rt run spine run' spine') : run.outcome = none := by
  cases h <;> rfl

/-- What a step can do: leave the spine alone, finishing a call with `'unchanged'` or an
    error if it finishes it, or append the row of a call whose key is free and finish it
    with the status it carries. -/
theorem Step.cases {rt : Runtime} {run run' : IngestRun} {spine spine' : Spine}
    (h : IngestRun.Step rt run spine run' spine') :
    run.outcome = none ∧
      ((spine' = spine ∧ ∀ res, run'.outcome = some (.ok res) → res.status = .unchanged) ∨
        ∃ c status, run = .running c (.updateOne status) ∧ c.keyTaken spine = false ∧
          run' = .finished (.ok (c.result status)) ∧ spine' = spine ++ [c.row]) := by
  refine ⟨h.move.outcome_eq_none, ?_⟩
  cases h.move with
  | prepared hprep => exact Or.inl ⟨rfl, nofun⟩
  | rejected => exact Or.inl ⟨rfl, nofun⟩
  | advanced => exact Or.inl ⟨rfl, nofun⟩
  | unchanged =>
    refine Or.inl ⟨rfl, fun res hres => ?_⟩
    cases hres
    rfl
  | failed => exact Or.inl ⟨rfl, nofun⟩
  | @appended c status _ hfree => exact Or.inr ⟨c, status, rfl, hfree, rfl, rfl⟩

/-- An operation that throws lets no call return, the upsert's duplicate key apart. -/
theorem outcome_fault_ne_ok {run : IngestRun} (hop : run.op ≠ none) {err : JsVal}
    (herr : run.op = some .updateOne → isDuplicateKey err = false) (res : IngestResult) :
    (run.fault err).outcome ≠ some (.ok res) := by
  intro hres
  cases run with
  | called a => exact absurd rfl hop
  | finished o => exact absurd rfl hop
  | running c pc =>
    cases pc with
    | exists_ => cases hres
    | findOne => cases hres
    | updateOne status =>
      simp only [fault, herr rfl] at hres
      cases hres

/-- The call a run carries out, once its prologue is done. -/
def call? : IngestRun → Option IngestCall
  | .running c _ => some c
  | _ => none

/-- A run keeps its call, or has just been given one by the prologue. -/
theorem Step.call {rt : Runtime} {run run' : IngestRun} {spine spine' : Spine}
    (h : IngestRun.Step rt run spine run' spine') {c : IngestCall} (hc : run'.call? = some c) :
    run.call? = some c ∨
      ∃ args, run = .called args ∧ IngestCall.prepare rt args.input args.tenantId = .ok c := by
  cases h.move with
  | @prepared args c' _ hprep => exact Or.inr ⟨args, rfl, Option.some.inj hc ▸ hprep⟩
  | advanced => exact Or.inl hc
  | rejected => exact nomatch hc
  | unchanged => exact nomatch hc
  | failed => exact nomatch hc
  | appended => exact nomatch hc

/-- The run is one of the call with these arguments. -/
def Follows (rt : Runtime) (args : IngestArgs) : IngestRun → Prop
  | .called a => a = args
  | .running c _ => IngestCall.prepare rt args.input args.tenantId = .ok c
  | .finished _ => True

/-- A step of a call with these arguments is again one of it, and the result it returns is
    the one of the call they set up. -/
theorem Step.follows {rt : Runtime} {args : IngestArgs} {run run' : IngestRun}
    {spine spine' : Spine} (h : IngestRun.Step rt run spine run' spine')
    (hf : run.Follows rt args) :
    run'.Follows rt args ∧ ∀ res, run'.outcome = some (.ok res) →
      ∃ c status, IngestCall.prepare rt args.input args.tenantId = .ok c ∧
        res = c.result status := by
  cases h.move with
  | @prepared a c _ hprep =>
    have ha : a = args := hf
    subst ha
    exact ⟨hprep, nofun⟩
  | rejected => exact ⟨trivial, nofun⟩
  | advanced => exact ⟨hf, nofun⟩
  | @unchanged c =>
    refine ⟨trivial, fun res hres => ?_⟩
    cases hres
    exact ⟨c, .unchanged, hf, rfl⟩
  | failed => exact ⟨trivial, nofun⟩
  | @appended c status =>
    refine ⟨trivial, fun res hres => ?_⟩
    cases hres
    exact ⟨c, status, hf, rfl⟩

end IngestRun

/-- Calls that run undisturbed in the order of a schedule reach the state it computes. -/
theorem ingestPool_reaches_runSchedule (rt : Runtime) (schedule : List ℕ)
    (c : List IngestRun × Spine) :
    (ingestPool rt).Reaches c
      (Pool.runSchedule (fun run _ => run.live) (IngestRun.next rt) schedule c) := by
  refine Pool.reaches_runSchedule (fun run spine hlive => ?_) schedule c
  exact ⟨.answer (Option.isNone_iff_eq_none.mp hlive), rfl⟩

/-! ## Inputs to compute with -/

/-- A runtime to compute runs with: its hash is the whole input, so that distinct texts never
    collide. -/
def plainRuntime : Runtime where
  sha256Hex := id
  numToString q := toString q.num
  dateToString _ := "Invalid Date"
  parseDate _ := some 0
  parseUrl := some
  zodMessage paths := ",".intercalate paths
  stackOf name message := name ++ ": " ++ message

/-- The same with a hash that looks like one, of hex digits. -/
def hexRuntime : Runtime := { plainRuntime with sha256Hex := Hex.ofText }

/-- Two tenants. -/
def tenantA : ObjectId := ⟨"aaaaaaaaaaaaaaaaaaaaaaaa", by decide⟩

def tenantB : ObjectId := ⟨"bbbbbbbbbbbbbbbbbbbbbbbb", by decide⟩

/-- An issue as the normalizer hands it over, with the given version and title. -/
def issueInput (version title : String) : JsVal :=
  .obj [("source", .str "github"), ("type", .str "issue"), ("externalId", .str "issue:1"),
    ("actor", .str "ann"), ("title", .str title), ("url", .str "https://example.test/1"),
    ("occurredAt", .date (some 0)), ("version", .str version)]

/-- The issue input as a schema-valid one. -/
def issueVersion (version title : String) : ValidInput plainRuntime where
  input := issueInput version title
  ev := ⟨"github", .issue, "issue:1", "ann", title, "https://example.test/1", 0, version⟩
  parses := rfl

end Shiplog
