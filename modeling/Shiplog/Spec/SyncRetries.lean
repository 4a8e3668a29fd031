import Shiplog.Spec.EndToEnd

/-!
# A sync that is retried

A nango-sync job has no cursor to resume from: an attempt that fails, at whatever call, has
delivered a beginning of the records, and the next one begins with the first page again. So
the ingest queue gets these beginnings, one for each failed attempt, before the records of the
attempt that returns. The raw rows are overwritten with themselves, and the worker absorbs the
repetitions, as long as no two of the records are about one entity or have one key.

## Key results

- `NangoSyncRun.attempt_cutOff`: what an attempt that is cut off has done
- `NangoSyncRun.attempts_cutOff`: what any number of them have
- `sync_effectively_once`: any failed attempts, and one that returns
-/

namespace Shiplog

/-! ## Attempts that are cut off -/

/-- The raw row an operation upserts. -/
def DeliveryOp.row? : DeliveryOp → Option RawRecord
  | .land row => some row
  | .enqueue _ => none

/-- The ingest job an operation adds. -/
def DeliveryOp.job? : DeliveryOp → Option IngestJobData
  | .land _ => none
  | .enqueue job => some job

/-- The rows are upserted in their order, and so are the jobs added. -/
private theorem foldl_perform (ops : List DeliveryOp) (s : DeliveryStore) :
    ops.foldl DeliveryOp.perform s =
      { s with rawRecords := (ops.filterMap DeliveryOp.row?).putAll RawRecord.key s.rawRecords
               ingestJobs := s.ingestJobs ++ ops.filterMap DeliveryOp.job? } := by
  induction ops generalizing s with
  | nil => simp only [List.foldl_nil, List.filterMap_nil, List.putAll_nil, List.append_nil]
  | cons op ops ih =>
    rw [List.foldl_cons, ih]
    cases op with
    | land row => rfl
    | enqueue job =>
      simp only [DeliveryOp.perform, List.filterMap_cons, DeliveryOp.row?, DeliveryOp.job?,
        List.append_assoc, List.singleton_append]

section Deliveries

variable {rt : Runtime} {job : ReconcileJobData}

/-- A delivery upserts the rows of the live records. -/
private theorem rows_deliverAll (records : List NangoRecord) :
    (deliverAll rt job.target records).filterMap DeliveryOp.row? = rowsOf rt job records := by
  induction records with
  | nil => rfl
  | cons record records ih =>
    rw [deliverAll, List.flatMap_cons, List.filterMap_append, ← deliverAll, ih]
    cases hdel : record.deleted with
    | true => simp only [deliver, hdel, if_true, rowsOf, liveOf, List.filter_cons, Bool.not_true,
        Bool.false_eq_true, if_false, List.filterMap_nil, List.nil_append]
    | false =>
      unfold ReconcileJobData.target
      cases hrow : rawRow rt (job.stamp record) job.rawContext <;>
        simp [deliver, landing, hdel, hrow, rowsOf, liveOf, DeliveryOp.row?, Except.toOption]

/-- It adds their jobs. -/
private theorem jobs_deliverAll (records : List NangoRecord) :
    (deliverAll rt job.target records).filterMap DeliveryOp.job? = jobsOf job records := by
  induction records with
  | nil => rfl
  | cons record records ih =>
    rw [deliverAll, List.flatMap_cons, List.filterMap_append, ← deliverAll, ih]
    cases hdel : record.deleted with
    | true => simp only [deliver, hdel, if_true, jobsOf, liveOf, List.filter_cons, Bool.not_true,
        Bool.false_eq_true, if_false, List.filterMap_nil, List.nil_append]
    | false =>
      unfold ReconcileJobData.target
      cases hrow : rawRow rt (job.stamp record) job.rawContext <;>
        simp [deliver, landing, hdel, hrow, jobsOf, liveOf, DeliveryOp.job?, List.filterMap_cons]

end Deliveries

section Attempts

variable {rt : Runtime} {nango : NangoListParams → Page} {job : ReconcileJobData}
  {sync : NangoSyncJobData} {pages : List Page}

/-- A call of a sync run does to the store what its operation does. -/
private theorem NangoSyncRun.next_perform (run : NangoSyncRun) (s : DeliveryStore) :
    (run.next rt nango s).2 = (run.ops rt).foldl DeliveryOp.perform s := by
  cases run with
  | fetch job vars => rfl
  | land job vars page record rest =>
    simp only [NangoSyncRun.next, NangoSyncRun.ops, landRawRecord, landing]
    cases rawRow rt (job.stamp record) job.rawContext with
    | ok row => rfl
    | error err => rfl
  | enqueue job vars page record rest => rfl
  | finished result => rfl

/-- An attempt that is cut off after any number of calls has upserted a beginning of the rows
    and added a beginning of the jobs. -/
theorem NangoSyncRun.attempt_cutOff (hsame : sync.Targets job)
    (hpages : Serves (fun c => nango (sync.listParams c)) none pages)
    (hlands : Lands rt job.target (recordsOf pages)) (n : ℕ) (s : DeliveryStore) :
    ∃ rows part, rows <+: rowsOf rt job (recordsOf pages) ∧
      part <+: jobsOf job (recordsOf pages) ∧
      ((fun st : NangoSyncRun × DeliveryStore => st.1.next rt nango st.2)^[n] (.start sync, s)).2 =
        { s with rawRecords := rows.putAll RawRecord.key s.rawRecords
                 ingestJobs := s.ingestJobs ++ part } := by
  let next := fun st : NangoSyncRun × DeliveryStore => st.1.next rt nango st.2
  have hinitial : Function.trace next (fun st => st.1.ops rt) n (.start sync, s) <+:
      deliverAll rt job.target (recordsOf pages) := by
    rw [← hsame.target_eq]
    exact (NangoSyncRun.emits pages none hpages (hsame.target_eq ▸ hlands) 0 0 s).trace_initial
      rfl rfl n
  have hstore : (next^[n] (.start sync, s)).2 =
      (Function.trace next (fun st => st.1.ops rt) n (.start sync, s)).foldl
        DeliveryOp.perform s :=
    Function.iterate_view (fun st => NangoSyncRun.next_perform st.1 st.2) n (.start sync, s)
  refine ⟨_, _, @rows_deliverAll rt job (recordsOf pages) ▸ hinitial.filterMap _,
    @jobs_deliverAll rt job (recordsOf pages) ▸ hinitial.filterMap _, ?_⟩
  rw [← foldl_perform]
  exact hstore

/-- The store after attempts at a job, each of which fails after so many calls. -/
def NangoSyncRun.attempts (rt : Runtime) (nango : NangoListParams → Page)
    (sync : NangoSyncJobData) (cuts : List ℕ) (s : DeliveryStore) : DeliveryStore :=
  cuts.foldl (fun s n =>
    ((fun st : NangoSyncRun × DeliveryStore => st.1.next rt nango st.2)^[n] (.start sync, s)).2) s

/-- They add a beginning of the jobs each, and what they upsert the whole batch of rows will
    overwrite. -/
theorem NangoSyncRun.attempts_cutOff (hsame : sync.Targets job)
    (hpages : Serves (fun c => nango (sync.listParams c)) none pages)
    (hlands : Lands rt job.target (recordsOf pages)) (cuts : List ℕ) (s : DeliveryStore) :
    ∃ (rawRecords : List RawRecord) (parts : List (List IngestJobData)),
      parts.length = cuts.length ∧
      (∀ part ∈ parts, part <+: jobsOf job (recordsOf pages)) ∧
      (rowsOf rt job (recordsOf pages)).putAll RawRecord.key rawRecords =
        (rowsOf rt job (recordsOf pages)).putAll RawRecord.key s.rawRecords ∧
      NangoSyncRun.attempts rt nango sync cuts s =
        { s with rawRecords, ingestJobs := s.ingestJobs ++ parts.flatten } := by
  induction cuts generalizing s with
  | nil =>
    refine ⟨s.rawRecords, [], rfl, fun part hpart => absurd hpart List.not_mem_nil, rfl, ?_⟩
    rw [List.flatten_nil, List.append_nil]
    rfl
  | cons n cuts ih =>
    obtain ⟨rows, part, hrows, hpart, hfirst⟩ :=
      NangoSyncRun.attempt_cutOff hsame hpages hlands n s
    -- the later attempts land everything again, over what this one landed
    obtain ⟨rawRecords, parts, hlen, hparts, hraw, hrest⟩ := ih
      { s with rawRecords := rows.putAll RawRecord.key s.rawRecords
               ingestJobs := s.ingestJobs ++ part }
    refine ⟨rawRecords, part :: parts, congrArg (· + 1) hlen,
      List.forall_mem_cons.mpr ⟨hpart, hparts⟩, ?_, ?_⟩
    · rw [hraw, List.putAll_putAll_of_prefix RawRecord.key hrows]
    · unfold NangoSyncRun.attempts at hrest ⊢
      rw [List.foldl_cons, hfirst, hrest, List.flatten_cons, List.append_assoc]

/-- An attempt that does not fail returns, with all rows upserted and all jobs added. -/
theorem NangoSyncRun.returned_store (hsame : sync.Targets job)
    (hpages : Serves (fun c => nango (sync.listParams c)) none pages)
    (hlands : Lands rt job.target (recordsOf pages)) (s : DeliveryStore) :
    let next := fun st : NangoSyncRun × DeliveryStore => st.1.next rt nango st.2
    (∃ n, NangoSyncRun.Returned (next^[n] (.start sync, s))) ∧
      ∀ n, NangoSyncRun.Returned (next^[n] (.start sync, s)) →
        (next^[n] (.start sync, s)).2 =
          { s with rawRecords := (rowsOf rt job (recordsOf pages)).putAll RawRecord.key s.rawRecords
                   ingestJobs := s.ingestJobs ++ jobsOf job (recordsOf pages) } := by
  intro next
  obtain ⟨m, hend, -⟩ := NangoSyncRun.emits pages none hpages (hsame.target_eq ▸ hlands) 0 0 s
  rw [hsame.target_eq, perform_deliverAll hlands] at hend
  refine ⟨⟨m, _, congrArg Prod.fst hend⟩, fun n hreturned => ?_⟩
  have hfixed : ∀ st, NangoSyncRun.Returned st → next st = st := by
    rintro ⟨run, s⟩ ⟨result, hresult⟩
    cases hresult
    rfl
  exact congrArg Prod.snd
    (Function.iterate_eq_of_isFixedPt rfl hend (hfixed _ hreturned) (hfixed _ ⟨_, rfl⟩))

end Attempts

/-! ## The whole sync -/

/-- **A sync takes effect once.** Let the API hand out the pages to the sync processor, let
    every live record land, and let no two of them be about one entity or have one key. After
    any attempts that fail, each after any number of calls, an attempt that does not fail
    returns; and then the raw rows are those of one delivery, and each failed attempt has added
    a beginning of the jobs before all of them. A worker that works these jobs off, as in
    `worker_eq_batch`, ends with the rows that one `ingestNangoRecords` call on the live records
    makes of the spine, and counts as many of them as added and as updated. -/
theorem sync_effectively_once (rt : Runtime) (nango : NangoListParams → Page)
    (job : ReconcileJobData) (sync : NangoSyncJobData) (pages : List Page) (s : DeliveryStore)
    (cuts : List ℕ) (hsame : sync.Targets job)
    (hpages : Serves (fun c => nango (sync.listParams c)) none pages)
    (hlands : Lands rt job.target (recordsOf pages))
    (hind : (callsOf rt (normalizeGithubRecord rt) job.tenantId
      (jobRecords job (recordsOf pages))).Pairwise IngestCall.Independent) :
    let synced := fun st : NangoSyncRun × DeliveryStore => st.1.next rt nango st.2
    let retried := NangoSyncRun.attempts rt nango sync cuts s
    (∃ n, NangoSyncRun.Returned (synced^[n] (.start sync, retried))) ∧
      ∀ n, NangoSyncRun.Returned (synced^[n] (.start sync, retried)) →
        (synced^[n] (.start sync, retried)).2.rawRecords =
            (rowsOf rt job (recordsOf pages)).putAll RawRecord.key s.rawRecords ∧
          ∃ parts : List (List IngestJobData), parts.length = cuts.length ∧
            (∀ part ∈ parts, part <+: jobsOf job (recordsOf pages)) ∧
            (synced^[n] (.start sync, retried)).2.ingestJobs =
              s.ingestJobs ++ (parts.flatten ++ jobsOf job (recordsOf pages)) ∧
            ∀ (p p' : Pipeline) (procs : List JobProc) (m : ℕ),
              (ingestPipeline rt False).Moves m
                ((enqueued (parts.flatten ++ jobsOf job (recordsOf pages))).map (.waiting · 0), p)
                (procs, p') →
              WorkedOff rt procs →
              let batch := ingestNangoRecords rt (normalizeGithubRecord rt) (some job.tenantId)
                (jobRecords job (recordsOf pages)) p.spine
              p'.spine.Perm batch.2 ∧ (workCounts procs).added = batch.1.added ∧
                (workCounts procs).updated = batch.1.updated := by
  intro synced retried
  obtain ⟨rawRecords, parts, hlen, hparts, hraw, hretried⟩ :=
    NangoSyncRun.attempts_cutOff hsame hpages hlands cuts s
  obtain ⟨hreturns, hstore⟩ := NangoSyncRun.returned_store hsame hpages hlands retried
  refine ⟨hreturns, fun n hreturned => ?_⟩
  rw [hstore n hreturned]
  have hretried' : retried =
      { s with rawRecords, ingestJobs := s.ingestJobs ++ parts.flatten } := hretried
  rw [hretried']
  refine ⟨hraw, parts, hlen, hparts, List.append_assoc .., fun p p' procs m hmoves hoff => ?_⟩
  -- what the failed attempts have added comes again
  have hqueue : ∀ data, data ∈ parts.flatten ++ jobsOf job (recordsOf pages) ↔
      data ∈ jobsOf job (recordsOf pages) := by
    intro data
    rw [List.mem_append, List.mem_flatten, or_iff_right_iff_imp]
    rintro ⟨part, hpart, hdata⟩
    exact (hparts part hpart).subset hdata
  exact worker_redelivered hqueue tenantId_of_mem_jobsOf hind hmoves hoff

/-! ## A sync that fails once -/

/-- The sync fails when it is about to land the second issue, and is retried: the first issue
    is enqueued twice. -/
def retriedQueue : List IngestJobData :=
  [issueRecord "v1" "A", issueRecord "v1" "A", secondIssue].map issueReconcile.ingestJob

/-- The two jobs of the first issue are taken up at once, and overlap as far as two calls may
    that decide on what they read; one of them loses its connection and is retried. -/
def retriedDone : List JobProc × Pipeline :=
  Pool.runMoves (WorkerMove.next plainRuntime)
    [(0, .goes), (1, .goes), (0, .goes), (1, .goes), (0, .goes), (1, .goes),
      (0, .throws lostConnection), (1, .goes), (2, .goes), (0, .goes), (1, .goes), (2, .goes),
      (2, .goes), (0, .goes), (2, .goes), (0, .goes), (2, .goes), (3, .goes)]
    ((enqueued retriedQueue).map (.waiting · 0), ⟨[], [], []⟩)

theorem sync_effectively_once_issues :
    retriedDone.2.spine.map (·.externalId) = ["issue:1", "issue:2"] ∧
      retriedDone.2.spine.Perm (ingestNangoRecords plainRuntime (normalizeGithubRecord plainRuntime)
        (some tenantA) (jobRecords issueReconcile (recordsOf [issuesPage])) []).2 := by
  refine ⟨by decide +kernel, ?_⟩
  obtain ⟨⟨n, hreturned⟩, hsync⟩ := sync_effectively_once plainRuntime (fun _ => issuesPage)
    issueReconcile issueSync [issuesPage] ⟨[], [], []⟩ [3] ⟨rfl, rfl, rfl⟩ serves_issues
    lands_issues independent_issues
  obtain ⟨-, parts, -, -, hjobs, hwork⟩ := hsync n hreturned
  have hstore :=
    (NangoSyncRun.returned_store ⟨rfl, rfl, rfl⟩ serves_issues lands_issues _).2 n hreturned
  rw [hstore] at hjobs
  have hqueue : parts.flatten ++ jobsOf issueReconcile (recordsOf [issuesPage]) = retriedQueue :=
    hjobs.symm.trans rfl
  obtain ⟨m, hmoves⟩ := @Pool.moves_runMoves _ _ (ingestPipeline plainRuntime False) _
    (WorkerMove.next plainRuntime) WorkerMove.next_step _
    ((enqueued retriedQueue).map (.waiting · 0), ⟨[], [], []⟩)
  refine (hwork ⟨[], [], []⟩ retriedDone.2 retriedDone.1 m ?_ ?_).1
  · rw [hqueue]
    exact hmoves
  · exact workedOff_of_all (by decide +kernel)

end Shiplog
