import Shiplog.Spec.BatchQueue
import Shiplog.Spec.Pagination

/-!
# From the records API to the spine

A record comes to the spine in two halves: a delivery run lands it and enqueues it, and the
ingest worker takes it up. Put together, over any pages the API hands out, they come to one call
of `ingestNangoRecords` on the live records, whichever of the two processors did the delivery
and whatever outages the worker got over.

## Key results

- `NangoSyncRun.delivers`, `ReconcileRun.delivers`: the jobs a whole delivery run adds
- `pages_to_spine`: what becomes of the pages
-/

namespace Shiplog

/-- The ingest jobs added between two stores. -/
def DeliveryStore.added (s s' : DeliveryStore) : List IngestJobData :=
  s'.ingestJobs.drop s.ingestJobs.length

section Delivers

variable {rt : Runtime} {nango : NangoListParams → Page} {job : ReconcileJobData}
  {sync : NangoSyncJobData} {pages : List Page} {s : DeliveryStore}

/-- A run from `start` returns, with the jobs of these records added. -/
def Delivers {R : Type} (next : R × DeliveryStore → R × DeliveryStore)
    (returned : R × DeliveryStore → Prop) (start : R) (job : ReconcileJobData)
    (records : List NangoRecord) (s : DeliveryStore) : Prop :=
  (∃ n, returned (next^[n] (start, s))) ∧
    ∀ n, returned (next^[n] (start, s)) → s.added (next^[n] (start, s)).2 = jobsOf job records

/-- A run whose returned states are fixed delivers what one of its ends has delivered. -/
private theorem Delivers.of_end {R : Type} {next : R × DeliveryStore → R × DeliveryStore}
    {returned : R × DeliveryStore → Prop} {start : R} {records : List NangoRecord}
    {st : R × DeliveryStore} (hfixed : ∀ st, returned st → next st = st) {n : ℕ}
    (hend : next^[n] (start, s) = st) (hreturned : returned st)
    (hadded : s.added st.2 = jobsOf job records) : Delivers next returned start job records s := by
  refine ⟨⟨n, hend ▸ hreturned⟩, fun m hreturned' => ?_⟩
  rw [Function.iterate_eq_of_isFixedPt rfl hend (hfixed _ hreturned') (hfixed st hreturned)]
  exact hadded

/-- The jobs behind those that were there. -/
private theorem added_perform {records : List NangoRecord} (hlands : Lands rt job.target records)
    (states : List SyncState) :
    s.added { (deliverAll rt job.target records).foldl DeliveryOp.perform s with
      syncStates := states } = jobsOf job records := by
  rw [perform_deliverAll hlands]
  exact List.drop_left

/-- **A sync run** over pages returns, with the jobs of their live records added. -/
theorem NangoSyncRun.delivers (hsame : sync.Targets job)
    (hpages : Serves (fun c => nango (sync.listParams c)) none pages)
    (hlands : Lands rt job.target (recordsOf pages)) (s : DeliveryStore) :
    Delivers (fun st : NangoSyncRun × DeliveryStore => st.1.next rt nango st.2)
      NangoSyncRun.Returned (.start sync) job (recordsOf pages) s := by
  obtain ⟨n, hend, -⟩ :=
    NangoSyncRun.emits pages none hpages (hsame.target_eq ▸ hlands) 0 0 s
  rw [hsame.target_eq] at hend
  refine .of_end ?_ hend ⟨_, rfl⟩ (added_perform hlands _)
  rintro ⟨run, s⟩ ⟨result, hresult⟩
  cases hresult
  rfl

/-- **A reconcile run** over pages returns, with the jobs of their live records added. -/
theorem ReconcileRun.delivers (hpages : Serves (fun c => nango (job.listParams c)) none pages)
    (htokens : (pages.filterMap (·.nextCursor)).Nodup)
    (hlands : Lands rt job.target (recordsOf pages))
    (hstored : job.storedCursor s.syncStates = none) :
    Delivers (fun st : ReconcileRun × DeliveryStore => st.1.next rt nango st.2)
      ReconcileRun.Returned (.load job) job (recordsOf pages) s := by
  obtain ⟨states, -, hrun⟩ := ReconcileRun.emits pages none none hpages
    (fun token htoken => absurd htoken (Option.some_ne_none token).symm) htokens hlands 0 0 s
    hstored
  -- the run begins by loading the cursor, and there is none
  have hload : (ReconcileRun.load job).next rt nango s = (.fetch job ⟨0, 0, none, none⟩, s) := by
    simp only [ReconcileRun.next, hstored]
  have hwhole : Function.Emits (fun st : ReconcileRun × DeliveryStore => st.1.next rt nango st.2)
      (fun st => st.1.ops rt) (.load job, s) (deliverAll rt job.target (recordsOf pages)) _ :=
    .silent hload rfl hrun
  obtain ⟨n, hend, -⟩ := hwhole
  refine .of_end ?_ hend ⟨_, rfl⟩ (added_perform hlands states)
  rintro ⟨run, s⟩ ⟨result, hresult⟩
  cases hresult
  rfl

end Delivers

/-- The records of the jobs of a delivery, as the worker takes them up. -/
def jobRecords (job : ReconcileJobData) (records : List NangoRecord) : List (Option NangoRecord) :=
  (jobsOf job records).map (·.record)

/-- The jobs of a delivery are its tenant's. -/
theorem tenantId_of_mem_jobsOf {job : ReconcileJobData} {records : List NangoRecord} :
    ∀ data ∈ jobsOf job records, data.tenantId = job.tenantId := by
  intro data hdata
  obtain ⟨record, -, rfl⟩ := List.mem_map.mp hdata
  rfl

/-- **From the records API to the spine.** Let the API hand out pages as `Serves` says, with
    pairwise different tokens, to both processors, started for the same tenant, connection and
    model and without a stored cursor; let every live record land, and let no two of them be
    about one entity or have one key. Then both return; and whichever of the two delivered, if
    the worker works off the jobs it has added, as in `worker_eq_batch`, then the rows and the
    counts are those of one `ingestNangoRecords` call on the live records, stamped with the
    model, and each job whose record cannot be ingested has its dead letter. -/
theorem pages_to_spine (rt : Runtime) (nango : NangoListParams → Page) (job : ReconcileJobData)
    (sync : NangoSyncJobData) (pages : List Page) (s : DeliveryStore)
    (hsame : sync.Targets job) (hpages : Serves (fun c => nango (job.listParams c)) none pages)
    (hpages' : Serves (fun c => nango (sync.listParams c)) none pages)
    (htokens : (pages.filterMap (·.nextCursor)).Nodup)
    (hlands : Lands rt job.target (recordsOf pages))
    (hstored : job.storedCursor s.syncStates = none)
    (hind : (callsOf rt (normalizeGithubRecord rt) job.tenantId
      (jobRecords job (recordsOf pages))).Pairwise IngestCall.Independent) :
    let synced := fun st : NangoSyncRun × DeliveryStore => st.1.next rt nango st.2
    let polled := fun st : ReconcileRun × DeliveryStore => st.1.next rt nango st.2
    (∃ n, NangoSyncRun.Returned (synced^[n] (.start sync, s))) ∧
      (∃ n, ReconcileRun.Returned (polled^[n] (.load job, s))) ∧
      ∀ n s', (NangoSyncRun.Returned (synced^[n] (.start sync, s)) ∧
            s' = (synced^[n] (.start sync, s)).2 ∨
          ReconcileRun.Returned (polled^[n] (.load job, s)) ∧
            s' = (polled^[n] (.load job, s)).2) →
        ∀ (p p' : Pipeline) (procs : List JobProc) (m : ℕ),
          (ingestPipeline rt False).Moves m ((enqueued (s.added s')).map (.waiting · 0), p)
            (procs, p') →
          WorkedOff rt procs →
          let batch := ingestNangoRecords rt (normalizeGithubRecord rt) (some job.tenantId)
            (jobRecords job (recordsOf pages)) p.spine
          p'.spine.Perm batch.2 ∧ workCounts procs = batch.1 ∧
            ∀ queued ∈ enqueued (s.added s'), queued.call? rt = none →
              DeadLettered queued p'.deadLetters := by
  intro synced polled
  have hsync := NangoSyncRun.delivers hsame hpages' hlands s
  have hpoll := ReconcileRun.delivers hpages htokens hlands hstored
  refine ⟨hsync.1, hpoll.1, fun n s' hdone p p' procs m hmoves hoff => ?_⟩
  have hadded : s.added s' = jobsOf job (recordsOf pages) := by
    rcases hdone with ⟨hreturned, rfl⟩ | ⟨hreturned, rfl⟩
    · exact hsync.2 n hreturned
    · exact hpoll.2 n hreturned
  -- the jobs are the tenant's, and their records are the live ones
  have htenant : ∀ queued ∈ enqueued (s.added s'), queued.data.tenantId = job.tenantId := by
    intro queued hqueued
    obtain ⟨data, hdata, rfl⟩ := List.mem_map.mp hqueued
    exact tenantId_of_mem_jobsOf data (hadded ▸ hdata)
  have hrecords : (enqueued (s.added s')).map (·.data.record) =
      jobRecords job (recordsOf pages) := by
    rw [enqueued, List.map_map, hadded]
    rfl
  have hagree := worker_eq_batch rt job.tenantId _ p p' procs m htenant (hrecords ▸ hind)
    hmoves hoff
  rw [hrecords] at hagree
  exact hagree

/-! ## A page during an outage -/

/-- A page of two issues, and a tombstone. -/
def issuesPage : Page := ⟨[issueRecord "v1" "A", secondIssue, goneRecord], none⟩

/-- The jobs of the page. -/
def issuesJobs : List IngestJobData := jobsOf issueReconcile (recordsOf [issuesPage])

/-- Both are taken up; the first one loses its connection, is overtaken and retried. -/
def issuesDone : List JobProc × Pipeline :=
  Pool.runMoves (WorkerMove.next plainRuntime)
    [(0, .goes), (1, .goes), (0, .goes), (0, .throws lostConnection), (1, .goes), (1, .goes),
      (1, .goes), (1, .goes), (2, .goes), (0, .goes), (0, .goes), (0, .goes), (0, .goes),
      (0, .goes)]
    ((enqueued issuesJobs).map (.waiting · 0), ⟨[], [], []⟩)

theorem serves_issues : Serves (fun _ => issuesPage) none [issuesPage] := ⟨rfl, Or.inl rfl⟩

theorem lands_issues : Lands plainRuntime issueReconcile.target (recordsOf [issuesPage]) := by
  have hids : ∀ record ∈ issuesPage.records, ∃ id, nangoRecordId plainRuntime record = .ok id :=
    List.forall_mem_cons.mpr ⟨⟨"1", rfl⟩, List.forall_mem_cons.mpr ⟨⟨"2", rfl⟩,
      List.forall_mem_singleton.mpr ⟨"r2", rfl⟩⟩⟩
  intro record hrecord _
  obtain ⟨id, hid⟩ := hids record hrecord
  exact rawRow_of_printable ((nangoRecordId_stamped _ _ _).trans hid)

theorem independent_issues : (callsOf plainRuntime (normalizeGithubRecord plainRuntime) tenantA
    (jobRecords issueReconcile (recordsOf [issuesPage]))).Pairwise IngestCall.Independent :=
  callsOf_pairwise (by decide +kernel)

/-- The page is delivered by a webhook's sync, and both issues are ingested all the same. -/
theorem pages_to_spine_issues :
    issuesDone.2.spine.map (·.externalId) = ["issue:2", "issue:1"] ∧
      issuesDone.2.spine.Perm (ingestNangoRecords plainRuntime (normalizeGithubRecord plainRuntime)
        (some tenantA) (jobRecords issueReconcile (recordsOf [issuesPage])) []).2 := by
  refine ⟨by decide +kernel, ?_⟩
  obtain ⟨⟨n, hreturned⟩, -, hspine⟩ := pages_to_spine plainRuntime (fun _ => issuesPage)
    issueReconcile issueSync [issuesPage] ⟨[], [], []⟩ ⟨rfl, rfl, rfl⟩ serves_issues serves_issues
    List.nodup_nil lands_issues rfl independent_issues
  have hadded := (NangoSyncRun.delivers ⟨rfl, rfl, rfl⟩ serves_issues lands_issues
    ⟨[], [], []⟩).2 n hreturned
  obtain ⟨m, hmoves⟩ := @Pool.moves_runMoves _ _ (ingestPipeline plainRuntime False) _
    (WorkerMove.next plainRuntime) WorkerMove.next_step _
    ((enqueued issuesJobs).map (.waiting · 0), ⟨[], [], []⟩)
  refine (hspine n _ (Or.inl ⟨hreturned, rfl⟩) ⟨[], [], []⟩ issuesDone.2 issuesDone.1 m ?_ ?_).1
  · rw [hadded]
    exact hmoves
  · exact workedOff_of_all (by decide +kernel)

end Shiplog
