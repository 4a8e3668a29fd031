import Shiplog.Native.Workers
import Shiplog.Spec.RecordShape
import Shiplog.Spec.Settling
import Shiplog.Spec.WorkerSerial

/-!
# The batch and the queue agree

The repository ingests a list of records in two ways: `ingestNangoRecords` in one loop, and the
ingest worker job by job, several at a time, with retries and dead letters. Where the records
have independent calls and no outage outlasts a job, the worker leaves no trace of its
interleavings and faults: its spine holds the rows of the loop, its answers count as the loop
counts, and it dead-letters the jobs whose records the loop counts as failed.

## Key results

- `worker_charges`: every job taken up stays in the charge of one process
- `WorkedOff`: the jobs are done, and only records that cannot be ingested have failed
- `worker_eq_batch`: the worker agrees with the batch
- `worker_redelivered`: so it does when jobs are repeated
-/

namespace Shiplog

/-! ## One process for each job -/

/-- The job a process is in charge of, if any. -/
def JobProc.charges : JobProc → List Job
  | .failing job made err | .parking job made err _ | .handled job made err =>
    if bullmqRetries job.attempts made err then [] else [job]
  | p => [p.job]

namespace JobProc

variable {rt : Runtime} {m : Moment} {job : Job} {attemptsMade : ℕ}

private theorem mem_charges {p : JobProc} : job ∈ p.charges ↔ p.InCharge job := by
  have hif : ∀ {job' : Job} {retries : Bool}, job ∈ (if retries then [] else [job']) ↔
      job' = job ∧ retries = false := by
    intro job' retries
    cases retries <;> simp [eq_comm]
  cases p with
  | failing job' made err => exact hif
  | parking job' made err doc => exact hif
  | handled job' made err => exact hif
  | _ => exact List.mem_singleton.trans eq_comm

/-- An attempt that throws passes the charge of its job on to one process. -/
private theorem throwing_charges (err : JsVal) :
    (throwing rt m job attemptsMade err).1.charges ++
      (throwing rt m job attemptsMade err).2.flatMap charges = [job] := by
  unfold throwing
  simp only
  split
  · next hretry =>
    split
    · rfl
    · simp [charges, JobProc.job, hretry]
  · next hgone => simp [charges, hgone]

private theorem enterIngest_charges (failMode : JsVal) :
    (enterIngest rt m job attemptsMade failMode).1.charges ++
      (enterIngest rt m job attemptsMade failMode).2.flatMap charges = [job] := by
  unfold enterIngest
  split
  · exact throwing_charges _
  · rfl

private theorem afterIngest_charges (run : IngestRun) :
    (afterIngest rt m job attemptsMade run).1.charges ++
      (afterIngest rt m job attemptsMade run).2.flatMap charges = [job] := by
  unfold afterIngest
  split
  · rfl
  · rfl
  · exact throwing_charges _

/-- A step passes on the charge of a job, to one process. -/
private theorem Step.charges {createThrows : Prop} {p p' : JobProc} {s s' : Pipeline}
    {new : List JobProc} (h : Step rt createThrows p s p' s' new) :
    p'.charges ++ new.flatMap JobProc.charges = p.charges := by
  cases h with
  | start failMode m h => exact enterIngest_charges failMode
  | demoRecovered m h => exact enterIngest_charges _
  | demoOutage m h => exact throwing_charges _
  | demoThrow m err => exact throwing_charges err
  | ingest m h => exact afterIngest_charges _
  -- the handler's steps keep the job and the error
  | _ => exact List.append_nil _

end JobProc

/-- **Every job taken up** stays in the charge of one process. -/
theorem worker_charges {rt : Runtime} {createThrows : Prop} {jobs : List Job} {s₀ : Pipeline}
    {n : ℕ} {c : List JobProc × Pipeline}
    (h : (ingestPipeline rt createThrows).Moves n (jobs.map (.waiting · 0), s₀) c) :
    (c.1.flatMap JobProc.charges).Perm jobs := by
  have hperm := h.perm_held fun p s p' s' new hstep => JobProc.Step.charges hstep
  have hstart : (jobs.map (JobProc.waiting · 0)).flatMap JobProc.charges = jobs := by
    rw [List.flatMap_map]
    exact List.flatMap_singleton' jobs
  exact hstart ▸ hperm

/-! ## Jobs that are done -/

/-- The worker is done with its jobs, and those that have failed for good are those whose
    records cannot be ingested. -/
def WorkedOff (rt : Runtime) (ps : List JobProc) : Prop :=
  ∀ p ∈ ps, ∀ job, p.InCharge job → (∃ res, p = .completed job res) ∨
    (∃ made err, p = .handled job made err) ∧ job.call? rt = none

/-- The status a completed job has answered with. -/
def JobProc.status? : JobProc → Option IngestStatus
  | .completed _ res => some res.status
  | _ => none

/-- Whether the handler of a job that failed for good has finished. -/
def JobProc.isFailed : JobProc → Bool
  | .handled job made err => !bullmqRetries job.attempts made err
  | _ => false

/-- What has become of the jobs, counted as a batch counts its records. -/
def workCounts (ps : List JobProc) : RunCounts where
  added := (ps.filterMap JobProc.status?).count .added
  updated := (ps.filterMap JobProc.status?).count .updated
  deleted := 0
  failed := ps.countP JobProc.isFailed
  unchanged := (ps.filterMap JobProc.status?).count .unchanged

section Counts

variable {rt : Runtime} {ps : List JobProc} {s : Pipeline}

/-- A batch's counts after some statuses. -/
private theorem RunCounts.foldl_count (statuses : List IngestStatus) (counts : RunCounts) :
    statuses.foldl RunCounts.count counts =
      { counts with added := counts.added + statuses.count .added
                    updated := counts.updated + statuses.count .updated
                    unchanged := counts.unchanged + statuses.count .unchanged } := by
  induction statuses generalizing counts with
  | nil => rfl
  | cons status statuses ih =>
    rw [List.foldl_cons, ih]
    cases status <;> simp [RunCounts.count, Nat.add_assoc, Nat.add_comm 1]

/-- Every status is counted. -/
private theorem length_statuses (statuses : List IngestStatus) : statuses.length =
    statuses.count .added + statuses.count .updated + statuses.count .unchanged := by
  induction statuses with
  | nil => rfl
  | cons status statuses ih =>
    cases status <;> simp [ih] <;> omega

private theorem statuses_answers (ps : List JobProc) :
    statuses (ps.flatMap JobProc.answers) = ps.filterMap JobProc.status? := by
  unfold statuses
  rw [List.filterMap_flatMap, List.filterMap_eq_flatMap_toList]
  refine List.flatMap_congr fun p _ => ?_
  cases p <;> rfl

/-- A completed job has a call. -/
private theorem ResultOf.call?_ne_none {job : Job} {res : IngestResult} (h : ResultOf rt job res) :
    job.call? rt ≠ none := by
  obtain ⟨input, c, status, hin, hprep, -⟩ := h
  simp only [Job.call?, recordCall?, hin, hprep, Except.toOption]
  exact Option.some_ne_none c

/-- When the jobs are done, a process in charge of one has completed it or failed on its
    record. -/
private theorem WorkedOff.process (hoff : WorkedOff rt ps) {p : JobProc} (hp : p ∈ ps)
    (haccounted : Accounted rt s p) :
    p.charges.countP (fun job => (job.call? rt).isNone) = p.isFailed.toNat ∧
      p.charges.length = p.status?.toList.length + p.isFailed.toNat := by
  have hdone := hoff p hp
  -- worked off, so a process in charge of a job is at one of its two ends
  have hnone : ∀ job, p.InCharge job → (∀ res, p ≠ .completed job res) →
      (∀ made err, p ≠ .handled job made err) → False := by
    intro job hjob hres herr
    rcases hdone job hjob with ⟨res, heq⟩ | ⟨⟨made, err, heq⟩, -⟩
    · exact hres res heq
    · exact herr made err heq
  cases p with
  | completed job res =>
    have hcall := ResultOf.call?_ne_none haccounted
    simp [JobProc.charges, JobProc.job, JobProc.isFailed, JobProc.status?, hcall]
  | handled job made err =>
    -- after a failure that is retried another process is in charge of the job
    cases hretry : bullmqRetries job.attempts made err with
    | true => simp [JobProc.charges, JobProc.isFailed, JobProc.status?, hretry]
    | false =>
      rcases hdone job ⟨rfl, hretry⟩ with ⟨res, heq⟩ | ⟨-, hcall⟩
      · cases heq
      · simp [JobProc.charges, JobProc.isFailed, JobProc.status?, hretry, hcall]
  | failing job made err =>
    cases hretry : bullmqRetries job.attempts made err with
    | true => simp [JobProc.charges, JobProc.isFailed, JobProc.status?, hretry]
    | false => exact (hnone job ⟨rfl, hretry⟩ nofun nofun).elim
  | parking job made err doc =>
    cases hretry : bullmqRetries job.attempts made err with
    | true => simp [JobProc.charges, JobProc.isFailed, JobProc.status?, hretry]
    | false => exact (hnone job ⟨rfl, hretry⟩ nofun nofun).elim
  | waiting job made => exact (hnone job rfl nofun nofun).elim
  | demoCheck job made failMode id => exact (hnone job rfl nofun nofun).elim
  | ingesting job made run => exact (hnone job rfl nofun nofun).elim
  | givenUp job made err => exact (hnone job rfl nofun nofun).elim

/-- So the jobs without a call are the failed ones, and each other one has a status. -/
private theorem WorkedOff.counts (hoff : WorkedOff rt ps) (hall : ∀ p ∈ ps, Accounted rt s p) :
    (ps.flatMap JobProc.charges).countP (fun job => (job.call? rt).isNone) =
        ps.countP JobProc.isFailed ∧
      (ps.flatMap JobProc.charges).length =
        (ps.filterMap JobProc.status?).length + ps.countP JobProc.isFailed := by
  induction ps with
  | nil => exact ⟨rfl, rfl⟩
  | cons p ps ih =>
    obtain ⟨hcount, hlength⟩ := hoff.process List.mem_cons_self (hall p List.mem_cons_self)
    obtain ⟨ihcount, ihlength⟩ := ih (fun q hq => hoff q (List.mem_cons_of_mem p hq))
      fun q hq => hall q (List.mem_cons_of_mem p hq)
    have hfailed : (p :: ps).countP JobProc.isFailed =
        ps.countP JobProc.isFailed + p.isFailed.toNat := by
      rw [List.countP_cons]
      cases p.isFailed <;> rfl
    have hstatuses : ((p :: ps).filterMap JobProc.status?).length =
        p.status?.toList.length + (ps.filterMap JobProc.status?).length := by
      cases hstatus : p.status? <;> simp [hstatus, Nat.add_comm]
    rw [List.flatMap_cons, List.countP_append, List.length_append, hfailed, hstatuses, hcount,
      hlength, ihcount, ihlength]
    omega

end Counts

/-! ## The worker and the batch -/

section Worker

variable {rt : Runtime} {t : ObjectId} {jobs : List Job} {s₀ s : Pipeline} {ps : List JobProc}
  {n : ℕ}

/-- The calls of a tenant's jobs are those of their records. -/
private theorem callsOf_jobs (ht : ∀ job ∈ jobs, job.data.tenantId = t) :
    callsOf rt (normalizeGithubRecord rt) t (jobs.map (·.data.record)) =
      {c | ∃ job ∈ jobs, job.call? rt = some c} := by
  ext c
  constructor
  · rintro ⟨record, hrecord, hc⟩
    obtain ⟨job, hjob, rfl⟩ := List.mem_map.mp hrecord
    exact ⟨job, hjob, by rw [Job.call?, ht job hjob]; exact hc⟩
  · rintro ⟨job, hjob, hc⟩
    rw [Job.call?, ht job hjob] at hc
    exact ⟨_, List.mem_map_of_mem hjob, hc⟩

/-- When the jobs are done, the completed ones come to all the calls there are. -/
private theorem WorkedOff.calls (hoff : WorkedOff rt ps)
    (hcharges : (ps.flatMap JobProc.charges).Perm jobs) {c : IngestCall} :
    (∃ x ∈ ps.flatMap JobProc.answers, x.1.call? rt = some c) ↔
      ∃ job ∈ jobs, job.call? rt = some c := by
  constructor
  · rintro ⟨x, hx, hc⟩
    obtain ⟨p, hp, hxp⟩ := List.mem_flatMap.mp hx
    cases p with
    | completed job res =>
      cases List.mem_singleton.mp hxp
      exact ⟨job, hcharges.mem_iff.mp (List.mem_flatMap.mpr ⟨_, hp, List.mem_singleton.mpr rfl⟩),
        hc⟩
    | _ => exact absurd hxp List.not_mem_nil
  · rintro ⟨job, hjob, hc⟩
    obtain ⟨p, hp, hcharge⟩ := List.mem_flatMap.mp (hcharges.mem_iff.mpr hjob)
    -- the job has a call, so it has not failed
    rcases hoff p hp job (JobProc.mem_charges.mp hcharge) with ⟨res, rfl⟩ | ⟨-, hcall⟩
    · exact ⟨_, List.mem_flatMap.mpr ⟨_, hp, List.mem_singleton.mpr rfl⟩, hc⟩
    · rw [hc] at hcall
      cases hcall

/-- When the jobs are done, their counts are those of any batch on their records that adds and
    updates as many. -/
private theorem WorkedOff.counts_eq (hoff : WorkedOff rt ps) (hall : ∀ p ∈ ps, Accounted rt s p)
    (hcharges : (ps.flatMap JobProc.charges).Perm jobs) (ht : ∀ job ∈ jobs, job.data.tenantId = t)
    {spine : Spine} {batch : RunCounts × Spine}
    (hbatch : ingestNangoRecords rt (normalizeGithubRecord rt) (some t)
      (jobs.map (·.data.record)) spine = batch)
    (hadded : (ps.filterMap JobProc.status?).count .added = batch.1.added)
    (hupdated : (ps.filterMap JobProc.status?).count .updated = batch.1.updated) :
    workCounts ps = batch.1 := by
  obtain ⟨hfailed, hlength⟩ := hoff.counts hall
  obtain ⟨hbatchFailed, hbatchDeleted⟩ := @ingestNangoRecords_failed _ rt
    (normalizeGithubRecord rt) t (jobs.map (·.data.record)) spine
  have htotal := (@balanced_ingestNangoRecords _ rt (normalizeGithubRecord rt) t
    (jobs.map (·.data.record)) spine).total
  have hcountP : (jobs.map (·.data.record)).countP
      (fun record => (recordCall? rt (normalizeGithubRecord rt) t record).isNone) =
        jobs.countP fun job => (job.call? rt).isNone := by
    rw [List.countP_map]
    exact List.countP_congr fun job hjob => by
      rw [Job.call?, ht job hjob]
      rfl
  rw [hcharges.countP_eq] at hfailed
  rw [hcharges.length_eq, length_statuses] at hlength
  rw [hcountP, hfailed, hbatch] at hbatchFailed
  rw [List.length_map, hbatch] at htotal
  rw [hbatch] at hbatchDeleted
  -- what is neither added nor updated nor failed is unchanged
  have hunchanged : (ps.filterMap JobProc.status?).count .unchanged = batch.1.unchanged := by
    omega
  unfold workCounts
  rw [hadded, hupdated, hunchanged, ← hbatchFailed]
  exact congrArg (RunCounts.mk _ _ · _ _) hbatchDeleted.symm

end Worker

/-- **The worker agrees with the batch.** Take ingest jobs of one tenant whose calls, unless they
    are one call, are about two entities and have two keys. Let the worker take them up in any
    interleaving, with any store call throwing but `DeadLetter.create`, until it is done with
    them, and let only the jobs fail for good whose records cannot be ingested. Then the spine
    holds the rows that one `ingestNangoRecords` call on their records makes of it, the jobs
    that completed and failed count as this call counts, and a job whose record cannot be
    ingested has its dead letter. -/
theorem worker_eq_batch (rt : Runtime) (t : ObjectId) (jobs : List Job) (s₀ s : Pipeline)
    (ps : List JobProc) (n : ℕ) (ht : ∀ job ∈ jobs, job.data.tenantId = t)
    (hind : (callsOf rt (normalizeGithubRecord rt) t (jobs.map (·.data.record))).Pairwise
      IngestCall.Independent)
    (h : (ingestPipeline rt False).Moves n (jobs.map (.waiting · 0), s₀) (ps, s))
    (hoff : WorkedOff rt ps) :
    let batch := ingestNangoRecords rt (normalizeGithubRecord rt) (some t)
      (jobs.map (·.data.record)) s₀.spine
    s.spine.Perm batch.2 ∧ workCounts ps = batch.1 ∧
      ∀ job ∈ jobs, job.call? rt = none → DeadLettered job s.deadLetters := by
  intro batch
  have hcharges := worker_charges h
  have haccounted := ((pipeline_accounted rt).reaches h.reaches trivial fun p hp => by
    obtain ⟨job, -, rfl⟩ := List.mem_map.mp hp
    exact trivial).2
  -- the completed jobs, in the order they completed, are a batch with the same calls
  obtain ⟨done, hanswers, hserial⟩ := worker_serial (callsOf_jobs ht ▸ hind) h
  have hdone : ∀ x ∈ done, x.1.data.tenantId = t ∧ ∃ res, x.2 = .ok res := by
    intro x hx
    obtain ⟨p, hp, hxp⟩ := List.mem_flatMap.mp (hanswers.mem_iff.mpr hx)
    cases p with
    | completed job res =>
      cases List.mem_singleton.mp hxp
      refine ⟨ht job (hcharges.mem_iff.mp ?_), res, rfl⟩
      exact List.mem_flatMap.mpr ⟨_, hp, List.mem_singleton.mpr rfl⟩
    | _ => exact absurd hxp List.not_mem_nil
  have hsame : callsOf rt (normalizeGithubRecord rt) t (done.map (·.1.data.record)) =
      callsOf rt (normalizeGithubRecord rt) t (jobs.map (·.data.record)) := by
    have hjobs := @callsOf_jobs rt t (done.map Prod.fst) fun job hjob => by
      obtain ⟨x, hx, rfl⟩ := List.mem_map.mp hjob
      exact (hdone x hx).1
    rw [List.map_map] at hjobs
    rw [callsOf_jobs ht]
    refine hjobs.trans (Set.ext fun c => ?_)
    refine Iff.trans ?_ (hoff.calls hcharges)
    show (∃ job ∈ done.map Prod.fst, _) ↔ _
    simp only [List.mem_map, exists_exists_and_eq_and, hanswers.mem_iff]
  obtain ⟨hperm, hadded, hupdated⟩ := ingestNangoRecords_perm hind hsame s₀.spine
  have hstatuses : (statuses done).Perm (ps.filterMap JobProc.status?) :=
    statuses_answers ps ▸ hanswers.symm.filterMap _
  rw [serial_eq_batch hdone hserial, RunCounts.foldl_count] at hperm hadded hupdated
  simp only [hstatuses.count_eq, emptyCounts, Nat.zero_add] at hadded hupdated
  refine ⟨hperm, hoff.counts_eq haccounted hcharges ht rfl hadded hupdated,
    fun job hjob hcall => ?_⟩
  obtain ⟨p, hp, hcharge⟩ := List.mem_flatMap.mp (hcharges.mem_iff.mpr hjob)
  rcases hoff p hp job (JobProc.mem_charges.mp hcharge) with ⟨res, rfl⟩ | ⟨⟨made, err, rfl⟩, -⟩
  · exact absurd hcall (ResultOf.call?_ne_none (haccounted _ hp))
  · exact haccounted _ hp (JobProc.mem_charges.mp hcharge).2

/-- The ingest jobs of a queue, as the worker finds them. -/
def enqueued (queue : List IngestJobData) : List Job :=
  queue.map fun data => ⟨data, ingestAttempts⟩

/-- **Repetitions make no difference.** Let the queue hold ingest jobs of one tenant, in any order
    and each any number of times. A worker that has worked them off as in `worker_eq_batch` ends
    with the rows that one `ingestNangoRecords` call on their records makes of the spine, and
    counts as many of them as added and as updated. -/
theorem worker_redelivered {rt : Runtime} {t : ObjectId} {queue jobs : List IngestJobData}
    {s₀ s : Pipeline} {ps : List JobProc} {n : ℕ} (hqueue : ∀ data, data ∈ queue ↔ data ∈ jobs)
    (ht : ∀ data ∈ jobs, data.tenantId = t)
    (hind : (callsOf rt (normalizeGithubRecord rt) t (jobs.map (·.record))).Pairwise
      IngestCall.Independent)
    (h : (ingestPipeline rt False).Moves n ((enqueued queue).map (.waiting · 0), s₀) (ps, s))
    (hoff : WorkedOff rt ps) :
    let batch := ingestNangoRecords rt (normalizeGithubRecord rt) (some t) (jobs.map (·.record))
      s₀.spine
    s.spine.Perm batch.2 ∧ (workCounts ps).added = batch.1.added ∧
      (workCounts ps).updated = batch.1.updated := by
  intro batch
  have hrecords : (enqueued queue).map (·.data.record) = queue.map (·.record) := by
    rw [enqueued, List.map_map]
    rfl
  -- a job delivered again makes the call it made before
  have hsame : callsOf rt (normalizeGithubRecord rt) t (queue.map (·.record)) =
      callsOf rt (normalizeGithubRecord rt) t (jobs.map (·.record)) := by
    ext c
    show (∃ record ∈ queue.map _, _) ↔ ∃ record ∈ jobs.map _, _
    simp only [List.mem_map, exists_exists_and_eq_and, hqueue]
  obtain ⟨hperm, hcounts, -⟩ := worker_eq_batch rt t (enqueued queue) s₀ s ps n (fun job hjob => by
    obtain ⟨data, hdata, rfl⟩ := List.mem_map.mp hjob
    exact ht data ((hqueue data).mp hdata)) (hrecords ▸ hsame ▸ hind) h hoff
  rw [hrecords] at hperm hcounts
  obtain ⟨hperm', hadded, hupdated⟩ := ingestNangoRecords_perm hind hsame s₀.spine
  rw [hcounts]
  exact ⟨hperm.trans hperm', hadded, hupdated⟩

/-! ## Three jobs at once -/

/-- What a process does next: its call is answered, or throws. -/
inductive WorkerMove where
  | goes
  | throws (err : JsVal)

/-- A process makes its move, if it can. -/
def WorkerMove.next (rt : Runtime) : WorkerMove → JobProc → Pipeline →
    Option (JobProc × Pipeline × List JobProc)
  | .goes, .waiting job made, s =>
    if demoFaultId job.data = none then
      let entered := JobProc.enterIngest rt defaultMoment job made .undefined
      some (entered.1, s, entered.2)
    else none
  | .goes, .ingesting job made run, s =>
    if run.live then
      let answered := run.next rt s.spine
      let after := JobProc.afterIngest rt defaultMoment job made answered.1
      some (after.1, { s with spine := answered.2 }, after.2)
    else none
  | .throws err, .ingesting job made run, s =>
    if run.op.isSome && !isDuplicateKey err then
      let after := JobProc.afterIngest rt defaultMoment job made (run.fault err)
      some (after.1, s, after.2)
    else none
  | .goes, .failing job made err, s =>
    if isTerminalFailure job.attempts made err then
      let doc := buildDeadLetterDoc job.data made err tenantB 0
      some (.parking job made err doc, { s with deadLetters := s.deadLetters ++ [doc.stored] }, [])
    else some (.handled job made err, s, [])
  | .goes, .parking job made err doc, s =>
    some (.handled job made err, { s with dlq := s.dlq ++ [(doc.id, job.data)] }, [])
  | _, _, _ => none

theorem WorkerMove.next_step {rt : Runtime} {createThrows : Prop} {move : WorkerMove}
    {p p' : JobProc} {s s' : Pipeline} {new : List JobProc}
    (h : move.next rt p s = some (p', s', new)) :
    (ingestPipeline rt createThrows).step p s p' s' new := by
  cases move with
  | goes =>
    cases p with
    | waiting job made =>
      simp only [next] at h
      split at h
      · next hdemo =>
        cases h
        exact .start .undefined defaultMoment hdemo
      · cases h
    | ingesting job made run =>
      simp only [next] at h
      split at h
      · next hlive =>
        cases h
        exact .ingest defaultMoment (.answer (Option.isNone_iff_eq_none.mp hlive))
      · cases h
    | failing job made err =>
      -- the `failed` handler: a dead letter after the last attempt, a log line before
      simp only [next] at h
      split at h
      · next hterminal =>
        cases h
        exact .create tenantB 0 hterminal rfl
      · next hretried =>
        cases h
        exact .log (Bool.not_eq_true _ ▸ hretried)
    | parking job made err doc =>
      cases h
      exact .park
    | _ => cases h
  | throws err =>
    cases p with
    | ingesting job made run =>
      -- the call may throw anything but a duplicate key, which only a taken key throws
      simp only [next] at h
      split at h
      · next hop =>
        obtain ⟨hsome, hdup⟩ := Bool.and_eq_true_iff.mp hop
        cases h
        exact .ingest defaultMoment (.throw (Option.isSome_iff_ne_none.mp hsome)
          fun _ => (Bool.not_eq_true' _).mp hdup)
      · cases h
    | _ => cases h

/-- Whether a process leaves nothing to do or to regret. -/
def JobProc.workedOff (rt : Runtime) : JobProc → Bool
  | .completed _ _ => true
  | .handled job made err => bullmqRetries job.attempts made err || (job.call? rt).isNone
  | _ => false

theorem workedOff_of_all {rt : Runtime} {ps : List JobProc}
    (h : ps.all (·.workedOff rt) = true) : WorkedOff rt ps := by
  intro p hp job hcharge
  have hdone := List.all_eq_true.mp h p hp
  cases p with
  | completed job' res => exact Or.inl ⟨res, hcharge ▸ rfl⟩
  | handled job' made err =>
    obtain ⟨rfl, hretries⟩ := hcharge
    rw [JobProc.workedOff, hretries, Bool.false_or, Option.isNone_iff_eq_none] at hdone
    exact Or.inr ⟨⟨made, err, rfl⟩, hdone⟩
  | _ => cases hdone

/-- Another issue. -/
def secondIssue : NangoRecord where
  fields := [("id", .str "2"), ("_nango_metadata", .obj [("model", .str "GithubIssue")]),
    ("number", .num 2), ("user_login", .str "bob"), ("title", .str "B"),
    ("html_url", .str "https://example.test/2"), ("created_at", .str "2026-01-02"),
    ("updated_at", .str "v1")]

/-- Two issues, and one without a title. -/
def threeJobs : List Job :=
  [⟨issueJob, 5⟩, ⟨{ tenantId := tenantA, record := some secondIssue }, 5⟩,
    ⟨issueJobWithout "title", 5⟩]

/-- A connection the store has lost. -/
def lostConnection : JsVal := .obj [("code", .str "ECONNRESET"), ("message", .str "read")]

/-- All three are taken up at once. The first one loses its connection, is overtaken by the
    second one and retried; the third one is dead-lettered. -/
def threeMoves : List (ℕ × WorkerMove) :=
  [(0, .goes), (1, .goes), (2, .goes), (0, .goes), (1, .goes), (0, .throws lostConnection),
    (2, .goes), (1, .goes), (1, .goes), (1, .goes), (3, .goes), (0, .goes), (0, .goes), (2, .goes),
    (0, .goes), (2, .goes), (0, .goes), (0, .goes)]

/-- Where they come to. -/
def threeJobsDone : List JobProc × Pipeline :=
  Pool.runMoves (WorkerMove.next plainRuntime) threeMoves
    (threeJobs.map (.waiting · 0), ⟨[], [], []⟩)

theorem worker_eq_batch_threeJobs :
    threeJobsDone.2.spine.map (·.externalId) = ["issue:2", "issue:1"] ∧
      threeJobsDone.2.spine.Perm (ingestNangoRecords plainRuntime
        (normalizeGithubRecord plainRuntime) (some tenantA) (threeJobs.map (·.data.record)) []).2 ∧
      (ingestNangoRecords plainRuntime (normalizeGithubRecord plainRuntime) (some tenantA)
        (threeJobs.map (·.data.record)) []).1 = workCounts threeJobsDone.1 ∧
      ∀ job ∈ threeJobs, job.call? plainRuntime = none →
        DeadLettered job threeJobsDone.2.deadLetters := by
  obtain ⟨n, hmoves⟩ := @Pool.moves_runMoves _ _ (ingestPipeline plainRuntime False) _
    (WorkerMove.next plainRuntime) WorkerMove.next_step threeMoves
    (threeJobs.map (.waiting · 0), ⟨[], [], []⟩)
  obtain ⟨hperm, hcounts, hdead⟩ := worker_eq_batch plainRuntime tenantA threeJobs
    ⟨[], [], []⟩ _ _ n (by decide) (callsOf_pairwise (by decide +kernel)) hmoves
    (workedOff_of_all (by decide +kernel))
  exact ⟨by decide +kernel, hperm, hcounts.symm, hdead⟩

end Shiplog
