import Shiplog.Spec.Independent
import Shiplog.Spec.PipelineCorrect
import Shiplog.Spec.Serializable

/-!
# The worker's run as a sequence of ingests

A job that completes has changed the spine at the step it completed with, if at all, and an
attempt that fails has not changed it. So as long as inserts act on decisions that are still
current, the spine is what the completed jobs make of it one at a time, in the order they
complete: it is the spine of a batch. Among jobs with independent calls every decision stays
current.

## Key results

- `IngestRun.Step.takesEffect`: a step of a call returns nothing and changes nothing, or is
  the whole call
- `JobProc.Step.takesEffect`: the same of a step in the pipeline
- `worker_current`: jobs with independent calls keep their decisions current
- `worker_serial`: so the worker's run is a sequence of ingests
- `serial_eq_batch`: jobs ingested one at a time are a batch
-/

namespace Shiplog

/-- The `ingestEvent` call of a job, undisturbed. -/
def Job.ingest (rt : Runtime) (job : Job) (spine : Spine) : Except JsVal IngestResult × Spine :=
  match normalizeGithubRecord rt job.data.record with
  | .ok input => ingestSeq rt ⟨input, some job.data.tenantId⟩ spine
  | .error err => (.error err, spine)

/-! ## One step of a call -/

section Call

variable {rt : Runtime} {args : IngestArgs} {run run' : IngestRun} {spine spine' : Spine}

/-- A sequential call that throws changes nothing. -/
private theorem ingestSeq_error {err : JsVal} (h : ingestSeq rt args spine = (.error err, spine')) :
    spine' = spine := by
  cases hprep : IngestCall.prepare rt args.input args.tenantId with
  | error err =>
    simp only [ingestSeq, ingestEvent, hprep, Prod.mk.injEq] at h
    exact h.2.symm
  | ok c =>
    rw [ingestSeq_of_prepare hprep] at h
    cases h

/-- **A step of a call** returns nothing and changes nothing, or does in one go what the whole
    call does, as long as an insert acts on a decision that is still current. -/
theorem IngestRun.Step.takesEffect (h : IngestRun.Step rt run spine run' spine')
    (hf : run.Follows rt args) (hfresh : run.fresh spine = true) :
    (∀ res, run'.outcome ≠ some (.ok res)) ∧ spine' = spine ∨
      ∃ res, run'.outcome = some (.ok res) ∧ ingestSeq rt args spine = (.ok res, spine') := by
  cases h with
  | answer hlive =>
    obtain ⟨-, -, -, hcase⟩ :=
      (undisturbed_serializes rt).step hf ⟨hfresh, hlive, rfl, rfl⟩
    rcases hcase with ⟨hnone, hspine⟩ | ⟨outcome, hsome, hseq⟩
    · exact Or.inl ⟨fun res hres => (Option.some_ne_none _ (hres.symm.trans hnone)), hspine⟩
    · cases outcome with
      | error err =>
        refine Or.inl ⟨fun res hres => ?_, ingestSeq_error hseq⟩
        cases hsome.symm.trans hres
      | ok res => exact Or.inr ⟨res, hsome, hseq⟩
  | @duplicateKey c status _ err htaken herr =>
    -- the key was stored in between: the call is a no-op by now
    have hprep : IngestCall.prepare rt args.input args.tenantId = .ok c := hf
    right
    refine ⟨c.result .unchanged, ?_, ingestSeq_of_not_appends hprep ?_⟩
    · simp only [IngestRun.fault, herr, if_true]
      rfl
    · exact IngestCall.appends_eq_false.mpr (Or.inl htaken)
  | throw hop herr => exact Or.inl ⟨IngestRun.outcome_fault_ne_ok hop herr, rfl⟩

end Call

/-! ## One step of the system -/

/-- The answer a completed job has brought in. -/
def JobProc.answers : JobProc → List (Job × Except JsVal IngestResult)
  | .completed job res => [(job, .ok res)]
  | _ => []

/-- A call in progress is one on its job's record. -/
def JobProc.Calls (rt : Runtime) : JobProc → Prop
  | .ingesting job _ run => ∃ input, normalizeGithubRecord rt job.data.record = .ok input ∧
      run.Follows rt ⟨input, some job.data.tenantId⟩
  | _ => True

/-- An insert about to be made acts on a decision that is still current. -/
def JobProc.current (spine : Spine) : JobProc → Bool
  | .ingesting _ _ run => run.fresh spine
  | _ => true

namespace JobProc

/-- A call in progress, and no answer yet. -/
def Unanswered (rt : Runtime) (p : JobProc) : Prop := p.Calls rt ∧ p.answers = []

variable {rt : Runtime}

theorem Unanswered.flatMap {new : List JobProc} (h : ∀ q ∈ new, q.Unanswered rt) :
    new.flatMap answers = [] :=
  List.flatMap_eq_nil_iff.mpr fun q hq => (h q hq).2

/-- **A step in the pipeline** brings in no answer and leaves the spine alone, or completes a
    job as its call in one go. -/
theorem Step.takesEffect {createThrows : Prop} {p p' : JobProc} {s s' : Pipeline}
    {new : List JobProc} (h : Step rt createThrows p s p' s' new) (hp : p.Calls rt)
    (hcurrent : p.current s.spine = true) :
    (∀ q ∈ new, q.Unanswered rt) ∧ p.answers = [] ∧ (p'.Unanswered rt ∧ s'.spine = s.spine ∨
      ∃ job res, p' = .completed job res ∧ job.ingest rt s.spine = (.ok res, s'.spine)) := by
  have hnil : ∀ q ∈ ([] : List JobProc), q.Unanswered rt := fun q hq => absurd hq List.not_mem_nil
  have hthrowing : ∀ m job made err, (throwing rt m job made err).1.Unanswered rt ∧
      ∀ q ∈ (throwing rt m job made err).2, q.Unanswered rt := fun m job made err =>
    throwing_all (fun _ => ⟨trivial, rfl⟩) (fun _ _ => ⟨trivial, rfl⟩)
      (fun _ _ => ⟨trivial, rfl⟩) err
  have henter : ∀ m job made failMode,
      (enterIngest rt m job made failMode).1.Unanswered rt ∧
        ∀ q ∈ (enterIngest rt m job made failMode).2, q.Unanswered rt :=
    fun m job made failMode => enterIngest_all (fun _ => ⟨trivial, rfl⟩)
      (fun _ _ => ⟨trivial, rfl⟩) (fun _ _ => ⟨trivial, rfl⟩)
      (fun input hin => ⟨⟨input, hin, rfl⟩, rfl⟩) failMode
  cases h with
  | start failMode m h =>
    obtain ⟨hp', hnew⟩ := henter m _ _ failMode
    exact ⟨hnew, rfl, Or.inl ⟨hp', rfl⟩⟩
  | demoRecovered m h =>
    obtain ⟨hp', hnew⟩ := henter m _ _ _
    exact ⟨hnew, rfl, Or.inl ⟨hp', rfl⟩⟩
  | demoOutage m h =>
    obtain ⟨hp', hnew⟩ := hthrowing m _ _ _
    exact ⟨hnew, rfl, Or.inl ⟨hp', rfl⟩⟩
  | demoThrow m err =>
    obtain ⟨hp', hnew⟩ := hthrowing m _ _ err
    exact ⟨hnew, rfl, Or.inl ⟨hp', rfl⟩⟩
  | @ingest job made _ run run' spine' m h =>
    obtain ⟨input, hin, hf⟩ := hp
    have hf' := (h.follows hf).1
    rcases h.takesEffect hf hcurrent with ⟨hnever, hspine⟩ | ⟨res, hres, hseq⟩
    · -- on with the call, or out of the attempt
      have hafter : (afterIngest rt m job made run').1.Unanswered rt ∧
          ∀ q ∈ (afterIngest rt m job made run').2, q.Unanswered rt :=
        afterIngest_all (fun _ => ⟨trivial, rfl⟩) (fun _ _ => ⟨trivial, rfl⟩)
          (fun _ _ => ⟨trivial, rfl⟩) ⟨⟨input, hin, hf'⟩, rfl⟩
          fun res hres => absurd hres (hnever res)
      exact ⟨hafter.2, rfl, Or.inl ⟨hafter.1, hspine⟩⟩
    · have hafter : afterIngest rt m job made run' = (.completed job res, []) := by
        simp only [afterIngest, hres]
      rw [hafter]
      refine ⟨hnil, rfl, Or.inr ⟨job, res, rfl, ?_⟩⟩
      simp only [Job.ingest, hin]
      exact hseq
  | _ => exact ⟨hnil, rfl, Or.inl ⟨⟨trivial, rfl⟩, rfl⟩⟩

end JobProc

/-! ## Decisions stay current -/

/-- The `ingestEvent` call a job comes to, if the mapper and the schema accept its record. -/
def Job.call? (rt : Runtime) (job : Job) : Option IngestCall :=
  recordCall? rt (normalizeGithubRecord rt) job.data.tenantId job.data.record

section Current

variable {rt : Runtime}

/-- A call that works on a job's record is the job's. -/
private theorem Job.call?_of_follows {job : Job} {input : JsVal} {c : IngestCall} {pc : IngestPc}
    (hin : normalizeGithubRecord rt job.data.record = .ok input)
    (hf : (IngestRun.running c pc).Follows rt ⟨input, some job.data.tenantId⟩) :
    job.call? rt = some c := by
  have hprep : IngestCall.prepare rt input (some job.data.tenantId) = .ok c := hf
  simp only [Job.call?, recordCall?, hin, hprep, Except.toOption]

/-- A job that is ingested has a call, which appends its row or changes nothing. -/
private theorem Job.ingest_ok {job : Job} {spine spine' : Spine} {res : IngestResult}
    (h : job.ingest rt spine = (.ok res, spine')) :
    ∃ c, job.call? rt = some c ∧ res = c.result (c.statusIn spine) ∧
      spine' = if c.appends spine then spine ++ [c.row] else spine := by
  unfold Job.ingest at h
  unfold Job.call? recordCall?
  cases hin : normalizeGithubRecord rt job.data.record with
  | error err =>
    rw [hin] at h
    cases h
  | ok input =>
    simp only [hin] at h
    cases hprep : IngestCall.prepare rt input (some job.data.tenantId) with
    | error err =>
      simp only [ingestSeq, ingestEvent, hprep] at h
      cases h
    | ok c =>
      rw [ingestSeq_of_prepare hprep] at h
      cases h
      exact ⟨c, by simp only [hprep, Except.toOption], rfl, rfl⟩

/-- A call has just taken its decision, or has none. -/
private theorem IngestRun.Step.fresh {run run' : IngestRun} {spine spine' : Spine}
    (h : IngestRun.Step rt run spine run' spine') : run'.fresh spine' = true := by
  -- only after `findOne` does a call hold a status, that of the spine it has just read
  cases h with
  | answer hlive =>
    cases run with
    | called args =>
      simp only [IngestRun.next]
      split <;> rfl
    | running c pc =>
      cases pc with
      | exists_ =>
        simp only [IngestRun.next]
        split <;> rfl
      | findOne =>
        simp only [IngestRun.next]
        split
        · rfl
        · next status hstatus => simp [IngestRun.fresh, hstatus]
      | updateOne status =>
        simp only [IngestRun.next]
        split <;> rfl
    | finished outcome => cases hlive
  | duplicateKey htaken herr =>
    simp only [IngestRun.fault, herr, if_true]
    rfl
  | @throw run _ err hop herr =>
    cases run with
    | running c pc =>
      cases pc with
      | updateOne status =>
        simp only [IngestRun.fault]
        split <;> rfl
      | _ => rfl
    | _ => exact absurd rfl hop

namespace JobProc

/-- So has a process after its step, and those it starts. -/
private theorem Step.current {createThrows : Prop} {p p' : JobProc} {s s' : Pipeline}
    {new : List JobProc} (h : Step rt createThrows p s p' s' new) :
    p'.current s'.spine = true ∧ ∀ q ∈ new, q.current s'.spine = true := by
  have hnil : ∀ q ∈ ([] : List JobProc), q.current s'.spine = true :=
    fun q hq => absurd hq List.not_mem_nil
  cases h with
  | @start job made s failMode m h =>
    exact @enterIngest_all (·.current s.spine = true) _ _ _ _ (fun _ => rfl) (fun _ _ => rfl)
      (fun _ _ => rfl) (fun _ _ => rfl) failMode
  | @demoRecovered job made s failMode id m h =>
    exact @enterIngest_all (·.current s.spine = true) _ _ _ _ (fun _ => rfl) (fun _ _ => rfl)
      (fun _ _ => rfl) (fun _ _ => rfl) failMode
  | @demoOutage job made s failMode id m h =>
    exact @throwing_all (·.current s.spine = true) _ _ _ _ (fun _ => rfl) (fun _ _ => rfl)
      (fun _ _ => rfl) _
  | @demoThrow job made s failMode id m err =>
    exact @throwing_all (·.current s.spine = true) _ _ _ _ (fun _ => rfl) (fun _ _ => rfl)
      (fun _ _ => rfl) err
  | @ingest job made s run run' spine' m h =>
    exact @afterIngest_all (·.current spine' = true) _ _ _ _ _ (fun _ => rfl) (fun _ _ => rfl)
      (fun _ _ => rfl) h.fresh (fun _ _ => rfl)
  | _ => exact ⟨rfl, hnil⟩

/-- An independent row leaves a decision as current as it was, and the row of the call itself
    makes it obsolete. -/
private theorem current_append {q : JobProc} {x : IngestCall} {spine : Spine}
    (hcalls : q.Calls rt) (hx : ∀ c, q.job.call? rt = some c → c ≠ x → c.Independent x)
    (h : q.current spine = true) : q.current (spine ++ [x.row]) = true := by
  cases q with
  | ingesting job made run =>
    cases run with
    | running c pc =>
      cases pc with
      | updateOne status =>
        obtain ⟨input, hin, hf⟩ := hcalls
        have hcall := Job.call?_of_follows hin hf
        simp only [current, IngestRun.fresh, Bool.or_eq_true, decide_eq_true_eq] at h ⊢
        by_cases heq : c = x
        · left
          rw [heq, IngestCall.keyTaken_append, IngestCall.row, decide_eq_true rfl, Bool.or_true]
        · have hind := hx c hcall heq
          rw [hind.keyTaken, hind.classify]
          exact h
      | _ => rfl
    | _ => rfl
  | _ => rfl

end JobProc

/-- What the worker keeps while it works on jobs with independent calls: every process works on
    one of the jobs, and its decision is current. -/
private theorem worker_invariant {createThrows : Prop} {jobs : List Job}
    (hind : {c | ∃ job ∈ jobs, job.call? rt = some c}.Pairwise IngestCall.Independent) :
    (ingestPipeline rt createThrows).closed.Invariant (fun _ => True)
      (fun s p => p.Calls rt ∧ p.current s.spine = true ∧ p.job ∈ jobs) where
  env := fun _ henv => henv.elim
  step := by
    intro p s p' s' new _ hp hstep
    obtain ⟨hcalls, hcurrent, hjob⟩ := hp
    obtain ⟨hjob', hnewjob⟩ := JobProc.Step.job_eq hstep
    obtain ⟨hcurrent', hnewcurrent⟩ := JobProc.Step.current hstep
    obtain ⟨hnew, -, hcase⟩ := JobProc.Step.takesEffect hstep hcalls hcurrent
    refine ⟨trivial, ⟨?_, hcurrent', hjob'.symm ▸ hjob⟩,
      fun q hq => ⟨(hnew q hq).1, hnewcurrent q hq, (hnewjob q hq).symm ▸ hjob⟩,
      fun q hq => ⟨hq.1, ?_, hq.2.2⟩⟩
    · rcases hcase with ⟨hp', -⟩ | ⟨job, res, rfl, -⟩
      · exact hp'.1
      · exact trivial
    -- the others see at most the row of the mover's call
    rcases hcase with ⟨-, hspine⟩ | ⟨job, res, rfl, heffect⟩
    · exact hspine ▸ hq.2.1
    · obtain ⟨x, hx, -, hspine⟩ := Job.ingest_ok heffect
      rw [hspine]
      split
      · refine JobProc.current_append hq.1 (fun c hc hne => ?_) hq.2.1
        have hmover : job = p.job := hjob'
        exact hind ⟨q.job, hq.2.2, hc⟩ ⟨job, hmover ▸ hjob, hx⟩ hne
      · exact hq.2.1

/-- **Decisions stay current** while the worker works on jobs with independent calls, however it
    interleaves them, retries them and whatever throws. -/
theorem worker_current {createThrows : Prop} {jobs : List Job}
    (hind : {c | ∃ job ∈ jobs, job.call? rt = some c}.Pairwise IngestCall.Independent) {n : ℕ}
    {s₀ : Pipeline} {c : List JobProc × Pipeline}
    (h : (ingestPipeline rt createThrows).Moves n (jobs.map (.waiting · 0), s₀) c) :
    ((ingestPipeline rt createThrows).closed.restrict
      fun p s => p.current s.spine = true).Reaches (jobs.map (.waiting · 0), s₀) c := by
  refine (worker_invariant hind).restrict (fun p s _ hp => hp.2.1) h.closed trivial fun p hp => ?_
  obtain ⟨job, hjob, rfl⟩ := List.mem_map.mp hp
  exact ⟨trivial, rfl, hjob⟩

/-- **The worker's run** on jobs with independent calls is a sequence of ingests: the jobs that
    have completed, in some order and one at a time, give the results they completed with and
    the spine that there is. -/
theorem worker_serial {createThrows : Prop} {jobs : List Job}
    (hind : {c | ∃ job ∈ jobs, job.call? rt = some c}.Pairwise IngestCall.Independent) {n : ℕ}
    {s₀ : Pipeline} {c : List JobProc × Pipeline}
    (h : (ingestPipeline rt createThrows).Moves n (jobs.map (.waiting · 0), s₀) c) :
    ∃ done : List (Job × Except JsVal IngestResult), (c.1.flatMap JobProc.answers).Perm done ∧
      Pool.serial (Job.ingest rt) (done.map Prod.fst) s₀.spine =
        (done.map Prod.snd, c.2.spine) := by
  have hstart : ∀ p ∈ jobs.map (JobProc.waiting · 0), p.Calls rt ∧ p.answers = [] := by
    intro p hp
    obtain ⟨job, -, rfl⟩ := List.mem_map.mp hp
    exact ⟨trivial, rfl⟩
  obtain ⟨done, hanswers, hserial⟩ := @Pool.Reaches.serial _ _ _ _ _ _ JobProc.answers
    (fun s : Pipeline => s.spine) (Job.ingest rt) (JobProc.Calls rt) _ _ (worker_current hind h)
    (fun p s p' s' new hp hstep => by
      obtain ⟨hnew, hnone, hcase⟩ := JobProc.Step.takesEffect hstep.2 hp hstep.1
      rw [JobProc.Unanswered.flatMap hnew, List.append_nil, hnone]
      rcases hcase with ⟨hp', hspine⟩ | ⟨job, res, rfl, heffect⟩
      · exact ⟨⟨hp'.1, fun q hq => (hnew q hq).1⟩, Or.inl ⟨.of_eq hp'.2, hspine⟩⟩
      · exact ⟨⟨trivial, fun q hq => (hnew q hq).1⟩, Or.inr ⟨(job, .ok res), .refl _, heffect⟩⟩)
    (fun s s' new henv => henv.elim) (fun p hp => (hstart p hp).1)
  rw [List.flatMap_eq_nil_iff.mpr fun p hp => (hstart p hp).2, List.append_nil] at hanswers
  exact ⟨done, hanswers, hserial⟩

end Current

/-! ## One at a time -/

/-- The statuses of the answers. -/
def statuses (done : List (Job × Except JsVal IngestResult)) : List IngestStatus :=
  done.filterMap fun x => x.2.toOption.map IngestResult.status

/-- **Jobs of a tenant ingested one at a time** are a batch, with its spine and its counts. -/
theorem serial_eq_batch {rt : Runtime} {t : ObjectId}
    {done : List (Job × Except JsVal IngestResult)}
    (hdone : ∀ x ∈ done, x.1.data.tenantId = t ∧ ∃ res, x.2 = .ok res) {spine spine' : Spine}
    (h : Pool.serial (Job.ingest rt) (done.map Prod.fst) spine = (done.map Prod.snd, spine')) :
    ingestNangoRecords rt (normalizeGithubRecord rt) (some t) (done.map (·.1.data.record)) spine =
      ((statuses done).foldl RunCounts.count emptyCounts, spine') := by
  suffices ∀ counts, (done.map (·.1.data.record)).foldl (fun acc record =>
      ingestRecord rt (normalizeGithubRecord rt) (some t) record acc.1 acc.2) (counts, spine) =
        ((statuses done).foldl RunCounts.count counts, spine') from this emptyCounts
  induction done generalizing spine with
  | nil =>
    intro counts
    cases h
    rfl
  | cons x done ih =>
    intro counts
    obtain ⟨⟨hx, res, hok⟩, hrest⟩ := List.forall_mem_cons.mp hdone
    obtain ⟨hfirst, hserial⟩ := Pool.serial_cons_eq h
    obtain ⟨c, hcall, hres, hspine⟩ :=
      @Job.ingest_ok _ x.1 spine _ _ (Prod.ext (hfirst.trans hok) rfl)
    -- a job that completed made a call, so its turn in the loop counts the same status
    have hturn : ingestRecord rt (normalizeGithubRecord rt) (some t) x.1.data.record counts spine =
        (counts.count res.status, (x.1.ingest rt spine).2) := by
      have hcall' : recordCall? rt (normalizeGithubRecord rt) t x.1.data.record = some c :=
        hx ▸ hcall
      rw [ingestRecord_of_some hcall', hres]
      exact Prod.ext rfl hspine.symm
    have hstatuses : statuses (x :: done) = res.status :: statuses done := by
      simp only [statuses, List.filterMap_cons, hok]
      rfl
    rw [hstatuses]
    simp only [List.map_cons, List.foldl_cons, hturn]
    exact ih hrest hserial _

end Shiplog
