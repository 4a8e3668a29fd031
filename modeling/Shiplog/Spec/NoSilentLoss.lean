import Shiplog.Spec.JobLife
import Shiplog.Spec.PipelineCorrect

/-!
# No record leaves the pipeline silently

The dead-letter document is written by an event handler, after the queue has given the job
up. As long as that write goes through and the backoff strategy does not give up jobs that
have attempts left, every job that is gone has completed or left its document; the handler
only logs when the write throws, and when attempts are left.

## Key results

- `JobProc.Step.deadLetters_grow`: dead letters are only ever added
- `pipeline_accounted`: the local invariant `Accounted` is kept by every step
- `pipeline_no_silent_loss`: in every reachable state each finished job has its status or
  its dead letter
-/

namespace Shiplog

/-- The result of an `ingestEvent` call on the job's record. -/
def ResultOf (rt : Runtime) (job : Job) (res : IngestResult) : Prop :=
  ∃ input c status, normalizeGithubRecord rt job.data.record = .ok input ∧
    IngestCall.prepare rt input (some job.data.tenantId) = .ok c ∧ res = c.result status

/-- A dead letter holds the job: its data, as Mongoose stores it, under its tenant. -/
def DeadLettered (job : Job) (deadLetters : List DeadLetter) : Prop :=
  ∃ doc ∈ deadLetters, doc.payload = job.data.stored ∧ doc.tenantId = job.data.tenantId

/-- What the pipeline owes a job: a call inside `ingestEvent` works on its record, a
    completed job has that call's result, and a handler that has written its document, or
    finished for a job the queue gave up, has left one. -/
def Accounted (rt : Runtime) (s : Pipeline) : JobProc → Prop
  | .ingesting job _ run => ∃ input, normalizeGithubRecord rt job.data.record = .ok input ∧
      run.Follows rt ⟨input, some job.data.tenantId⟩
  | .completed job res => ResultOf rt job res
  | .parking job _ _ _ => DeadLettered job s.deadLetters
  | .handled job attemptsMade err =>
      bullmqRetries job.attempts attemptsMade err = false → DeadLettered job s.deadLetters
  | _ => True

namespace JobProc

/-- An attempt that throws leaves nothing to account for yet. -/
private theorem throwing_accounted (rt : Runtime) (m : Moment) (job : Job) (attemptsMade : Nat)
    (err : JsVal) (s : Pipeline) :
    Accounted rt s (throwing rt m job attemptsMade err).1 ∧
      ∀ q ∈ (throwing rt m job attemptsMade err).2, Accounted rt s q :=
  throwing_all (fun _ => trivial) (fun _ _ => trivial) (fun _ _ => trivial) err

private theorem enterIngest_accounted (rt : Runtime) (m : Moment) (job : Job) (attemptsMade : Nat)
    (failMode : JsVal) (s : Pipeline) :
    Accounted rt s (enterIngest rt m job attemptsMade failMode).1 ∧
      ∀ q ∈ (enterIngest rt m job attemptsMade failMode).2, Accounted rt s q :=
  enterIngest_all (fun _ => trivial) (fun _ _ => trivial) (fun _ _ => trivial)
    (fun input hin => ⟨input, hin, rfl⟩) failMode

private theorem afterIngest_accounted {rt : Runtime} {job : Job} {run : IngestRun} {input : JsVal}
    (m : Moment) (attemptsMade : Nat) (s : Pipeline)
    (hin : normalizeGithubRecord rt job.data.record = .ok input)
    (hf : run.Follows rt ⟨input, some job.data.tenantId⟩)
    (hres : ∀ res, run.outcome = some (.ok res) → ∃ c status,
      IngestCall.prepare rt input (some job.data.tenantId) = .ok c ∧ res = c.result status) :
    Accounted rt s (afterIngest rt m job attemptsMade run).1 ∧
      ∀ q ∈ (afterIngest rt m job attemptsMade run).2, Accounted rt s q := by
  refine afterIngest_all (fun _ => trivial) (fun _ _ => trivial) (fun _ _ => trivial)
    ⟨input, hin, hf⟩ fun res hout => ?_
  obtain ⟨c, status, hprep, hr⟩ := hres res hout
  exact ⟨input, c, status, hin, hprep, hr⟩

/-- Dead letters are only ever added. -/
theorem Step.deadLetters_grow {rt : Runtime} {createThrows : Prop} {p p' : JobProc}
    {s s' : Pipeline} {new : List JobProc} (h : Step rt createThrows p s p' s' new) :
    s.deadLetters <+: s'.deadLetters := by
  cases h with
  | create id now h hdoc => exact List.prefix_append _ _
  | _ => exact List.prefix_refl _

end JobProc

theorem DeadLettered.mono {job : Job} {l l' : List DeadLetter} (h : DeadLettered job l)
    (hl : l <+: l') : DeadLettered job l' := by
  obtain ⟨doc, hdoc, heq⟩ := h
  exact ⟨doc, hl.subset hdoc, heq⟩

/-- More dead letters keep every account. -/
theorem Accounted.mono {rt : Runtime} {s s' : Pipeline} (h : s.deadLetters <+: s'.deadLetters)
    {p : JobProc} (hp : Accounted rt s p) : Accounted rt s' p := by
  cases p with
  | parking job made err doc => exact DeadLettered.mono hp h
  | handled job made err => exact fun hgone => DeadLettered.mono (hp hgone) h
  | _ => exact hp

/-- Every step keeps the accounts, if dead letters can be written. -/
theorem pipeline_accounted (rt : Runtime) :
    (ingestPipeline rt False).Invariant (fun _ => True) (Accounted rt) where
  env := by
    intro s s' new _ henv
    obtain ⟨rfl, job, rfl⟩ := henv
    refine ⟨trivial, fun q hq => ?_, fun q hq => hq⟩
    rw [List.mem_singleton.mp hq]
    exact trivial
  step := by
    intro p s p' s' new _ hp hstep
    suffices h : Accounted rt s' p' ∧ ∀ q ∈ new, Accounted rt s' q by
      exact ⟨trivial, h.1, h.2, fun q hq => hq.mono (JobProc.Step.deadLetters_grow hstep)⟩
    have hnil : ∀ q ∈ ([] : List JobProc), Accounted rt s' q :=
      fun q hq => absurd hq List.not_mem_nil
    cases hstep with
    | start failMode m h => exact JobProc.enterIngest_accounted rt m _ _ failMode s
    | startDemo failMode h => exact ⟨trivial, hnil⟩
    | demoRecovered m h => exact JobProc.enterIngest_accounted rt m _ _ _ s
    | demoOutage m h => exact JobProc.throwing_accounted rt m _ _ _ s
    | demoThrow m err => exact JobProc.throwing_accounted rt m _ _ err s
    | ingest m h =>
      obtain ⟨input, hin, hf⟩ := hp
      obtain ⟨hf', hres⟩ := h.follows hf
      exact JobProc.afterIngest_accounted m _ _ hin hf' hres
    | log h =>
      refine ⟨fun hgone => ?_, hnil⟩
      -- the handler only logs when the queue retries
      rw [isTerminalFailure_eq, hgone] at h
      exact nomatch h
    | create id now h hdoc =>
      -- the document written is the one owed
      refine ⟨⟨_, List.mem_concat_self, ?_⟩, hnil⟩
      rw [hdoc]
      exact ⟨rfl, rfl⟩
    | createThrow hc h => exact hc.elim
    -- whether the dlq job is parked makes no difference to the document
    | park => exact ⟨fun _ => hp, hnil⟩
    | parkThrow => exact ⟨fun _ => hp, hnil⟩

/-! ## The property -/

/-- A dead letter holds the job's payload under its tenant. -/
def Preserved (job : Job) (deadLetters : List DeadLetter) : Prop :=
  ∃ doc ∈ deadLetters, doc.payload = job.data ∧ doc.tenantId = job.data.tenantId

theorem DeadLettered.preserved {job : Job} {deadLetters : List DeadLetter}
    (h : DeadLettered job deadLetters) (hwhole : job.data.storedWhole = true) :
    Preserved job deadLetters := by
  obtain ⟨doc, hdoc, hpayload, ht⟩ := h
  exact ⟨doc, hdoc, hpayload.trans (job.data.stored_eq_self_iff.mpr hwhole), ht⟩

/-- Every completed job has its status; and every job the queue has given up, be it on its own
    or because the backoff strategy said so, and whose handler has finished has its dead
    letter. -/
structure NothingLost (rt : Runtime) (ps : List JobProc) (s : Pipeline) : Prop where
  completed : ∀ job res, JobProc.completed job res ∈ ps → ResultOf rt job res
  handled : ∀ job attemptsMade err, JobProc.handled job attemptsMade err ∈ ps →
    bullmqRetries job.attempts attemptsMade err = false → Preserved job s.deadLetters
  givenUp : ∀ job attemptsMade err, JobProc.givenUp job attemptsMade err ∈ ps →
    Preserved job s.deadLetters

/-- The queue has given the job up although attempts were left. -/
def JobProc.isGivenUp : JobProc → Bool
  | .givenUp _ _ _ => true
  | _ => false

/-- The pipeline while no `DeadLetter.create` throws, no backoff strategy gives a job up, and
    the jobs that arrive are stored whole. -/
def steadyPipeline (rt : Runtime) : Pool JobProc Pipeline where
  step p s p' s' new := JobProc.Step rt False p s p' s' new ∧ p'.isGivenUp = false
  env s s' new := s' = s ∧ ∃ job, new = [.waiting job 0] ∧ job.data.storedWhole = true

/-- A run of the steady pipeline is one of the pipeline. -/
private theorem steadyPipeline_reaches {rt : Runtime} {c c' : List JobProc × Pipeline}
    (h : (steadyPipeline rt).Reaches c c') : (ingestPipeline rt False).Reaches c c' := by
  refine h.lift id fun a b hstep => ?_
  cases hstep with
  | process i hi hp => exact .process i hi hp.1
  | environment he =>
    obtain ⟨rfl, job, rfl, -⟩ := he
    exact .environment ⟨rfl, job, rfl⟩

/-- What an attempt starts beside its job is a handler. -/
private theorem JobProc.throwing_new {rt : Runtime} {m : Moment} {job : Job} {attemptsMade : Nat}
    (err : JsVal) : ∀ q ∈ (JobProc.throwing rt m job attemptsMade err).2, q.isGivenUp = false := by
  unfold throwing
  simp only
  split
  · split
    · exact fun q hq => absurd hq List.not_mem_nil
    · intro q hq
      rw [List.mem_singleton.mp hq]
      rfl
  · exact fun q hq => absurd hq List.not_mem_nil

private theorem JobProc.Step.new_isGivenUp {rt : Runtime} {createThrows : Prop} {p p' : JobProc}
    {s s' : Pipeline} {new : List JobProc} (h : Step rt createThrows p s p' s' new) :
    ∀ q ∈ new, q.isGivenUp = false := by
  have hnil : ∀ q ∈ ([] : List JobProc), q.isGivenUp = false :=
    fun q hq => absurd hq List.not_mem_nil
  have henter : ∀ {m job made failMode}, ∀ q ∈ (enterIngest rt m job made failMode).2,
      q.isGivenUp = false := by
    intro m job made failMode
    unfold enterIngest
    split
    · exact throwing_new _
    · exact hnil
  cases h with
  | start failMode m h => exact henter
  | demoRecovered m h => exact henter
  | demoOutage m h => exact throwing_new _
  | demoThrow m err => exact throwing_new err
  | ingest m h =>
    unfold afterIngest
    split
    · exact hnil
    · exact hnil
    · exact throwing_new _
  | _ => exact hnil

/-- In the steady pipeline no job is given up, and every job is stored whole. -/
private theorem steadyPipeline_whole (rt : Runtime) :
    (steadyPipeline rt).Invariant (fun _ => True)
      (fun _ p => p.isGivenUp = false ∧ p.job.data.storedWhole = true) where
  env := by
    intro s s' new _ henv
    obtain ⟨-, job, rfl, hwhole⟩ := henv
    exact ⟨trivial, List.forall_mem_singleton.mpr ⟨rfl, hwhole⟩, fun q hq => hq⟩
  step := by
    intro p s p' s' new _ hp hstep
    obtain ⟨hstep, hkept⟩ := hstep
    obtain ⟨hjob, hnew⟩ := hstep.job_eq
    refine ⟨trivial, ⟨hkept, hjob ▸ hp.2⟩, fun q hq => ⟨hstep.new_isGivenUp q hq, ?_⟩,
      fun q hq => hq⟩
    rw [hnew q hq]
    exact hp.2

/-- **No silent loss.** Whatever store calls throw, as long as no `DeadLetter.create` does, no
    backoff strategy gives a job up, and all jobs are stored whole: in every state the
    pipeline reaches from waiting jobs, a completed job has the status of an `ingestEvent` call
    on its record, and a job the queue has given up and whose handler has finished has a dead
    letter with its payload and tenant. -/
theorem pipeline_no_silent_loss (rt : Runtime) (jobs : List Job) (s₀ s : Pipeline)
    (ps : List JobProc) (hjobs : ∀ job ∈ jobs, job.data.storedWhole = true)
    (h : (steadyPipeline rt).Reaches (jobs.map (JobProc.waiting · 0), s₀) (ps, s)) :
    NothingLost rt ps s := by
  have hstart : ∀ p ∈ jobs.map (JobProc.waiting · 0), Accounted rt s₀ p := by
    intro p hp
    obtain ⟨job, -, rfl⟩ := List.mem_map.mp hp
    exact trivial
  have hinv := ((pipeline_accounted rt).reaches (steadyPipeline_reaches h) trivial hstart).2
  have hwhole := ((steadyPipeline_whole rt).reaches h trivial fun p hp => by
    obtain ⟨job, hjob, rfl⟩ := List.mem_map.mp hp
    exact ⟨rfl, hjobs job hjob⟩).2
  refine ⟨fun job res hp => hinv _ hp, fun job made err hp hgone => ?_, fun job made err hp => ?_⟩
  · have hdead : DeadLettered job s.deadLetters := hinv _ hp hgone
    exact hdead.preserved (hwhole _ hp).2
  · cases (hwhole _ hp).1

/-! ## A poisoned job -/

/-- A job whose payload carries a logical fault. -/
def poisonJob : Job where
  data := { issueJob with poison := .str "logical" }
  attempts := 5

/-- What its attempts throw. -/
def poisonError : JsVal :=
  rethrow plainRuntime 0 (logicalError plainRuntime "injected logical failure")

private theorem poisonJob_throws :
    JobProc.enterIngest plainRuntime defaultMoment poisonJob 0 .undefined =
      (.failing poisonJob 1 poisonError, []) := rfl

/-- The first attempt throws and the queue gives the job up. -/
theorem poisonJob_fails (createThrows : Prop) :
    (ingestPipeline plainRuntime createThrows).Reaches
      ([poisonJob].map (JobProc.waiting · 0), ⟨[], [], []⟩)
      ([.failing poisonJob 1 poisonError], ⟨[], [], []⟩) := by
  have hstep := @JobProc.Step.start plainRuntime createThrows poisonJob 0 ⟨[], [], []⟩
    .undefined defaultMoment rfl
  rw [poisonJob_throws] at hstep
  exact .single (.alone hstep)

/-- Its dead letter. -/
def poisonDoc : DeadLetter := buildDeadLetterDoc poisonJob.data 1 poisonError tenantB 0

private theorem poisonDoc_stored : poisonDoc.stored = poisonDoc := rfl

/-- The handler writes the dead letter of the poisoned job. -/
theorem pipeline_no_silent_loss_poison :
    NothingLost plainRuntime [.handled poisonJob 1 poisonError]
      ⟨[], [poisonDoc], [(poisonDoc.id, poisonJob.data)]⟩ := by
  have hfail : (steadyPipeline plainRuntime).Step
      ([poisonJob].map (JobProc.waiting · 0), ⟨[], [], []⟩)
      ([.failing poisonJob 1 poisonError], ⟨[], [], []⟩) := by
    have hstep := @JobProc.Step.start plainRuntime False poisonJob 0 ⟨[], [], []⟩ .undefined
      defaultMoment rfl
    rw [poisonJob_throws] at hstep
    exact .alone ⟨hstep, rfl⟩
  have hcreate : (steadyPipeline plainRuntime).Step
      ([.failing poisonJob 1 poisonError], ⟨[], [], []⟩)
      ([.parking poisonJob 1 poisonError poisonDoc], ⟨[], [poisonDoc], []⟩) := by
    have hstep := @JobProc.Step.create plainRuntime False poisonJob 1 ⟨[], [], []⟩ poisonError
      poisonDoc tenantB 0 rfl rfl
    rw [poisonDoc_stored] at hstep
    exact .alone ⟨hstep, rfl⟩
  have hpark : (steadyPipeline plainRuntime).Step
      ([.parking poisonJob 1 poisonError poisonDoc], ⟨[], [poisonDoc], []⟩)
      ([.handled poisonJob 1 poisonError], ⟨[], [poisonDoc], [(poisonDoc.id, poisonJob.data)]⟩) :=
    .alone ⟨.park, rfl⟩
  exact pipeline_no_silent_loss plainRuntime [poisonJob] ⟨[], [], []⟩ _ _ (by decide)
    (((Relation.ReflTransGen.single hfail).tail hcreate).tail hpark)

/-- The dead-letter write throws as well: the handler logs, and the record is gone. -/
theorem pipeline_loses_record :
    ¬ ∀ (jobs : List Job) (s₀ s : Pipeline) (ps : List JobProc),
      (ingestPipeline plainRuntime True).Reaches (jobs.map (JobProc.waiting · 0), s₀) (ps, s) →
      NothingLost plainRuntime ps s := by
  intro h
  have hthrow : (ingestPipeline plainRuntime True).Step
      ([.failing poisonJob 1 poisonError], ⟨[], [], []⟩)
      ([.handled poisonJob 1 poisonError], ⟨[], [], []⟩) :=
    .alone (.createThrow trivial rfl)
  have hlost := h [poisonJob] _ _ _ ((poisonJob_fails True).tail hthrow)
  obtain ⟨doc, hdoc, -⟩ := hlost.handled poisonJob 1 poisonError List.mem_cons_self rfl
  exact absurd hdoc List.not_mem_nil

end Shiplog
