import Shiplog.Native.Pipeline
import Shiplog.Spec.IngestCorrect

/-!
# What an attempt turns its job into

The three functions that carry a job from one store call to the next, each with the processes
it can lead to. A local invariant is shown for these processes and follows for the functions.

## Key results

- `JobProc.throwing_all`, `JobProc.enterIngest_all`, `JobProc.afterIngest_all`: a property of
  the possible outcomes holds of the process and of the handlers it starts
- `JobProc.Step.job_eq`: a step keeps the job it works on
- `JobProc.Step.inCharge`: a step passes the charge of a job on
-/

namespace Shiplog

namespace JobProc

section Outcomes

variable {Q : JobProc → Prop} {rt : Runtime} {m : Moment} {job : Job} {attemptsMade : Nat}

/-- An attempt that throws leaves a waiting job or nothing, and its handler. -/
theorem throwing_all (hwaiting : ∀ n, Q (.waiting job n))
    (hfailing : ∀ n err, Q (.failing job n err)) (hgivenUp : ∀ n err, Q (.givenUp job n err))
    (err : JsVal) :
    Q (throwing rt m job attemptsMade err).1 ∧
      ∀ q ∈ (throwing rt m job attemptsMade err).2, Q q := by
  unfold throwing
  simp only
  split
  · split
    · exact ⟨hgivenUp _ _, fun q hq => absurd hq List.not_mem_nil⟩
    · refine ⟨hwaiting _, fun q hq => ?_⟩
      rw [List.mem_singleton.mp hq]
      exact hfailing _ _
  · exact ⟨hfailing _ _, fun q hq => absurd hq List.not_mem_nil⟩

/-- An attempt enters `ingestEvent` with its record normalized, or throws. -/
theorem enterIngest_all (hwaiting : ∀ n, Q (.waiting job n))
    (hfailing : ∀ n err, Q (.failing job n err)) (hgivenUp : ∀ n err, Q (.givenUp job n err))
    (hingesting : ∀ input, normalizeGithubRecord rt job.data.record = .ok input →
      Q (.ingesting job attemptsMade (.called ⟨input, some job.data.tenantId⟩)))
    (failMode : JsVal) :
    Q (enterIngest rt m job attemptsMade failMode).1 ∧
      ∀ q ∈ (enterIngest rt m job attemptsMade failMode).2, Q q := by
  unfold enterIngest
  split
  · exact throwing_all hwaiting hfailing hgivenUp _
  · next input hin =>
    refine ⟨hingesting input ?_, fun q hq => absurd hq List.not_mem_nil⟩
    unfold ingestInput at hin
    split at hin
    · cases hin
    · exact hin

/-- An attempt inside `ingestEvent` goes on, completes, or throws. -/
theorem afterIngest_all {run : IngestRun} (hwaiting : ∀ n, Q (.waiting job n))
    (hfailing : ∀ n err, Q (.failing job n err)) (hgivenUp : ∀ n err, Q (.givenUp job n err))
    (hingesting : Q (.ingesting job attemptsMade run))
    (hcompleted : ∀ res, run.outcome = some (.ok res) → Q (.completed job res)) :
    Q (afterIngest rt m job attemptsMade run).1 ∧
      ∀ q ∈ (afterIngest rt m job attemptsMade run).2, Q q := by
  unfold afterIngest
  split
  · exact ⟨hingesting, fun q hq => absurd hq List.not_mem_nil⟩
  · next res hout => exact ⟨hcompleted res hout, fun q hq => absurd hq List.not_mem_nil⟩
  · exact throwing_all hwaiting hfailing hgivenUp _

end Outcomes

/-! ## The job of a process -/

/-- The job a process works on. -/
def job : JobProc → Job
  | .waiting job _ | .demoCheck job _ _ _ | .ingesting job _ _ | .completed job _
  | .failing job _ _ | .parking job _ _ _ | .handled job _ _ | .givenUp job _ _ => job

section Job

variable {rt : Runtime} {createThrows : Prop} {p p' : JobProc} {s s' : Pipeline}
  {new : List JobProc}

/-- A step keeps the job it works on, and starts handlers of it only. -/
theorem Step.job_eq (h : Step rt createThrows p s p' s' new) :
    p'.job = p.job ∧ ∀ q ∈ new, q.job = p.job := by
  have hnil : ∀ {x : Job}, ∀ q ∈ ([] : List JobProc), q.job = x :=
    fun q hq => absurd hq List.not_mem_nil
  cases h with
  | @start job made _ failMode m h =>
    exact @enterIngest_all (·.job = job) _ _ _ _ (fun _ => rfl) (fun _ _ => rfl) (fun _ _ => rfl)
      (fun _ _ => rfl) failMode
  | @demoRecovered job made _ failMode id m h =>
    exact @enterIngest_all (·.job = job) _ _ _ _ (fun _ => rfl) (fun _ _ => rfl) (fun _ _ => rfl)
      (fun _ _ => rfl) failMode
  | @demoOutage job made _ failMode id m h =>
    exact @throwing_all (·.job = job) _ _ _ _ (fun _ => rfl) (fun _ _ => rfl) (fun _ _ => rfl) _
  | @demoThrow job made _ failMode id m err =>
    exact @throwing_all (·.job = job) _ _ _ _ (fun _ => rfl) (fun _ _ => rfl) (fun _ _ => rfl) err
  | @ingest job made _ run run' spine' m h =>
    exact @afterIngest_all (·.job = job) _ _ _ _ _ (fun _ => rfl) (fun _ _ => rfl)
      (fun _ _ => rfl) rfl (fun _ _ => rfl)
  | _ => exact ⟨rfl, hnil⟩

end Job

/-! ## Who answers for a job -/

/-- The process the fate of a job is with: the job itself, or the handler of its last failure. -/
def InCharge (job : Job) : JobProc → Prop
  | .waiting job' _ | .demoCheck job' _ _ _ | .ingesting job' _ _ | .completed job' _
  | .givenUp job' _ _ => job' = job
  | .failing job' made err | .parking job' made err _ | .handled job' made err =>
    job' = job ∧ bullmqRetries job'.attempts made err = false

section InCharge

variable {rt : Runtime} {m : Moment} {job : Job} {attemptsMade : ℕ}

/-- After a failure the job waits or is given up, or its handler is in charge. -/
private theorem throwing_inCharge (err : JsVal) :
    (throwing rt m job attemptsMade err).1.InCharge job := by
  unfold throwing
  simp only
  split
  · split
    · exact rfl
    · exact rfl
  · next hgone => exact ⟨rfl, by simpa using hgone⟩

private theorem enterIngest_inCharge (failMode : JsVal) :
    (enterIngest rt m job attemptsMade failMode).1.InCharge job := by
  unfold enterIngest
  split
  · exact throwing_inCharge _
  · exact rfl

private theorem afterIngest_inCharge (run : IngestRun) :
    (afterIngest rt m job attemptsMade run).1.InCharge job := by
  unfold afterIngest
  split
  · exact rfl
  · exact rfl
  · exact throwing_inCharge _

/-- **A step passes the charge on**: the process that had it keeps it. -/
theorem Step.inCharge {createThrows : Prop} {p p' : JobProc} {s s' : Pipeline}
    {new : List JobProc} (h : Step rt createThrows p s p' s' new) (hp : p.InCharge job) :
    p'.InCharge job := by
  cases h with
  | start failMode m h =>
    cases hp
    exact enterIngest_inCharge failMode
  | demoRecovered m h =>
    cases hp
    exact enterIngest_inCharge _
  | demoOutage m h =>
    cases hp
    exact throwing_inCharge _
  | demoThrow m err =>
    cases hp
    exact throwing_inCharge err
  | ingest m h =>
    cases hp
    exact afterIngest_inCharge _
  -- the handler's steps keep the job and the error
  | _ => exact hp

end InCharge

end JobProc

end Shiplog
