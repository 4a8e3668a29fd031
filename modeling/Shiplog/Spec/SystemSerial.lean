import Shiplog.Spec.Lineage
import Shiplog.Spec.WorkerSerial

/-!
# The spine as a sequence of ingests

In the whole system ingest jobs are taken up side by side, fail and are retried, and requests,
deliveries and handlers go on between their steps. A job that completes has changed the spine
at the step it completed with, if at all, and an attempt that fails has not changed it. So as
long as inserts act on decisions that are still current, the spine is what the completed jobs
make of it one at a time, in the order they complete.

## Key results

- `IngestRun.Step.takesEffect`: a step of a call returns nothing and changes nothing, or is
  the whole call
- `shiplogSystem_serial`: any run of the system
-/

namespace Shiplog

namespace Proc

/-- The same for the processes of the system. -/
def answers : Proc → List (Job × Except JsVal IngestResult)
  | .ingest proc => proc.answers
  | _ => []

def current (spine : Spine) : Proc → Bool
  | .ingest proc => proc.current spine
  | _ => true

def Calls (rt : Runtime) : Proc → Prop
  | .ingest proc => proc.Calls rt
  | _ => True

variable {rt : Runtime} {d : Drivers} {options : AppOptions}

/-- **A step of the system** brings in no answer and leaves the spine alone, or completes a
    job as its call in one go. -/
theorem Step.takesEffect {p p' : Proc} {s s' : System} {new : List Proc}
    (h : Step rt d options p s p' s' new) (hp : p.Calls rt) (hcurrent : p.current s.spine = true) :
    (p'.Calls rt ∧ ∀ q ∈ new, q.Calls rt) ∧
      ((p'.answers ++ new.flatMap answers).Perm p.answers ∧ s'.spine = s.spine ∨
        ∃ x, (p'.answers ++ new.flatMap answers).Perm (x :: p.answers) ∧
          x.1.ingest rt s.spine = (x.2, s'.spine)) := by
  have hnil : ∀ q ∈ ([] : List Proc), q.Calls rt := fun q hq => absurd hq List.not_mem_nil
  cases h with
  | @request tenantId req _ env hid =>
    refine ⟨⟨trivial, hnil⟩, Or.inl ⟨.refl _, ?_⟩⟩
    -- a handler changes `connections` at most
    rcases @ApiRequest.plan_state d options env tenantId s req with heq | ⟨v, r, heq⟩
    · rw [heq]
    · rw [heq]
  | webhook => exact ⟨⟨trivial, hnil⟩, Or.inl ⟨.refl _, rfl⟩⟩
  | sweep => exact ⟨⟨trivial, hnil⟩, Or.inl ⟨.refl _, rfl⟩⟩
  | add h => exact ⟨⟨trivial, hnil⟩, Or.inl ⟨.refl _, System.add_spine _ _⟩⟩
  | stamp env => exact ⟨⟨trivial, hnil⟩, Or.inl ⟨.refl _, stampPlan_spine _ _ _⟩⟩
  | nangoSync nango h => exact ⟨⟨trivial, hnil⟩, Or.inl ⟨.refl _, rfl⟩⟩
  | reconcile nango h => exact ⟨⟨trivial, hnil⟩, Or.inl ⟨.refl _, rfl⟩⟩
  | @ingest proc proc' pipeline' new _ h =>
    obtain ⟨hnew, hnone, hcase⟩ := h.takesEffect hp hcurrent
    have hcalls : ∀ q ∈ new.map Proc.ingest, q.Calls rt :=
      List.forall_mem_map.mpr fun q hq => (hnew q hq).1
    have hanswers : (new.map Proc.ingest).flatMap answers = [] := by
      rw [List.flatMap_map]
      exact JobProc.Unanswered.flatMap hnew
    simp only [hanswers, List.append_nil, answers, hnone]
    rcases hcase with ⟨⟨hp', hnone'⟩, hspine⟩ | ⟨job, res, rfl, heffect⟩
    · exact ⟨⟨hp', hcalls⟩, Or.inl ⟨by rw [hnone'], hspine⟩⟩
    · exact ⟨⟨trivial, hcalls⟩, Or.inr ⟨(job, .ok res), .refl _, heffect⟩⟩
  | throw hcan =>
    refine ⟨⟨trivial, hnil⟩, Or.inl ⟨?_, rfl⟩⟩
    cases p with
    | ingest proc => cases hcan
    | _ => exact .refl _

/-- What arrives has brought in nothing. -/
private theorem arrival_answers {s s' : SystemStore} {new : List Proc} (h : Arrival s s' new) :
    (∀ q ∈ new, q.Calls rt) ∧ new.flatMap answers = [] ∧ s'.1.spine = s.1.spine := by
  cases h with
  | _ => exact ⟨List.forall_mem_singleton.mpr trivial, rfl, rfl⟩

end Proc

/-- **The spine is a sequence of ingests.** Take any run of the system, whatever arrives and
    however its steps interleave, throw and are retried, in which every insert acts on a
    decision that is still current. Then the jobs that have completed, taken in some order and
    ingested one at a time by undisturbed `ingestEvent` calls, give the results they completed
    with and the spine that there is. -/
theorem shiplogSystem_serial (rt : Runtime) (d : Drivers) (options : AppOptions) (s₀ s : System)
    (taken₀ taken : List IngestJobData) (procs : List Proc)
    (h : ((shiplogSystem rt d options).restrict fun p s => p.current s.1.spine = true).Reaches
      ([], (s₀, taken₀)) (procs, (s, taken))) :
    ∃ done : List (Job × Except JsVal IngestResult), done.Perm (procs.flatMap Proc.answers) ∧
      Pool.serial (Job.ingest rt) (done.map Prod.fst) s₀.spine =
        (done.map Prod.snd, s.spine) := by
  obtain ⟨done, hperm, hserial⟩ := @Pool.Reaches.serial _ _ _ _ _ _ Proc.answers
    (fun s : SystemStore => s.1.spine) (Job.ingest rt) (Proc.Calls rt) _ _ h
    (fun p s p' s' new hp hstep => hstep.2.1.takesEffect hp hstep.1)
    (fun s s' new henv => Proc.arrival_answers henv)
    (fun p hp => absurd hp List.not_mem_nil)
  rw [List.flatMap_nil, List.append_nil] at hperm
  exact ⟨done, hperm.symm, hserial⟩

/-! ## Two jobs at once -/

/-- Two versions of an issue, enqueued. -/
def twoJobs : System :=
  { emptySystem with ingestJobs := [{ tenantId := tenantA, record := some (issueRecord "v1" "A") },
      { tenantId := tenantA, record := some (issueRecord "v2" "B") }] }

/-- Both are taken up, and their attempts overlap. -/
def twoJobsDone : List Proc × SystemStore :=
  Pool.runSchedule (fun p s => calmLive p s && p.current s.1.spine)
    (calmNext (wholeLog onePos [commitRecord])) [0, 1, 0, 1, 0, 0, 0, 1, 1, 1]
    (twoJobs.ingestJobs.map fun data => .ingest (.waiting ⟨data, ingestAttempts⟩ 0),
      (twoJobs, twoJobs.ingestJobs))

theorem shiplogSystem_serial_twoJobs :
    twoJobsDone.2.1.spine.length = 2 ∧
      ∃ done : List (Job × Except JsVal IngestResult),
        done.Perm (twoJobsDone.1.flatMap Proc.answers) ∧
        Pool.serial (Job.ingest plainRuntime) (done.map Prod.fst) [] =
          (done.map Prod.snd, twoJobsDone.2.1.spine) := by
  refine ⟨by decide +kernel, shiplogSystem_serial plainRuntime plainDrivers ⟨true, true, true⟩
    twoJobs twoJobsDone.2.1 [] twoJobsDone.2.2 twoJobsDone.1 ?_⟩
  refine .head (.environment (.ingest List.mem_cons_self)) (.head (.environment
    (.ingest (List.mem_cons_of_mem _ List.mem_cons_self))) ?_)
  refine Pool.reaches_runSchedule (fun p s hlive => ?_) _ _
  rw [Bool.and_eq_true] at hlive
  exact ⟨hlive.2, calmNext_step hlive.1⟩

end Shiplog
