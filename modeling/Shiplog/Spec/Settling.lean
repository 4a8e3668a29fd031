import Shiplog.Spec.NoSilentLoss

/-!
# Every ingest job settles

However the worker interleaves its jobs and whatever throws, an attempt makes at most eight
steps, handler included, and there are only so many attempts. So once no more jobs arrive the
pipeline comes to rest, whichever step is taken next; and when it is at rest no job is stuck
half-way.

## Key results

- `JobProc.Step.cost`: every step uses up some of `JobProc.stepsLeft`
- `JobProc.settled_of_rests`: a process without a step has completed, been handled or given up
- `pipeline_charged`: every job of a state has a process in charge of it
- `ingestJobs_settle`: every job completes, is dead-lettered or given up, within a bounded number
  of steps
-/

namespace Shiplog

/-- The steps a call of `ingestEvent` has left at most. -/
def IngestRun.stepsLeft : IngestRun → ℕ
  | .called _ => 4
  | .running _ .exists_ => 3
  | .running _ .findOne => 2
  | .running _ (.updateOne _) => 1
  | .finished _ => 0

/-- The attempts a waiting job has left. -/
def Job.attemptsLeft (job : Job) (attemptsMade : ℕ) : ℕ := max 1 (job.attempts - attemptsMade)

/-- The steps a job and its handlers have left at most: eight for each attempt. -/
def JobProc.stepsLeft : JobProc → ℕ
  | .waiting job made => 8 * job.attemptsLeft made
  | .demoCheck job made _ _ => 8 * (job.attemptsLeft made - 1) + 7
  | .ingesting job made run => 8 * (job.attemptsLeft made - 1) + 2 + run.stepsLeft
  | .failing _ _ _ => 2
  | .parking _ _ _ _ => 1
  | .completed _ _ | .handled _ _ _ | .givenUp _ _ _ => 0

/-! ## The cost of a step -/

section Cost

variable {rt : Runtime}

/-- Answered or not, an operation of a call is used up. -/
private theorem IngestRun.Step.cost {run run' : IngestRun} {spine spine' : Spine}
    (h : IngestRun.Step rt run spine run' spine') : run'.stepsLeft < run.stepsLeft := by
  -- a fault ends the call, a duplicate key with an answer
  cases h with
  | answer hlive =>
    cases run with
    | called args =>
      simp only [IngestRun.next]
      split <;> simp [IngestRun.stepsLeft]
    | running c pc =>
      cases pc with
      | exists_ =>
        simp only [IngestRun.next]
        split <;> simp [IngestRun.stepsLeft]
      | findOne =>
        simp only [IngestRun.next]
        split <;> simp [IngestRun.stepsLeft]
      | updateOne status =>
        simp only [IngestRun.next]
        split <;> simp [IngestRun.stepsLeft]
    | finished outcome => cases hlive
  | duplicateKey htaken herr =>
    simp [IngestRun.fault, herr, IngestRun.stepsLeft]
  | @throw run _ err hop herr =>
    cases run with
    | running c pc =>
      cases pc with
      | updateOne status =>
        simp only [IngestRun.fault]
        split <;> simp [IngestRun.stepsLeft]
      | _ => simp [IngestRun.fault, IngestRun.stepsLeft]
    | _ => exact absurd rfl hop

namespace JobProc

variable {m : Moment} {job : Job} {attemptsMade : ℕ}

/-- What a list of processes has left. -/
def totalLeft (ps : List JobProc) : ℕ := (ps.map stepsLeft).sum

/-- An attempt that throws leaves the later attempts and its handler. -/
private theorem throwing_left (err : JsVal) :
    totalLeft ((throwing rt m job attemptsMade err).1 ::
      (throwing rt m job attemptsMade err).2) ≤ 8 * (job.attemptsLeft attemptsMade - 1) + 2 := by
  unfold throwing
  simp only
  cases hretry : bullmqRetries job.attempts (attemptsMade + 1) (rethrow rt m.now err) with
  | false => exact Nat.le_add_left 2 _
  | true =>
    simp only [if_true]
    split
    · exact Nat.zero_le _
    · -- the job is retried, so this was not its last attempt
      unfold bullmqRetries at hretry
      rw [Bool.and_eq_true, decide_eq_true_eq] at hretry
      simp only [totalLeft, List.map_cons, List.map_nil, List.sum_cons, List.sum_nil, stepsLeft,
        Job.attemptsLeft]
      omega

private theorem enterIngest_left (failMode : JsVal) :
    totalLeft ((enterIngest rt m job attemptsMade failMode).1 ::
      (enterIngest rt m job attemptsMade failMode).2) ≤
        8 * (job.attemptsLeft attemptsMade - 1) + 6 := by
  unfold enterIngest
  split
  · exact (throwing_left _).trans (Nat.add_le_add_left (by decide) _)
  · simp only [totalLeft, List.map_cons, List.map_nil, List.sum_cons, List.sum_nil, stepsLeft,
      IngestRun.stepsLeft]
    omega

private theorem afterIngest_left (run : IngestRun) :
    totalLeft ((afterIngest rt m job attemptsMade run).1 ::
      (afterIngest rt m job attemptsMade run).2) ≤
        8 * (job.attemptsLeft attemptsMade - 1) + 2 + run.stepsLeft := by
  unfold afterIngest
  split
  · simp only [totalLeft, List.map_cons, List.map_nil, List.sum_cons, List.sum_nil, stepsLeft]
    omega
  · exact Nat.zero_le _
  · exact (throwing_left _).trans (Nat.le_add_right _ _)

/-- **Every step costs**: a process and what it starts have less left than before. -/
theorem Step.cost {createThrows : Prop} {p p' : JobProc} {s s' : Pipeline} {new : List JobProc}
    (h : Step rt createThrows p s p' s' new) : totalLeft (p' :: new) < p.stepsLeft := by
  have hpos : ∀ job : Job, ∀ made, 1 ≤ job.attemptsLeft made := fun job made => Nat.le_max_left _ _
  cases h with
  | @start job made _ failMode m h =>
    have hleft := @enterIngest_left rt m job made failMode
    have hone := hpos job made
    simp only [stepsLeft]
    omega
  | @startDemo job made _ id failMode h =>
    have hone := hpos job made
    simp only [totalLeft, List.map_cons, List.map_nil, List.sum_cons, List.sum_nil, stepsLeft]
    omega
  | demoRecovered m h => exact Nat.lt_succ_of_le (enterIngest_left _)
  | demoOutage m h =>
    exact Nat.lt_of_le_of_lt (throwing_left _) (Nat.add_lt_add_left (by decide) _)
  | demoThrow m err =>
    exact Nat.lt_of_le_of_lt (throwing_left err) (Nat.add_lt_add_left (by decide) _)
  | ingest m h => exact Nat.lt_of_le_of_lt (afterIngest_left _) (Nat.add_lt_add_left h.cost _)
  -- a handler logs, or writes its document and parks it
  | log h => simp [totalLeft, stepsLeft]
  | create id now h hdoc => simp [totalLeft, stepsLeft]
  | createThrow hc h => simp [totalLeft, stepsLeft]
  | park => simp [totalLeft, stepsLeft]
  | parkThrow => simp [totalLeft, stepsLeft]

end JobProc

end Cost

/-! ## At rest -/

namespace JobProc

/-- A call inside `ingestEvent` has not returned yet. -/
def Live : JobProc → Prop
  | .ingesting _ _ run => run.outcome = none
  | _ => True

section Live

variable {rt : Runtime} {m : Moment} {job : Job} {attemptsMade : ℕ}

private theorem throwing_live (err : JsVal) : (throwing rt m job attemptsMade err).1.Live ∧
    ∀ q ∈ (throwing rt m job attemptsMade err).2, q.Live :=
  throwing_all (fun _ => trivial) (fun _ _ => trivial) (fun _ _ => trivial) err

private theorem enterIngest_live (failMode : JsVal) :
    (enterIngest rt m job attemptsMade failMode).1.Live ∧
      ∀ q ∈ (enterIngest rt m job attemptsMade failMode).2, q.Live :=
  enterIngest_all (fun _ => trivial) (fun _ _ => trivial) (fun _ _ => trivial) (fun _ _ => rfl)
    failMode

private theorem afterIngest_live (run : IngestRun) :
    (afterIngest rt m job attemptsMade run).1.Live ∧
      ∀ q ∈ (afterIngest rt m job attemptsMade run).2, q.Live := by
  unfold afterIngest
  split
  · next hlive => exact ⟨hlive, fun q hq => absurd hq List.not_mem_nil⟩
  · exact ⟨trivial, fun q hq => absurd hq List.not_mem_nil⟩
  · exact throwing_live _

/-- **A process without a step** is a job that has completed or been given up, or a handler
    that has finished. -/
theorem settled_of_rests {createThrows : Prop} {p : JobProc} {s : Pipeline} (hp : p.Live)
    (hrests : ∀ p' s' new, ¬ Step rt createThrows p s p' s' new) :
    (∃ job res, p = .completed job res) ∨ (∃ job made err, p = .handled job made err) ∨
      ∃ job made err, p = .givenUp job made err := by
  cases p with
  | waiting job made =>
    cases hdemo : demoFaultId job.data with
    | none => exact absurd (.start .undefined ⟨0, 1000, 0⟩ hdemo) (hrests _ _ _)
    | some id => exact absurd (.startDemo .undefined hdemo) (hrests _ _ _)
  | demoCheck job made failMode id =>
    exact absurd (.demoThrow ⟨0, 1000, 0⟩ .undefined) (hrests _ _ _)
  | ingesting job made run => exact absurd (.ingest ⟨0, 1000, 0⟩ (.answer hp)) (hrests _ _ _)
  | completed job res => exact Or.inl ⟨job, res, rfl⟩
  | failing job made err =>
    cases hterminal : isTerminalFailure job.attempts made err with
    | false => exact absurd (.log hterminal) (hrests _ _ _)
    | true => exact absurd (.create tenantA 0 hterminal rfl) (hrests _ _ _)
  | parking job made err doc => exact absurd .park (hrests _ _ _)
  | handled job made err => exact Or.inr (Or.inl ⟨job, made, err, rfl⟩)
  | givenUp job made err => exact Or.inr (Or.inr ⟨job, made, err, rfl⟩)

end Live

end JobProc

/-- Every step keeps the processes live. -/
private theorem pipeline_live (rt : Runtime) (createThrows : Prop) :
    (ingestPipeline rt createThrows).Invariant (fun _ => True) (fun _ p => p.Live) where
  env := by
    intro s s' new _ henv
    obtain ⟨-, job, rfl⟩ := henv
    exact ⟨trivial, fun q hq => List.mem_singleton.mp hq ▸ trivial, fun q hq => hq⟩
  step := by
    intro p s p' s' new _ hp hstep
    suffices h : p'.Live ∧ ∀ q ∈ new, q.Live from ⟨trivial, h.1, h.2, fun q hq => hq⟩
    have hnil : ∀ q ∈ ([] : List JobProc), q.Live := fun q hq => absurd hq List.not_mem_nil
    cases hstep with
    | start failMode m h => exact JobProc.enterIngest_live failMode
    | demoRecovered m h => exact JobProc.enterIngest_live _
    | demoOutage m h => exact JobProc.throwing_live _
    | demoThrow m err => exact JobProc.throwing_live err
    | ingest m h => exact JobProc.afterIngest_live _
    | _ => exact ⟨trivial, hnil⟩

/-- **The charge of a job** stays with a process of the pool. -/
theorem pipeline_inCharge {rt : Runtime} {createThrows : Prop} {c c' : List JobProc × Pipeline}
    (h : (ingestPipeline rt createThrows).Reaches c c') {job : Job}
    (hjob : ∃ p ∈ c.1, p.InCharge job) : ∃ p ∈ c'.1, p.InCharge job := by
  refine @Pool.Reaches.covered _ _ _ Job (fun _ job' => job' = job)
    (fun p job' => p.InCharge job') _ _ h ?_ ?_ ?_ job rfl
  · exact fun p s p' s' new hstep =>
      ⟨fun job hp => ⟨_, List.mem_cons_self, hstep.inCharge hp⟩, fun job hjob => Or.inl hjob⟩
  · exact fun s s' new henv job hjob => Or.inl hjob
  · rintro _ rfl
    exact hjob

/-- A step is about a job that a process was about before, or about one that arrives. -/
private theorem pipeline_step_job {rt : Runtime} {createThrows : Prop}
    {c c' : List JobProc × Pipeline} (h : (ingestPipeline rt createThrows).Step c c')
    {q : JobProc} (hq : q ∈ c'.1) : (∃ p ∈ c.1, p.job = q.job) ∨ q.InCharge q.job := by
  cases h with
  | @process ps s s' p p' new i hi hstep =>
    have hp : p ∈ ps := List.mem_of_getElem? hi
    obtain ⟨hjob, hnew⟩ := hstep.job_eq
    rcases List.mem_append.mp hq with hq | hq
    · rcases List.mem_or_eq_of_mem_set hq with hold | rfl
      · exact Or.inl ⟨q, hold, rfl⟩
      · exact Or.inl ⟨p, hp, hjob.symm⟩
    · exact Or.inl ⟨p, hp, (hnew q hq).symm⟩
  | environment henv =>
    obtain ⟨-, job, rfl⟩ := henv
    rcases List.mem_append.mp hq with hold | hnew
    · exact Or.inl ⟨q, hold, rfl⟩
    · -- the job waits, in charge of itself
      rw [List.mem_singleton.mp hnew]
      exact Or.inr rfl

/-- **Every job of a state**, there at the start or arrived since, has a process in charge. -/
theorem pipeline_charged {rt : Runtime} {createThrows : Prop} {jobs : List Job} {s₀ : Pipeline}
    {c : List JobProc × Pipeline}
    (h : (ingestPipeline rt createThrows).Reaches (jobs.map (JobProc.waiting · 0), s₀) c)
    {job : Job} (hjob : job ∈ jobs ∨ ∃ p ∈ c.1, p.job = job) : ∃ p ∈ c.1, p.InCharge job := by
  rcases hjob with hjob | ⟨p, hp, rfl⟩
  · exact pipeline_inCharge h ⟨_, List.mem_map_of_mem hjob, rfl⟩
  · induction h generalizing p with
    | refl =>
      obtain ⟨job, -, rfl⟩ := List.mem_map.mp hp
      exact ⟨_, hp, rfl⟩
    | tail _ hstep ih =>
      rcases pipeline_step_job hstep hp with ⟨p₀, hp₀, hsame⟩ | hcharge
      · exact pipeline_inCharge (.single hstep) (hsame ▸ ih p₀ hp₀)
      · exact ⟨p, hp, hcharge⟩

/-- **Every ingest job settles.** Take any state the pipeline reaches from waiting jobs, with
    others arriving meanwhile and any store call throwing but `DeadLetter.create`. From then on,
    with no more arrivals, the worker can come to rest; whichever way it goes on it makes no
    more than the steps its processes have left, at most eight for each attempt of a job; and
    when it is at rest, every job of that state, there at the start or arrived since, has
    completed with the result of `ingestEvent` on its record, has its dead letter, or has been
    given up by the backoff strategy. -/
theorem ingestJobs_settle (rt : Runtime) (jobs : List Job) (s₀ s : Pipeline) (ps : List JobProc)
    (h : (ingestPipeline rt False).Reaches (jobs.map (JobProc.waiting · 0), s₀) (ps, s)) :
    (∃ n c, (ingestPipeline rt False).Moves n (ps, s) c ∧ (ingestPipeline rt False).Rests c) ∧
      ∀ n c, (ingestPipeline rt False).Moves n (ps, s) c →
        n ≤ (ps.map JobProc.stepsLeft).sum ∧
        ((ingestPipeline rt False).Rests c → ∀ job, (job ∈ jobs ∨ ∃ p ∈ ps, p.job = job) →
          (∃ res, JobProc.completed job res ∈ c.1 ∧ ResultOf rt job res) ∨
            DeadLettered job c.2.deadLetters ∨
              ∃ made err, JobProc.givenUp job made err ∈ c.1) := by
  have hcost : ∀ p s p' s' new, (ingestPipeline rt False).step p s p' s' new →
      p'.stepsLeft + (new.map JobProc.stepsLeft).sum < p.stepsLeft :=
    fun p s p' s' new hstep => hstep.cost
  refine ⟨Pool.exists_rests hcost (ps, s), fun n c hmoves => ⟨?_, fun hrests job hjob => ?_⟩⟩
  · exact (Nat.le_add_right n _).trans (hmoves.le_sum hcost)
  · have hreach := h.trans hmoves.reaches
    have hstart : ∀ p ∈ jobs.map (JobProc.waiting · 0), p.Live ∧ Accounted rt s₀ p := by
      intro q hq
      obtain ⟨job', -, rfl⟩ := List.mem_map.mp hq
      exact ⟨trivial, trivial⟩
    obtain ⟨p, hp, hcharge⟩ := pipeline_inCharge hmoves.reaches (pipeline_charged h hjob)
    have hlive := ((pipeline_live rt False).reaches hreach trivial
      fun q hq => (hstart q hq).1).2 p hp
    have haccounted := ((pipeline_accounted rt).reaches hreach trivial
      fun q hq => (hstart q hq).2).2 p hp
    -- the process in charge is at its end
    rcases JobProc.settled_of_rests hlive (hrests p hp) with ⟨job', res, rfl⟩ |
      ⟨job', made, err, rfl⟩ | ⟨job', made, err, rfl⟩
    · cases hcharge
      exact Or.inl ⟨res, hp, haccounted⟩
    · obtain ⟨rfl, hgone⟩ := hcharge
      exact Or.inr (Or.inl (haccounted hgone))
    · cases hcharge
      exact Or.inr (Or.inr ⟨made, err, hp⟩)

/-- The poisoned job after its attempt: it can come to rest, and only with its dead letter,
    completed or given up. -/
theorem ingestJobs_settle_poison : ∃ c,
    (ingestPipeline plainRuntime False).Reaches
      ([.failing poisonJob 1 poisonError], ⟨[], [], []⟩) c ∧
    ((∃ res, JobProc.completed poisonJob res ∈ c.1 ∧ ResultOf plainRuntime poisonJob res) ∨
      DeadLettered poisonJob c.2.deadLetters ∨
        ∃ made err, JobProc.givenUp poisonJob made err ∈ c.1) := by
  obtain ⟨⟨n, c, hmoves, hrests⟩, hall⟩ := ingestJobs_settle plainRuntime [poisonJob] ⟨[], [], []⟩
    ⟨[], [], []⟩ [.failing poisonJob 1 poisonError] (poisonJob_fails False)
  exact ⟨c, hmoves.reaches,
    (hall n c hmoves).2 hrests poisonJob (Or.inl List.mem_cons_self)⟩

end Shiplog
