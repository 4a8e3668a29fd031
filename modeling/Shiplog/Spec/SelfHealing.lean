import Shiplog.Spec.JobLife

/-!
# The demo fault heals itself

A job with a demo fault fails until its tenant has a dead letter with the fault's id, whatever
else its attempts meet. So it uses up its attempts, is dead-lettered once, and the replay of
the dead letter's payload runs like a job that never had the fault.

## Key results

- `demoFault_outage`: the attempts up to the last
- `HealedAs.attempt`: once dead-lettered, the fault makes no difference
- `demoFault_heals`: outage, dead letter and replay
-/

namespace Shiplog

/-- The job without its demo fault. -/
def IngestJobData.withoutDemoFault (job : IngestJobData) : IngestJobData :=
  { job with demoFault := none }

section Attempt

variable {rt : Runtime} {job : IngestJobData} {id : String} {env : AttemptEnv}
  {deadLetters : List DeadLetter} {spine : Spine}

/-- An attempt before there is a dead letter fails, and nothing else of it is tried. -/
private theorem ingestProcessor_outage (hid : demoFaultId job = some id)
    (hexists : env.existsFault = none) (hfresh : alreadyDeadLettered job id deadLetters = false) :
    ingestProcessor rt job env deadLetters spine = (.error (demoFaultError rt), spine) := by
  simp only [ingestProcessor, ingestTry, hid, hexists, hfresh, rethrow]
  rfl

/-- The id is that of the job's fault. -/
private theorem demoFault_eq_some (hid : demoFaultId job = some id) : job.demoFault = some id := by
  unfold demoFaultId at hid
  split at hid
  · split at hid
    · cases hid
    · next heq _ => rw [heq, hid]
  · cases hid

/-- The dead letter of the job counts for its payload, which keeps the fault and the tenant. -/
private theorem alreadyDeadLettered_stored (hid : demoFaultId job = some id) (attemptsMade : ℕ)
    (err : JsVal) (newId : ObjectId) (now : Int) :
    alreadyDeadLettered job.stored id
      (deadLetters ++ [(buildDeadLetterDoc job attemptsMade err newId now).stored]) = true := by
  refine List.any_eq_true.mpr ⟨_, List.mem_concat_self, ?_⟩
  simp [DeadLetter.stored, buildDeadLetterDoc, IngestJobData.stored, demoFault_eq_some hid]

/-- An attempt after that is one of the job without the fault. -/
private theorem ingestProcessor_healed (hid : demoFaultId job = some id)
    (hexists : env.existsFault = none) (hdead : alreadyDeadLettered job id deadLetters = true)
    (deadLetters' : List DeadLetter) :
    ingestProcessor rt job env deadLetters spine =
      ingestProcessor rt job.withoutDemoFault env deadLetters' spine := by
  have htry : ingestTry rt job env deadLetters spine =
      ingestTry rt job.withoutDemoFault env deadLetters' spine := by
    simp only [ingestTry, hid, hexists, hdead, if_true]
    rfl
  unfold ingestProcessor
  rw [htry]

end Attempt

section Heals

variable {rt : Runtime} {job : IngestJobData} {id : String} {attempts : ℕ}
  {script : ℕ → AttemptEnv} {spine : Spine} {deadLetters : List DeadLetter} {dlq : List DlqJob}

/-- The backoff strategy retries an outage: it says nothing of a delay. -/
private theorem demoFault_retried {env : AttemptEnv} (hbase : 0 ≤ env.baseMs)
    (hrng : 0 ≤ env.rng) (attemptsMade : ℕ) :
    env.givesUp attemptsMade (demoFaultError rt) = false := by
  refine Moment.givesUp_eq_false hbase hrng ?_
  intro h
  cases h

/-- **During the outage** the job waits on, and nothing is written. -/
theorem demoFault_outage (hid : demoFaultId job = some id)
    (hscript : ∀ n, (script n).existsFault = none)
    (hsettings : ∀ n, 0 ≤ (script n).baseMs ∧ 0 ≤ (script n).rng)
    (hfresh : alreadyDeadLettered job id deadLetters = false) :
    ∀ n < attempts, runAfter rt job attempts script spine deadLetters dlq n =
      ⟨.waiting, n, spine, deadLetters, dlq⟩ := by
  intro n hn
  induction n with
  | zero => rfl
  | succ n ih =>
    have hretry : bullmqRetries attempts (n + 1) (demoFaultError rt) = true :=
      decide_eq_true hn
    show (runAfter rt job attempts script spine deadLetters dlq n).attempt rt job attempts
      (script n) = _
    rw [ih (by omega)]
    have hgoes := @demoFault_retried rt (script n) (hsettings n).1 (hsettings n).2 (n + 1)
    simp [JobRun.attempt, ingestProcessor_outage hid (hscript n) hfresh,
      onFailed_retried hretry, hretry, hgoes]

/-- **The last attempt** of the outage fails for good and writes the dead letter. -/
private theorem demoFault_last {last : ℕ} (hid : demoFaultId job = some id)
    (hscript : ∀ n, (script n).existsFault = none) (hcreate : ∀ n, (script n).createFault = none)
    (hsettings : ∀ n, 0 ≤ (script n).baseMs ∧ 0 ≤ (script n).rng)
    (hfresh : alreadyDeadLettered job id deadLetters = false) :
    ∃ dlq', runAfter rt job (last + 1) script spine deadLetters dlq (last + 1) =
      ⟨.failed, last + 1, spine,
        deadLetters ++ [(buildDeadLetterDoc job (last + 1) (demoFaultError rt)
          (script last).newId (script last).now).stored], dlq'⟩ := by
  have hgone : bullmqRetries (last + 1) (last + 1) (demoFaultError rt) = false :=
    decide_eq_false (Nat.lt_irrefl _)
  have hbefore := @demoFault_outage rt job id (last + 1) script spine deadLetters dlq hid hscript
    hsettings hfresh last (Nat.lt_succ_self last)
  have hdocs := @onFailed_terminal job (last + 1) deadLetters dlq (script last) (last + 1)
    (demoFaultError rt) (hcreate last) hgone
  refine ⟨(onFailed job (last + 1) (last + 1) (demoFaultError rt) (script last) deadLetters
    dlq).2, ?_⟩
  show (runAfter rt job (last + 1) script spine deadLetters dlq last).attempt rt job (last + 1)
    (script last) = _
  rw [hbefore]
  -- the queue does not retry it, so the handler writes its document
  simp only [JobRun.attempt, ingestProcessor_outage hid (hscript last) hfresh, hgone, hdocs]
  rfl

/-- Two runs that differ in what they have dead-lettered at most, the first with a dead letter
    of the fault. -/
structure HealedAs (job : IngestJobData) (id : String) (run direct : JobRun) : Prop where
  status : run.status = direct.status
  attemptsMade : run.attemptsMade = direct.attemptsMade
  spine : run.spine = direct.spine
  dead : alreadyDeadLettered job id run.deadLetters = true

/-- Dead letters are only added by a handler. -/
private theorem onFailed_grows (job : IngestJobData) (attempts attemptsMade : ℕ) (err : JsVal)
    (env : AttemptEnv) (deadLetters : List DeadLetter) (dlq : List DlqJob) :
    deadLetters <+: (onFailed job attempts attemptsMade err env deadLetters dlq).1 := by
  unfold onFailed persistDeadLetter
  split
  · split
    · exact List.prefix_refl _
    · split <;> exact List.prefix_append _ _
  · exact List.prefix_refl _

/-- **Once dead-lettered**, an attempt with the fault goes as one without. -/
theorem HealedAs.attempt {env : AttemptEnv} (hid : demoFaultId job = some id)
    (hexists : env.existsFault = none) {run direct : JobRun} (h : HealedAs job id run direct) :
    HealedAs job id (run.attempt rt job attempts env)
      (direct.attempt rt job.withoutDemoFault attempts env) := by
  unfold JobRun.attempt
  rw [← h.status, ← h.attemptsMade, ← h.spine]
  cases hstatus : run.status with
  | waiting =>
    simp only
    rw [← ingestProcessor_healed hid hexists h.dead]
    cases hprocess : ingestProcessor rt job env run.deadLetters run.spine with
    | mk outcome spine' =>
      cases outcome with
      | ok res => exact ⟨rfl, rfl, rfl, h.dead⟩
      | error err =>
        refine ⟨rfl, rfl, rfl, ?_⟩
        -- the dead letter is still there
        have hkept := onFailed_grows job attempts (run.attemptsMade + 1) err env run.deadLetters
          run.dlq
        obtain ⟨doc, hdoc, htest⟩ := List.any_eq_true.mp h.dead
        exact List.any_eq_true.mpr ⟨doc, hkept.subset hdoc, htest⟩
  | completed res => exact h
  | failed => exact h

/-- The runs go on alike. -/
theorem HealedAs.after (hid : demoFaultId job = some id)
    (hscript : ∀ n, (script n).existsFault = none) {run direct : JobRun}
    (h : HealedAs job id run direct) (n : ℕ) :
    HealedAs job id (run.after rt job attempts script n)
      (direct.after rt job.withoutDemoFault attempts script n) := by
  induction n with
  | zero => exact h
  | succ n ih => exact ih.attempt hid (hscript n)

end Heals

/-- **The demo fault heals itself.** A job with a demo fault that its tenant has not
    dead-lettered yet uses up all its attempts, whatever they meet beyond the check itself; then
    it has failed, the spine is untouched, and exactly one dead letter has been written, with
    the job's data, as it is stored, as payload. From then on that payload, attempt by attempt
    and whatever else the attempts meet, goes as it does without the fault. -/
theorem demoFault_heals (rt : Runtime) (job : IngestJobData) (id : String) (attempts : ℕ)
    (script script' : ℕ → AttemptEnv) (spine : Spine) (deadLetters : List DeadLetter)
    (dlq : List DlqJob) (hid : demoFaultId job = some id) (hattempts : 1 ≤ attempts)
    (hexists : ∀ n, (script n).existsFault = none) (hcreate : ∀ n, (script n).createFault = none)
    (hsettings : ∀ n, 0 ≤ (script n).baseMs ∧ 0 ≤ (script n).rng)
    (hexists' : ∀ n, (script' n).existsFault = none)
    (hfresh : alreadyDeadLettered job id deadLetters = false) :
    let outage := runAfter rt job attempts script spine deadLetters dlq
    (∀ n < attempts, outage n = ⟨.waiting, n, spine, deadLetters, dlq⟩) ∧
      (outage attempts).status = .failed ∧ (outage attempts).attemptsMade = attempts ∧
      (outage attempts).spine = spine ∧
      ∃ doc, (outage attempts).deadLetters = deadLetters ++ [doc] ∧ doc.payload = job.stored ∧
        doc.attemptsMade = attempts ∧ ∀ dlq' n,
          let replay := runAfter rt doc.payload attempts script' spine (deadLetters ++ [doc]) dlq' n
          let direct := runAfter rt doc.payload.withoutDemoFault attempts script' spine
            (deadLetters ++ [doc]) dlq' n
          replay.status = direct.status ∧ replay.attemptsMade = direct.attemptsMade ∧
            replay.spine = direct.spine := by
  intro outage
  have hwaits :=
    @demoFault_outage rt job id attempts script spine deadLetters dlq hid hexists hsettings hfresh
  obtain ⟨last, rfl⟩ : ∃ last, attempts = last + 1 := ⟨attempts - 1, by omega⟩
  obtain ⟨dlq₁, hlast⟩ := @demoFault_last rt job id script spine deadLetters dlq last hid hexists
    hcreate hsettings hfresh
  have houtage : outage (last + 1) = _ := hlast
  rw [houtage]
  refine ⟨hwaits, rfl, rfl, rfl, _, rfl, rfl, rfl, fun dlq' n => ?_⟩
  -- the replay finds the dead letter, so the fault makes no difference to it
  let doc := (buildDeadLetterDoc job (last + 1) (demoFaultError rt) (script last).newId
    (script last).now).stored
  have hheals := @HealedAs.after rt job.stored id (last + 1) script' hid hexists'
    (.enqueued spine (deadLetters ++ [doc]) dlq') (.enqueued spine (deadLetters ++ [doc]) dlq')
    ⟨rfl, rfl, rfl, alreadyDeadLettered_stored hid _ _ _ _⟩ n
  exact ⟨hheals.status, hheals.attemptsMade, hheals.spine⟩

/-- A demo job of an issue. -/
def demoJob : IngestJobData := { issueJob with demoFault := some "demo-1" }

/-- It fails twice of twice, and its payload is ingested from the dead letter. -/
theorem demoFault_heals_issue :
    (runAfter plainRuntime demoJob 2 (fun _ => calmAttempt) [] [] [] 2).status = .failed ∧
      ∃ doc : DeadLetter, doc.payload = demoJob ∧
        (runAfter plainRuntime doc.payload 2 (fun _ => calmAttempt) [] ([] ++ [doc]) [] 1).spine =
          (runAfter plainRuntime doc.payload.withoutDemoFault 2 (fun _ => calmAttempt) []
            ([] ++ [doc]) [] 1).spine := by
  obtain ⟨-, hfailed, -, -, doc, -, hpayload, -, hreplay⟩ := demoFault_heals plainRuntime demoJob
    "demo-1" 2 (fun _ => calmAttempt) (fun _ => calmAttempt) [] [] [] (by decide) (by decide)
    (fun _ => rfl) (fun _ => rfl) (fun _ => ⟨by norm_num [calmAttempt, defaultMoment], le_refl _⟩)
    (fun _ => rfl) rfl
  exact ⟨hfailed, doc, hpayload, (hreplay [] 1).2.2⟩

end Shiplog
