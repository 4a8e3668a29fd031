import Shiplog.Spec.Resume

/-!
# Polling a growing log

Sweep after sweep enqueues a reconcile job of the same key, and between two of them the log
behind the records API grows. `Polled` is the history of such polls, with attempts that fail
anywhere among them. What an attempt makes of one log is `Progress`; what it has made of a
shorter log counts as progress on a longer one.

## Key results

- `Progress.extend`: progress on a log is progress on every longer one
- `Polled.progress`: what a history of polls leaves behind
- `polling_exactly_once`: a poll that does not fail ends at the end of the log, with every
  live record since the start landed and enqueued once, and at most the live records of the
  pages in flight at a failure enqueued once more
-/

namespace Shiplog

/-- The records of a list are enqueued after one another. -/
private theorem jobsOf_take_append (job : ReconcileJobData) {log more : List NangoRecord} {p q : ℕ}
    (hp : p ≤ q) (hq : q ≤ log.length) :
    jobsOf job (((log ++ more).drop p).take (q - p)) = jobsOf job ((log.drop p).take (q - p)) := by
  rw [List.drop_append_of_le_length (hp.trans hq), List.take_append_of_le_length]
  rw [List.length_drop]
  omega

section Polls

variable {rt : Runtime} {job : ReconcileJobData} {s₀ : DeliveryStore}

/-- **Progress on a log** between two attempts is progress on every longer one. -/
theorem Progress.extend {api api' : LogApi rt} (hpos : api'.pos = api.pos)
    (hlog : api.log <+: api'.log) {q : ℕ} {extras : List IngestJobData} {s : DeliveryStore}
    (h : Progress api job s₀ q [] [] extras s) : Progress api' job s₀ q [] [] extras s := by
  obtain ⟨more, hmore⟩ := hlog
  have hstored : ∀ s : DeliveryStore, storedPos api' job s = storedPos api job s := by
    intro s
    unfold storedPos
    rw [hpos]
  have hstart := h.start_le.trans h.le_length
  -- what follows a position in the longer log is what followed it, and `more`
  have hdrop : ∀ p ≤ api.log.length, api'.log.drop p = api.log.drop p ++ more := by
    intro p hp
    rw [← hmore, List.drop_append_of_le_length hp]
  constructor
  · rw [hstored]
    exact h.pos
  · rw [hstored]
    exact h.start_le
  · rw [← hmore, List.length_append]
    exact h.le_length.trans (Nat.le_add_right _ _)
  · intro hlt
    rw [hstored] at hlt
    have hq : q - 1 < api.log.length := by
      have hle := h.le_length
      omega
    rw [h.cursor hlt, ← hmore, List.getElem?_append_left hq]
  · exact List.nil_prefix
  · obtain ⟨base, hrows, htotal⟩ := h.rows
    refine ⟨base, hrows, ?_⟩
    rw [hstored, hdrop q h.le_length, hdrop _ hstart, rowsOf_append, rowsOf_append,
      List.putAll_append, List.putAll_append, htotal]
  · exact List.nil_prefix
  · rw [hstored, ← hmore, jobsOf_take_append job h.start_le h.le_length]
    exact h.jobs
  · intro j hj
    rw [hstored, hdrop _ hstart, jobsOf_append]
    exact List.mem_append_left _ (h.extras j hj)

variable (rt job s₀) in
/-- A history of polls from `s₀`, over logs that grow from attempt to attempt and in which
    cursors keep their positions: the log of the last one, what each failed attempt had in
    flight, and the store. -/
inductive Polled (pos : String → ℕ) : List NangoRecord → List ℕ → DeliveryStore → Prop where
  | start (log : List NangoRecord)
      (hstart : posOf pos (cursorAt job.key s₀.syncStates) ≤ log.length) : Polled pos log [] s₀
  | crash {log : List NangoRecord} {inFlight : List ℕ} {s s' : DeliveryStore} {run : ReconcileRun}
      (api : LogApi rt) (h : Polled pos log inFlight s) (hpos : api.pos = pos)
      (hlog : log <+: api.log) (n : ℕ) (hattempt : attempt api job n s = (run, s'))
      (hrun : run.isFinished = false) : Polled pos api.log (inFlight ++ [run.inFlight]) s'
  | complete {log : List NangoRecord} {inFlight : List ℕ} {s s' : DeliveryStore}
      (api : LogApi rt) (h : Polled pos log inFlight s) (hpos : api.pos = pos)
      (hlog : log <+: api.log) (hcompletes : Completes api job s s') :
      Polled pos api.log inFlight s'

/-- **What a history of polls leaves behind**, seen from any API over a log that continues
    the last one. -/
theorem Polled.progress {pos : String → ℕ} {log : List NangoRecord} {inFlight : List ℕ}
    {s : DeliveryStore} (h : Polled rt job s₀ pos log inFlight s) (api : LogApi rt)
    (hpos : api.pos = pos) (hlog : log <+: api.log) :
    ∃ q extras, Progress api job s₀ q [] [] extras s ∧ extras.length ≤ inFlight.sum := by
  induction h generalizing api with
  | start log hstart =>
    have hle : storedPos api job s₀ ≤ api.log.length := by
      unfold storedPos
      rw [hpos]
      exact hstart.trans hlog.length_le
    exact ⟨_, [], progress_start hle, Nat.le_refl _⟩
  | @crash log inFlight s s' run api₁ h hpos₁ hlog₁ n hattempt hrun ih =>
    -- the attempt made progress on its own log, from where the polls before had come
    obtain ⟨q, extras, hprog, hle⟩ := ih api₁ hpos₁ hlog₁
    obtain ⟨q', extras', hprog', hle'⟩ :=
      progress_of_crashes (.crash n hattempt hrun (.none s')) hprog
    refine ⟨q', extras', hprog'.extend (hpos.trans hpos₁.symm) hlog, ?_⟩
    rw [List.sum_append]
    simp only [List.sum_cons, List.sum_nil, Nat.add_zero] at hle' ⊢
    omega
  | @complete log inFlight s s' api₁ h hpos₁ hlog₁ hcompletes ih =>
    obtain ⟨q, extras, hprog, hle⟩ := ih api₁ hpos₁ hlog₁
    exact ⟨_, extras, (hcompletes.progress hprog).extend (hpos.trans hpos₁.symm) hlog, hle⟩

end Polls

/-- **Exactly once over a growing log.** After any history of polls, a poll that does not
    fail is possible, and ends with the cursor at the end of the log; the raw rows are those
    of the live records since the start, put one after another; and the jobs enqueued are
    one for each of these records, with at most as many duplicates as there were live
    records in the pages that failed attempts had in flight: none where no attempt failed. -/
theorem polling_exactly_once {rt : Runtime} (api : LogApi rt) (job : ReconcileJobData)
    (s₀ s : DeliveryStore) (log : List NangoRecord) (inFlight : List ℕ)
    (h : Polled rt job s₀ api.pos log inFlight s) (hlog : log <+: api.log) :
    (∃ s', Completes api job s s') ∧ ∀ s', Completes api job s s' →
      storedPos api job s' = api.log.length ∧
      s'.rawRecords = List.putAll RawRecord.key
        (rowsOf rt job (api.log.drop (storedPos api job s₀))) s₀.rawRecords ∧
      ∃ extras, extras.length ≤ inFlight.sum ∧
        (∀ j ∈ extras, j ∈ jobsOf job (api.log.drop (storedPos api job s₀))) ∧
        s'.ingestJobs.Perm (s₀.ingestJobs ++
          jobsOf job (api.log.drop (storedPos api job s₀)) ++ extras) := by
  obtain ⟨q, extras, hprog, hle⟩ := h.progress api rfl hlog
  refine ⟨exists_completes hprog, fun s' hcompletes => ?_⟩
  have hend := hcompletes.progress hprog
  exact ⟨hend.pos, hend.rows_end, extras, hle, hend.extras, hend.jobs_end⟩

/-! ## A log that grows by a page -/

/-- The log before its second record. -/
def firstPage : LogApi plainRuntime where
  log := [cursorRecord]
  block := 1
  pos := twoPos
  listRecords := fun params =>
    { records := ([cursorRecord].drop (posOf twoPos params.cursor)).take 1, nextCursor := none }
  block_pos := Nat.one_pos
  isLog := by
    intro i record hi
    cases i with
    | zero =>
      cases hi
      exact ⟨"c1", rfl, by decide⟩
    | succ i => cases hi
  printable := by
    intro record hrecord
    cases List.mem_singleton.mp hrecord
    exact ⟨"r1", rfl⟩
  records_eq := fun _ => rfl
  token := by
    intro params t htoken
    cases htoken
  last := by
    intro params
    simp only [true_iff, List.length_cons, List.length_nil]
    omega

/-- The first page polled. -/
def firstPolled : DeliveryStore := (attempt firstPage issueReconcile 5 ⟨[], [], []⟩).2

/-- An attempt that fails before it stores the second page's cursor. -/
def secondFailed : DeliveryStore := (attempt twoPages issueReconcile 4 firstPolled).2

/-- After a poll of the first page and a failed attempt at the second, a poll that does not
    fail has both records enqueued, and at most one of them twice. -/
theorem polling_exactly_once_failedAttempt :
    secondFailed.ingestJobs = [issueReconcile.ingestJob cursorRecord,
        issueReconcile.ingestJob laterRecord] ∧
      ∃ s extras, Completes twoPages issueReconcile secondFailed s ∧ extras.length ≤ 1 ∧
        s.ingestJobs.Perm ([issueReconcile.ingestJob cursorRecord,
          issueReconcile.ingestJob laterRecord] ++ extras) := by
  have hstart : Polled plainRuntime issueReconcile ⟨[], [], []⟩ twoPos [cursorRecord] []
      ⟨[], [], []⟩ := .start _ (Nat.zero_le _)
  have hfirst : Polled plainRuntime issueReconcile ⟨[], [], []⟩ twoPos [cursorRecord] []
      firstPolled := .complete firstPage hstart rfl (List.prefix_refl _) ⟨5, _, rfl⟩
  have hattempt : attempt twoPages issueReconcile 4 firstPolled =
      ((attempt twoPages issueReconcile 4 firstPolled).1, secondFailed) := rfl
  have hfailed := Polled.crash twoPages hfirst rfl ⟨[laterRecord], rfl⟩ 4 hattempt
    (by decide +kernel)
  obtain ⟨⟨s, hs⟩, hend⟩ := polling_exactly_once twoPages issueReconcile ⟨[], [], []⟩
    secondFailed _ _ hfailed (List.prefix_refl _)
  obtain ⟨-, -, extras, hle, -, hjobs⟩ := hend s hs
  -- one live record was in flight
  have hflight : (attempt twoPages issueReconcile 4 firstPolled).1.inFlight = 1 := by
    decide +kernel
  rw [List.nil_append, List.sum_singleton, hflight] at hle
  exact ⟨rfl, s, extras, hs, hle, hjobs⟩

end Shiplog
