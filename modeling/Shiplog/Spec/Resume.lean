import Shiplog.ForStd.Iterate
import Shiplog.Spec.CursorInvariant

/-!
# Crash and resume

The records API over a fixed log, in blocks of a fixed size. An attempt pages on by
`next_cursor` and is resumed, after it fails, by the stored record cursor; both stand for
the page boundary it had reached. `Progress` says how far the store has come from where the
first attempt found it: what is landed can only be overwritten with itself
(`List.putAll_putAll_of_prefix`), and what is enqueued twice lies in pages that were in
flight.

## Key results

- `next_progress`: one call of an attempt moves `Progress` along
- `work_lt`: every call leaves less work
- `progress_of_crashes`: what failed attempts leave behind
- `reconcile_resume`: after any failed attempts, one that does not fail ends with the cursor,
  the raw rows and the enqueued records of a single attempt
-/

namespace Shiplog

/-- A records API over a fixed log in blocks of `block` records. -/
structure LogApi (rt : Runtime) where
  log : List NangoRecord
  block : ℕ
  pos : String → ℕ
  listRecords : NangoListParams → Page
  block_pos : 0 < block
  isLog : IsLog pos log
  /-- record ids are strings or numbers -/
  printable : ∀ record ∈ log, ∃ id, nangoRecordId rt record = .ok id
  records_eq : ∀ params, (listRecords params).records =
    (log.drop (posOf pos params.cursor)).take block
  token : ∀ params t, (listRecords params).nextCursor = some t →
    t ≠ "" ∧ pos t = posOf pos params.cursor + block
  last : ∀ params, (listRecords params).nextCursor = none ↔
    log.length ≤ posOf pos params.cursor + block

/-- The live records among `records`. -/
def liveOf (records : List NangoRecord) : List NangoRecord :=
  records.filter fun record => !record.deleted

/-- The number of live records of the page a run is working on. -/
def ReconcileRun.inFlight : ReconcileRun → ℕ
  | .land _ _ page _ _ | .enqueue _ _ page _ _ | .checkpoint _ _ page =>
    (liveOf page.records).length
  | _ => 0

section Attempts

variable {rt : Runtime} (api : LogApi rt) (job : ReconcileJobData)

/-- The first `n` calls of an attempt. -/
def attempt (n : ℕ) (s : DeliveryStore) : ReconcileRun × DeliveryStore :=
  (fun st => st.1.next rt api.listRecords st.2)^[n] (.load job, s)

/-- A schedule of failed attempts: each does some calls and fails at its next one, which has
    no effect. The list holds what each had in flight. -/
inductive Crashes : DeliveryStore → List ℕ → DeliveryStore → Prop where
  | none (s : DeliveryStore) : Crashes s [] s
  | crash {s s' s'' : DeliveryStore} {run : ReconcileRun} {inFlight : List ℕ} (n : ℕ)
      (h : attempt api job n s = (run, s')) (hrun : run.isFinished = false)
      (hrest : Crashes s' inFlight s'') : Crashes s (run.inFlight :: inFlight) s''

/-- An attempt that does not fail takes the store from `s` to `s'`. -/
def Completes (s s' : DeliveryStore) : Prop :=
  ∃ n result, attempt api job n s = (.finished (some result), s')

end Attempts

/-! ## What an attempt lands and enqueues -/

/-- The raw rows of the live records among `records`. -/
def rowsOf (rt : Runtime) (job : ReconcileJobData) (records : List NangoRecord) :
    List RawRecord :=
  (liveOf records).filterMap fun record => (rawRow rt (job.stamp record) job.rawContext).toOption

/-- The ingest jobs of the live records among `records`. -/
def jobsOf (job : ReconcileJobData) (records : List NangoRecord) : List IngestJobData :=
  (liveOf records).map job.ingestJob

theorem liveOf_append (xs ys : List NangoRecord) : liveOf (xs ++ ys) = liveOf xs ++ liveOf ys :=
  List.filter_append ..

/-- Tombstones are not live. -/
private theorem liveOf_of_deleted {dead : List NangoRecord} (h : ∀ r ∈ dead, r.deleted = true) :
    liveOf dead = [] := by
  unfold liveOf
  rw [List.filter_eq_nil_iff]
  intro r hr
  rw [h r hr]
  decide

private theorem liveOf_singleton {record : NangoRecord} (h : record.deleted = false) :
    liveOf [record] = [record] := by
  unfold liveOf
  rw [List.filter_cons_of_pos (by rw [h]; rfl), List.filter_nil]

theorem rowsOf_append (rt : Runtime) (job : ReconcileJobData) (xs ys : List NangoRecord) :
    rowsOf rt job (xs ++ ys) = rowsOf rt job xs ++ rowsOf rt job ys := by
  unfold rowsOf
  rw [liveOf_append, List.filterMap_append]

theorem jobsOf_append (job : ReconcileJobData) (xs ys : List NangoRecord) :
    jobsOf job (xs ++ ys) = jobsOf job xs ++ jobsOf job ys := by
  unfold jobsOf
  rw [liveOf_append, List.map_append]

private theorem jobsOf_singleton (job : ReconcileJobData) {record : NangoRecord}
    (h : record.deleted = false) : jobsOf job [record] = [job.ingestJob record] := by
  unfold jobsOf
  rw [liveOf_singleton h]
  rfl

private theorem length_jobsOf (job : ReconcileJobData) (records : List NangoRecord) :
    (jobsOf job records).length = (liveOf records).length :=
  List.length_map ..

private theorem rowsOf_mono (rt : Runtime) (job : ReconcileJobData) {xs ys : List NangoRecord}
    (h : xs <+: ys) : rowsOf rt job xs <+: rowsOf rt job ys := by
  obtain ⟨zs, rfl⟩ := h
  rw [rowsOf_append]
  exact List.prefix_append _ _

/-- A record whose id prints can be landed. -/
theorem rawRow_of_printable {rt : Runtime} {record : NangoRecord} {ctx : LandRawContext}
    {id : String} (h : nangoRecordId rt record = .ok id) :
    ∃ row, rawRow rt record ctx = .ok row := by
  -- the two defaults differ only where there is no id
  have hunknown : ∃ id, recordIdOr rt "unknown" record = .ok id := by
    unfold nangoRecordId recordIdOr JsVal.coalesce at h
    unfold recordIdOr JsVal.coalesce
    split
    · exact ⟨"unknown", rfl⟩
    · next hnull =>
      rw [if_neg hnull] at h
      exact ⟨id, h⟩
  have hext : ∃ id, externalIdOf rt record = .ok id := by
    unfold externalIdOf
    split
    · next normalized hnorm => exact normalize_externalId hnorm
    · exact hunknown
  obtain ⟨ext, hext⟩ := hext
  unfold rawRow
  rw [h, hext]
  exact ⟨_, rfl⟩

/-! ## Progress -/

section Progress

variable {rt : Runtime} (api : LogApi rt) (job : ReconcileJobData) (s₀ : DeliveryStore)

/-- The position of the stored cursor. -/
def storedPos (s : DeliveryStore) : ℕ := posOf api.pos (cursorAt job.key s.syncStates)

/-- How far the store has come from `s₀`: its cursor stands at `q`, of what follows
    `landed` has been landed and `queued` enqueued, and `extras` are the jobs enqueued by
    failed attempts in pages they did not finish. -/
structure Progress (q : ℕ) (landed queued : List NangoRecord) (extras : List IngestJobData)
    (s : DeliveryStore) : Prop where
  pos : storedPos api job s = q
  start_le : storedPos api job s₀ ≤ q
  le_length : q ≤ api.log.length
  cursor : storedPos api job s₀ < q →
    cursorAt job.key s.syncStates = (api.log[q - 1]?).bind (·.cursor)
  landedBlock : landed <+: api.log.drop q
  rows : ∃ base, s.rawRecords = List.putAll RawRecord.key (rowsOf rt job landed) base ∧
    List.putAll RawRecord.key (rowsOf rt job (api.log.drop q)) base =
      List.putAll RawRecord.key (rowsOf rt job (api.log.drop (storedPos api job s₀)))
        s₀.rawRecords
  queuedBlock : queued <+: api.log.drop q
  jobs : s.ingestJobs.Perm (s₀.ingestJobs ++
    jobsOf job ((api.log.drop (storedPos api job s₀)).take (q - storedPos api job s₀)) ++
      jobsOf job queued ++ extras)
  extras : ∀ j ∈ extras, j ∈ jobsOf job (api.log.drop (storedPos api job s₀))

/-- The page a run is working on is the one at its page cursor. -/
structure PageAt (vars : ReconcileVars) (page : Page) : Prop where
  records : page.records = (api.log.drop (posOf api.pos vars.pageCursor)).take api.block
  nonempty : page.records ≠ []
  token : ∀ t, page.nextCursor = some t →
    t ≠ "" ∧ api.pos t = posOf api.pos vars.pageCursor + api.block
  last : page.nextCursor = none ↔ api.log.length ≤ posOf api.pos vars.pageCursor + api.block

/-- A run stands at the page that begins at `q`, with `landed` and `queued` of it done. -/
inductive At : ReconcileRun → ℕ → List NangoRecord → List NangoRecord → Prop where
  | load {q : ℕ} : At (.load job) q [] []
  | fetch {vars : ReconcileVars} : At (.fetch job vars) (posOf api.pos vars.pageCursor) [] []
  | land {vars : ReconcileVars} {page : Page} {record : NangoRecord} {done rest : List NangoRecord}
      (hpage : PageAt api vars page) (heq : page.records = done ++ record :: rest)
      (hlive : record.deleted = false) :
      At (.land job vars page record rest) (posOf api.pos vars.pageCursor) done done
  | enqueue {vars : ReconcileVars} {page : Page} {record : NangoRecord}
      {done rest : List NangoRecord} (hpage : PageAt api vars page)
      (heq : page.records = done ++ record :: rest) (hlive : record.deleted = false) :
      At (.enqueue job vars page record rest) (posOf api.pos vars.pageCursor)
        (done ++ [record]) done
  | checkpoint {vars : ReconcileVars} {page : Page} (hpage : PageAt api vars page) :
      At (.checkpoint job vars page) (posOf api.pos vars.pageCursor) page.records page.records
  | finished {result : ReconcileResult} : At (.finished (some result)) api.log.length [] []

variable {api job s₀}

/-- Where an attempt begins. -/
theorem progress_start (hle : storedPos api job s₀ ≤ api.log.length) :
    Progress api job s₀ (storedPos api job s₀) [] [] [] s₀ where
  pos := rfl
  start_le := le_refl _
  le_length := hle
  cursor := fun h => absurd h (lt_irrefl _)
  landedBlock := List.nil_prefix
  rows := ⟨s₀.rawRecords, rfl, rfl⟩
  queuedBlock := List.nil_prefix
  jobs := by
    rw [Nat.sub_self, List.take_zero]
    simp [jobsOf, liveOf]
  extras := fun j hj => absurd hj List.not_mem_nil

/-- Tombstones need neither landing nor enqueueing. -/
private theorem Progress.skip {q : ℕ} {done dead : List NangoRecord} {extras : List IngestJobData}
    {s : DeliveryStore} (h : Progress api job s₀ q done done extras s)
    (hdead : ∀ r ∈ dead, r.deleted = true) (hpre : done ++ dead <+: api.log.drop q) :
    Progress api job s₀ q (done ++ dead) (done ++ dead) extras s where
  pos := h.pos
  start_le := h.start_le
  le_length := h.le_length
  cursor := h.cursor
  landedBlock := hpre
  rows := by
    -- deleted records have neither rows nor jobs
    have hrows : rowsOf rt job (done ++ dead) = rowsOf rt job done := by
      rw [rowsOf_append, rowsOf, rowsOf, liveOf_of_deleted hdead, List.filterMap_nil,
        List.append_nil]
    rw [hrows]
    exact h.rows
  queuedBlock := hpre
  jobs := by
    have hjobs : jobsOf job (done ++ dead) = jobsOf job done := by
      rw [jobsOf_append, jobsOf, jobsOf, liveOf_of_deleted hdead, List.map_nil, List.append_nil]
    rw [hjobs]
    exact h.jobs
  extras := h.extras

/-- A live record landed: its row is put last. -/
theorem Progress.land {q : ℕ} {landed queued : List NangoRecord} {extras : List IngestJobData}
    {s : DeliveryStore} {record : NangoRecord} {row : RawRecord}
    (h : Progress api job s₀ q landed queued extras s) (hlive : record.deleted = false)
    (hrow : rawRow rt (job.stamp record) job.rawContext = .ok row)
    (hpre : landed ++ [record] <+: api.log.drop q) :
    Progress api job s₀ q (landed ++ [record]) queued extras
      { s with rawRecords := s.rawRecords.put RawRecord.key row } where
  pos := h.pos
  start_le := h.start_le
  le_length := h.le_length
  cursor := h.cursor
  landedBlock := hpre
  rows := by
    obtain ⟨base, hrows, htotal⟩ := h.rows
    refine ⟨base, ?_, htotal⟩
    -- the record is live, and its raw row is the one put
    have hone : rowsOf rt job [record] = [row] := by
      unfold rowsOf
      rw [liveOf_singleton hlive, List.filterMap_cons_some (b := row) (by rw [hrow]; rfl),
        List.filterMap_nil]
    rw [rowsOf_append, hone, List.putAll_concat, ← hrows]
  queuedBlock := h.queuedBlock
  jobs := h.jobs
  extras := h.extras

/-- A live record enqueued: its job comes behind the others. -/
theorem Progress.enqueue {q : ℕ} {landed queued : List NangoRecord} {extras : List IngestJobData}
    {s : DeliveryStore} {record : NangoRecord} (h : Progress api job s₀ q landed queued extras s)
    (hlive : record.deleted = false) (hpre : queued ++ [record] <+: api.log.drop q) :
    Progress api job s₀ q landed (queued ++ [record]) extras
      { s with ingestJobs := s.ingestJobs ++ [job.ingestJob record] } where
  pos := h.pos
  start_le := h.start_le
  le_length := h.le_length
  cursor := h.cursor
  landedBlock := h.landedBlock
  rows := h.rows
  queuedBlock := hpre
  jobs := by
    rw [jobsOf_append, jobsOf_singleton job hlive]
    have hperm := h.jobs.append_right [job.ingestJob record]
    refine hperm.trans ?_
    -- move the new job in front of the extras
    rw [← List.append_assoc (s₀.ingestJobs ++ _), List.append_assoc, List.append_assoc _ _ extras]
    exact List.Perm.append_left _ List.perm_append_comm
  extras := h.extras

/-- An attempt that fails leaves what it enqueued of its page as extras. -/
private theorem Progress.restart {q : ℕ} {landed queued : List NangoRecord}
    {extras : List IngestJobData} {s : DeliveryStore}
    (h : Progress api job s₀ q landed queued extras s) :
    Progress api job s₀ q [] [] (jobsOf job queued ++ extras) s where
  pos := h.pos
  start_le := h.start_le
  le_length := h.le_length
  cursor := h.cursor
  landedBlock := List.nil_prefix
  rows := by
    -- what was landed of the page is landed again and overwritten with itself
    obtain ⟨base, hrows, htotal⟩ := h.rows
    refine ⟨s.rawRecords, rfl, ?_⟩
    rw [hrows, List.putAll_putAll_of_prefix _ (rowsOf_mono rt job h.landedBlock), htotal]
  queuedBlock := List.nil_prefix
  jobs := by
    have hnil : jobsOf job [] = [] := rfl
    rw [hnil, List.append_nil, ← List.append_assoc]
    exact h.jobs
  extras := by
    intro j hj
    cases List.mem_append.mp hj with
    | inl hj =>
      -- the page lies behind the start
      have hdrop : api.log.drop q <:+ api.log.drop (storedPos api job s₀) := by
        have hq : q = storedPos api job s₀ + (q - storedPos api job s₀) := by
          have := h.start_le
          omega
        rw [hq, ← List.drop_drop]
        exact List.drop_suffix _ _
      unfold jobsOf liveOf at hj ⊢
      exact ((h.queuedBlock.sublist.trans hdrop.sublist).filter _).map _ |>.subset hj
    | inr hj => exact h.extras j hj

/-- The page of a run, as a block of the log. -/
theorem PageAt.block {vars : ReconcileVars} {page : Page} (h : PageAt api vars page) :
    page.records <+: api.log.drop (posOf api.pos vars.pageCursor) := by
  rw [h.records]
  exact List.take_prefix _ _

/-- The record loop goes on to the next live record, or to the checkpoint, with all that is
    before it done. -/
private theorem turn_at {vars : ReconcileVars} {page : Page} {done rest : List NangoRecord}
    {extras : List IngestJobData} {s : DeliveryStore} (hpage : PageAt api vars page)
    (heq : page.records = done ++ rest)
    (h : Progress api job s₀ (posOf api.pos vars.pageCursor) done done extras s) :
    ∃ done', At api job (ReconcileRun.turn job vars page rest) (posOf api.pos vars.pageCursor)
        done' done' ∧
      Progress api job s₀ (posOf api.pos vars.pageCursor) done' done' extras s := by
  obtain ⟨vars', -, hcursor, hcase⟩ := turn_cases job vars page rest
  have hpage' : PageAt api vars' page := by
    constructor
    · rw [hcursor]; exact hpage.records
    · exact hpage.nonempty
    · rw [hcursor]; exact hpage.token
    · rw [hcursor]; exact hpage.last
  rw [← hcursor]
  rw [← hcursor] at h
  rcases hcase with ⟨hall, hturn⟩ | ⟨dead, record, rest', rfl, hdead, hlive, hturn⟩
  · have hskip := h.skip hall (heq ▸ hpage'.block)
    rw [← heq] at hskip
    rw [hturn]
    exact ⟨page.records, .checkpoint hpage', hskip⟩
  · -- the tombstones before the record count as done
    have heq' : page.records = (done ++ dead) ++ record :: rest' := by
      rw [heq, List.append_assoc]
    have hpre : done ++ dead <+: api.log.drop (posOf api.pos vars'.pageCursor) := by
      have hblock := hpage'.block
      rw [heq'] at hblock
      exact (List.prefix_append _ _).trans hblock
    rw [hturn]
    exact ⟨done ++ dead, .land hpage' heq' hlive, h.skip hdead hpre⟩

/-- A page checkpointed: the store has come to the page's end. -/
theorem Progress.checkpoint {vars : ReconcileVars} {page : Page} {extras : List IngestJobData}
    {s : DeliveryStore} (hpage : PageAt api vars page)
    (h : Progress api job s₀ (posOf api.pos vars.pageCursor) page.records page.records extras s) :
    Progress api job s₀ (posOf api.pos vars.pageCursor + page.records.length) [] [] extras
      { s with syncStates :=
          job.storeCursor (ReconcileRun.checkpointCursor vars page) s.syncStates } := by
  obtain ⟨record, c, hlast, hc, hidx, hpos⟩ := api.isLog.block_end hpage.nonempty hpage.block
  have hcursor := checkpointCursor_of_getLast? vars hlast hc
  have hlen := hpage.block.length_le
  rw [List.length_drop] at hlen
  have hpos0 : 0 < page.records.length := List.length_pos_of_ne_nil hpage.nonempty
  -- what follows the page boundary, seen from the boundary before
  have hdrop : api.log.drop (posOf api.pos vars.pageCursor) = page.records ++
      api.log.drop (posOf api.pos vars.pageCursor + page.records.length) := by
    obtain ⟨more, hmore⟩ := hpage.block
    rw [← List.drop_drop, ← hmore, List.drop_left]
  have hstart := h.start_le
  rw [hcursor]
  constructor
  · show posOf api.pos (cursorAt job.key (job.storeCursor (some c) s.syncStates)) = _
    rw [cursorAt_storeCursor]
    exact hpos
  · omega
  · omega
  · intro _
    show cursorAt job.key (job.storeCursor (some c) s.syncStates) = _
    rw [cursorAt_storeCursor, hidx, Option.bind_some, hc]
  · exact List.nil_prefix
  · obtain ⟨base, hrows, htotal⟩ := h.rows
    refine ⟨s.rawRecords, rfl, ?_⟩
    rw [hrows, ← List.putAll_append, ← rowsOf_append, ← hdrop, htotal]
  · exact List.nil_prefix
  · have htake : (api.log.drop (storedPos api job s₀)).take
        (posOf api.pos vars.pageCursor + page.records.length - storedPos api job s₀) =
        (api.log.drop (storedPos api job s₀)).take
          (posOf api.pos vars.pageCursor - storedPos api job s₀) ++ page.records := by
      have hsplit : posOf api.pos vars.pageCursor + page.records.length - storedPos api job s₀ =
          (posOf api.pos vars.pageCursor - storedPos api job s₀) + page.records.length := by omega
      have hq : storedPos api job s₀ + (posOf api.pos vars.pageCursor - storedPos api job s₀) =
          posOf api.pos vars.pageCursor := by omega
      rw [hsplit, List.take_add, List.drop_drop, hq, hdrop, List.take_left]
    have hnil : jobsOf job [] = [] := rfl
    rw [htake, jobsOf_append, hnil, List.append_nil, ← List.append_assoc]
    exact h.jobs
  · exact h.extras

/-- Behind a checkpoint an attempt ends, at the end of the log, or fetches on at the page's
    end. -/
private theorem checkpoint_at {vars : ReconcileVars} {page : Page} (hpage : PageAt api vars page)
    (hle : posOf api.pos vars.pageCursor + page.records.length ≤ api.log.length)
    (s : DeliveryStore) :
    At api job ((ReconcileRun.checkpoint job vars page).next rt api.listRecords s).1
      (posOf api.pos vars.pageCursor + page.records.length) [] [] := by
  have hlen : page.records.length =
      min api.block (api.log.length - posOf api.pos vars.pageCursor) := by
    rw [hpage.records, List.length_take, List.length_drop]
  have hpos0 : 0 < page.records.length := List.length_pos_of_ne_nil hpage.nonempty
  simp only [ReconcileRun.next]
  cases htoken : page.nextCursor with
  | none =>
    -- the log ends with this page
    have hlast := hpage.last.mp htoken
    have hq : posOf api.pos vars.pageCursor + page.records.length = api.log.length := by omega
    rw [hq]
    exact .finished
  | some t =>
    obtain ⟨hne, hpos⟩ := hpage.token t htoken
    have hmore : ¬ api.log.length ≤ posOf api.pos vars.pageCursor + api.block := by
      rw [← hpage.last, htoken]
      exact Option.some_ne_none t
    -- the token stands for a position further on, so it advances
    have hadvance : some t ≠ vars.pageCursor := by
      intro heq
      have hsame : api.pos t = posOf api.pos vars.pageCursor := by
        rw [← heq]
        rfl
      have := api.block_pos
      omega
    have hq : posOf api.pos vars.pageCursor + page.records.length = posOf api.pos (some t) := by
      show _ = api.pos t
      omega
    simp only [hne, hadvance, or_self, if_false]
    rw [hq]
    exact .fetch

/-- **One call of an attempt** moves the progress along; the extras stay. -/
theorem next_progress {run : ReconcileRun} {q : ℕ} {landed queued : List NangoRecord}
    {extras : List IngestJobData} {s : DeliveryStore} (hat : At api job run q landed queued)
    (h : Progress api job s₀ q landed queued extras s) :
    ∃ q' landed' queued', At api job (run.next rt api.listRecords s).1 q' landed' queued' ∧
      Progress api job s₀ q' landed' queued' extras (run.next rt api.listRecords s).2 := by
  cases hat with
  | load =>
    -- the cursor it resumes from is the stored one
    have hpos := h.pos
    refine ⟨q, [], [], ?_, h⟩
    rw [← hpos]
    exact .fetch
  | @fetch vars =>
    simp only [ReconcileRun.next]
    have hrecords := api.records_eq (job.listParams vars.pageCursor)
    have hparams : (job.listParams vars.pageCursor).cursor = vars.pageCursor := rfl
    rw [hparams] at hrecords
    split
    · next hempty =>
      -- nothing follows the cursor
      rw [List.isEmpty_iff, hrecords, List.take_eq_nil_iff, List.drop_eq_nil_iff] at hempty
      have hblock := api.block_pos
      have hle := h.le_length
      have hq : posOf api.pos vars.pageCursor = api.log.length := by omega
      rw [hq] at h
      exact ⟨api.log.length, [], [], .finished, h⟩
    · next hne =>
      have hpage : PageAt api vars (api.listRecords (job.listParams vars.pageCursor)) :=
        ⟨hrecords, fun hnil => hne (by rw [hnil]; rfl), api.token _, api.last _⟩
      obtain ⟨done, hat, hprog⟩ := turn_at hpage rfl h
      exact ⟨_, done, done, hat, hprog⟩
  | @land vars page record _ rest hpage heq hlive =>
    have hmem : record ∈ api.log := by
      have hin : record ∈ page.records := by
        rw [heq]
        exact List.mem_append_right _ List.mem_cons_self
      exact (List.drop_suffix _ _).subset (hpage.block.subset hin)
    -- the id prints, so landing does not throw
    obtain ⟨id, hid⟩ := api.printable record hmem
    obtain ⟨row, hrow⟩ : ∃ row, rawRow rt (job.stamp record) job.rawContext = .ok row := by
      apply rawRow_of_printable
      rw [ReconcileJobData.stamp, nangoRecordId_stamped]
      exact hid
    simp only [ReconcileRun.next, landRawRecord, hrow]
    refine ⟨_, landed ++ [record], landed, .enqueue hpage heq hlive, ?_⟩
    have hpre : landed ++ [record] <+: api.log.drop (posOf api.pos vars.pageCursor) := by
      have hblock := hpage.block
      rw [heq, ← List.singleton_append, ← List.append_assoc] at hblock
      exact (List.prefix_append _ _).trans hblock
    exact h.land hlive hrow hpre
  | @enqueue vars page record _ rest hpage heq hlive =>
    simp only [ReconcileRun.next]
    have heq' : page.records = (queued ++ [record]) ++ rest := by
      rw [heq, List.append_assoc, List.singleton_append]
    have hjobs := h.enqueue hlive h.landedBlock
    have hpage' : PageAt api { vars with enqueued := vars.enqueued + 1 } page :=
      ⟨hpage.records, hpage.nonempty, hpage.token, hpage.last⟩
    obtain ⟨done', hat, hprog⟩ := turn_at hpage' heq' hjobs
    exact ⟨_, done', done', hat, hprog⟩
  | @checkpoint vars page hpage =>
    have hprog := h.checkpoint hpage
    refine ⟨_, [], [], checkpoint_at hpage hprog.le_length s, ?_⟩
    -- whichever way it goes on, the cursor is stored
    rw [ReconcileRun.next_checkpoint_snd]
    exact hprog
  | finished => exact ⟨_, [], [], .finished, h⟩

/-! ## Attempts -/

/-- What is left of an attempt: at most four calls a record. -/
def work (api : LogApi rt) : ReconcileRun → ℕ
  | .load _ => 4 * api.log.length + 3
  | .fetch _ vars => 4 * (api.log.length - posOf api.pos vars.pageCursor) + 2
  | .land _ vars page _ rest =>
    4 * (api.log.length - (posOf api.pos vars.pageCursor + page.records.length)) +
      2 * rest.length + 5
  | .enqueue _ vars page _ rest =>
    4 * (api.log.length - (posOf api.pos vars.pageCursor + page.records.length)) +
      2 * rest.length + 4
  | .checkpoint _ vars page =>
    4 * (api.log.length - (posOf api.pos vars.pageCursor + page.records.length)) + 3
  | .finished _ => 0

/-- The record loop lowers the work. -/
private theorem work_turn (vars : ReconcileVars) (page : Page) (rest : List NangoRecord) :
    work api (ReconcileRun.turn job vars page rest) <
      4 * (api.log.length - (posOf api.pos vars.pageCursor + page.records.length)) +
        2 * rest.length + 4 := by
  obtain ⟨vars', -, hcursor, hcase⟩ := turn_cases job vars page rest
  rw [← hcursor]
  rcases hcase with ⟨-, hturn⟩ | ⟨dead, record, rest', rfl, -, -, hturn⟩
  · rw [hturn]
    show 4 * (api.log.length - (posOf api.pos vars'.pageCursor + page.records.length)) + 3 < _
    omega
  · rw [hturn, List.length_append, List.length_cons]
    show 4 * (api.log.length - (posOf api.pos vars'.pageCursor + page.records.length)) +
      2 * rest'.length + 5 < _
    omega

/-- **Every call of an attempt** leaves less work. -/
theorem work_lt {run : ReconcileRun} {q : ℕ} {landed queued : List NangoRecord}
    (hat : At api job run q landed queued) (hrun : run.isFinished = false) (s : DeliveryStore) :
    work api (run.next rt api.listRecords s).1 < work api run := by
  cases hat with
  | load =>
    show 4 * (api.log.length - posOf api.pos (job.storedCursor s.syncStates)) + 2 <
      4 * api.log.length + 3
    omega
  | @fetch vars =>
    have hrecords := api.records_eq (job.listParams vars.pageCursor)
    have hparams : (job.listParams vars.pageCursor).cursor = vars.pageCursor := rfl
    rw [hparams] at hrecords
    simp only [ReconcileRun.next]
    split
    · show 0 < 4 * (api.log.length - posOf api.pos vars.pageCursor) + 2
      omega
    · next hne =>
      -- the page is not empty and lies within the log
      have hlen := congrArg List.length hrecords
      rw [List.length_take, List.length_drop] at hlen
      have hpos : 0 < (api.listRecords (job.listParams vars.pageCursor)).records.length :=
        List.length_pos_of_ne_nil fun hnil => hne (by rw [hnil]; rfl)
      have hturn := @work_turn rt api job vars (api.listRecords (job.listParams vars.pageCursor))
        (api.listRecords (job.listParams vars.pageCursor)).records
      refine Nat.lt_of_lt_of_le hturn ?_
      show _ ≤ 4 * (api.log.length - posOf api.pos vars.pageCursor) + 2
      omega
  | @land vars page record _ rest hpage heq hlive =>
    simp only [ReconcileRun.next]
    cases landRawRecord rt (job.stamp record) job.rawContext s.rawRecords with
    | error err => exact Nat.succ_pos _
    | ok rawRecords => exact Nat.lt_succ_self _
  | @enqueue vars page record _ rest hpage heq hlive =>
    exact @work_turn rt api job { vars with enqueued := vars.enqueued + 1 } page rest
  | @checkpoint vars page hpage =>
    have hlen := hpage.block.length_le
    rw [List.length_drop] at hlen
    have hrecords := congrArg List.length hpage.records
    rw [List.length_take, List.length_drop] at hrecords
    simp only [ReconcileRun.next]
    cases htoken : page.nextCursor with
    | none => exact Nat.succ_pos _
    | some t =>
      simp only
      split
      · exact Nat.succ_pos _
      · obtain ⟨-, hpos⟩ := hpage.token t htoken
        show 4 * (api.log.length - api.pos t) + 2 < 4 * (api.log.length - (posOf api.pos
          vars.pageCursor + page.records.length)) + 3
        omega
  | finished => cases hrun

/-- A run that progress has been made with. -/
def Going (api : LogApi rt) (job : ReconcileJobData) (s₀ : DeliveryStore)
    (extras : List IngestJobData) (st : ReconcileRun × DeliveryStore) : Prop :=
  ∃ q landed queued, At api job st.1 q landed queued ∧
    Progress api job s₀ q landed queued extras st.2

/-- **A run of calls** keeps the progress. -/
private theorem attempt_going {q : ℕ} {extras : List IngestJobData} {s : DeliveryStore}
    (h : Progress api job s₀ q [] [] extras s) (n : ℕ) :
    Going api job s₀ extras (attempt api job n s) := by
  unfold attempt
  refine Function.Iterate.rec (Going api job s₀ extras) ⟨q, [], [], .load, h⟩ (fun st hst => ?_) n
  obtain ⟨q, landed, queued, hat, hprog⟩ := hst
  exact next_progress hat hprog

/-- What an attempt has enqueued of its page was in flight. -/
private theorem At.queued_le {run : ReconcileRun} {q : ℕ} {landed queued : List NangoRecord}
    (hat : At api job run q landed queued) : (jobsOf job queued).length ≤ run.inFlight := by
  rw [length_jobsOf]
  cases hat with
  | load => exact Nat.zero_le _
  | fetch => exact Nat.zero_le _
  | land hpage heq hlive =>
    show _ ≤ (liveOf _).length
    rw [heq, liveOf_append, List.length_append]
    omega
  | enqueue hpage heq hlive =>
    show _ ≤ (liveOf _).length
    rw [heq, liveOf_append, List.length_append]
    omega
  | checkpoint hpage => exact Nat.le_refl _
  | finished => exact Nat.zero_le _

/-- **What failed attempts leave behind**: progress, with no more extras than they had in
    flight. -/
theorem progress_of_crashes {s s' : DeliveryStore} {inFlight : List ℕ}
    (h : Crashes api job s inFlight s') {q : ℕ} {extras : List IngestJobData}
    (hprog : Progress api job s₀ q [] [] extras s) :
    ∃ q' extras', Progress api job s₀ q' [] [] extras' s' ∧
      extras'.length ≤ extras.length + inFlight.sum := by
  induction h generalizing q extras with
  | none s => exact ⟨q, extras, hprog, Nat.le_add_right _ _⟩
  | @crash s s' s'' run inFlight n hattempt hrun hrest ih =>
    have hgoing := attempt_going hprog n
    rw [hattempt] at hgoing
    -- what it had enqueued of its page is enqueued again by the next attempt
    obtain ⟨q₁, landed, queued, hat, hprog₁⟩ := hgoing
    obtain ⟨q', extras', hprog', hle⟩ := ih hprog₁.restart
    refine ⟨q', extras', hprog', ?_⟩
    have hqueued : (jobsOf job queued).length ≤ run.inFlight := hat.queued_le
    rw [List.length_append] at hle
    rw [List.sum_cons]
    omega

/-- An attempt can be completed from wherever failed attempts have left the store. -/
theorem exists_completes {q : ℕ} {extras : List IngestJobData} {s : DeliveryStore}
    (h : Progress api job s₀ q [] [] extras s) : ∃ s', Completes api job s s' := by
  obtain ⟨n, hgoing, hfinished⟩ := Function.exists_iterate_of_measure
    (f := fun st => st.1.next rt api.listRecords st.2) (I := Going api job s₀ extras)
    (P := fun st => st.1.isFinished = true) (fun st => work api st.1)
    (fun st hst hrun => by
      obtain ⟨q, landed, queued, hat, hprog⟩ := hst
      rw [Bool.not_eq_true] at hrun
      exact ⟨next_progress hat hprog, work_lt hat hrun st.2⟩)
    (x := (.load job, s)) ⟨q, [], [], .load, h⟩
  obtain ⟨q', landed, queued, hat, -⟩ := hgoing
  refine ⟨(attempt api job n s).2, n, ?_⟩
  -- of the positions of a run only the last is finished
  unfold attempt
  generalize (fun st : ReconcileRun × DeliveryStore => st.1.next rt api.listRecords st.2)^[n]
    (.load job, s) = st at hat hfinished
  obtain ⟨run, s'⟩ := st
  cases hat with
  | finished => exact ⟨_, rfl⟩
  | _ => exact nomatch hfinished

/-- A completed attempt has come to the end of the log. -/
theorem Completes.progress {q : ℕ} {extras : List IngestJobData} {s s' : DeliveryStore}
    (h : Completes api job s s') (hprog : Progress api job s₀ q [] [] extras s) :
    Progress api job s₀ api.log.length [] [] extras s' := by
  obtain ⟨n, result, hattempt⟩ := h
  have hgoing := attempt_going hprog n
  rw [hattempt] at hgoing
  obtain ⟨q', landed, queued, hat, hprog'⟩ := hgoing
  cases hat with
  | finished => exact hprog'

/-- At the end of the log the raw rows are those of all that followed the start. -/
theorem Progress.rows_end {extras : List IngestJobData} {s : DeliveryStore}
    (h : Progress api job s₀ api.log.length [] [] extras s) :
    s.rawRecords = List.putAll RawRecord.key
      (rowsOf rt job (api.log.drop (storedPos api job s₀))) s₀.rawRecords := by
  obtain ⟨base, hrows, htotal⟩ := h.rows
  rw [List.drop_length] at htotal
  exact hrows.trans htotal

/-- At the end of the log the jobs are those of all that followed the start, and the
    extras. -/
theorem Progress.jobs_end {extras : List IngestJobData} {s : DeliveryStore}
    (h : Progress api job s₀ api.log.length [] [] extras s) :
    s.ingestJobs.Perm (s₀.ingestJobs ++
      jobsOf job (api.log.drop (storedPos api job s₀)) ++ extras) := by
  have hjobs := h.jobs
  have hnil : jobsOf job [] = [] := rfl
  rw [hnil, List.append_nil, List.take_of_length_le (by rw [List.length_drop])] at hjobs
  exact hjobs

/-- The extras are copies of jobs that are enqueued anyway. -/
private theorem Progress.mem_jobs {extras : List IngestJobData} {s : DeliveryStore}
    (h : Progress api job s₀ api.log.length [] [] extras s) (j : IngestJobData) :
    j ∈ s.ingestJobs ↔
      j ∈ s₀.ingestJobs ∨ j ∈ jobsOf job (api.log.drop (storedPos api job s₀)) := by
  rw [h.jobs_end.mem_iff, List.mem_append, List.mem_append]
  constructor
  · intro hj
    cases hj with
    | inl hj => exact hj
    | inr hj => exact Or.inr (h.extras j hj)
  · exact Or.inl

end Progress

/-- **Crash and resume.** Over a fixed log with a record after the stored cursor: after any
    failed attempts, one that does not fail ends with the cursor, the raw rows and the
    enqueued records of a single attempt, and has enqueued at most the live records of the
    pages that were in flight once more. Both end at the end of the log, the single attempt
    with each live record behind the stored cursor landed and enqueued once. -/
theorem reconcile_resume {rt : Runtime} (api : LogApi rt) (job : ReconcileJobData)
    (s₀ s : DeliveryStore) (inFlight : List ℕ) (hstart : storedPos api job s₀ < api.log.length)
    (h : Crashes api job s₀ inFlight s) :
    (∃ s₁, Completes api job s s₁) ∧ (∃ s₂, Completes api job s₀ s₂) ∧
      ∀ s₁ s₂, Completes api job s s₁ → Completes api job s₀ s₂ →
        cursorAt job.key s₁.syncStates = cursorAt job.key s₂.syncStates ∧
        s₁.rawRecords = s₂.rawRecords ∧
        (∀ j, j ∈ s₁.ingestJobs ↔ j ∈ s₂.ingestJobs) ∧
        s₁.ingestJobs.length ≤ s₂.ingestJobs.length + inFlight.sum ∧
        storedPos api job s₁ = api.log.length ∧
        s₂.rawRecords = List.putAll RawRecord.key
          (rowsOf rt job (api.log.drop (storedPos api job s₀))) s₀.rawRecords ∧
        s₂.ingestJobs.Perm (s₀.ingestJobs ++
          jobsOf job (api.log.drop (storedPos api job s₀))) := by
  have hprog₀ : Progress api job s₀ (storedPos api job s₀) [] [] [] s₀ :=
    progress_start (Nat.le_of_lt hstart)
  obtain ⟨q, extras, hprog, hle⟩ := progress_of_crashes h hprog₀
  refine ⟨exists_completes hprog, exists_completes hprog₀, fun s₁ s₂ h₁ h₂ => ?_⟩
  -- both attempts end at the end of the log, with progress from the same start
  have hend₁ := h₁.progress hprog
  have hend₂ := h₂.progress hprog₀
  have hjobs₂ := hend₂.jobs_end
  rw [List.append_nil] at hjobs₂
  refine ⟨?_, ?_, fun j => ?_, ?_, hend₁.pos, hend₂.rows_end, hjobs₂⟩
  · rw [hend₁.cursor hstart, hend₂.cursor hstart]
  · rw [hend₁.rows_end, hend₂.rows_end]
  · rw [hend₁.mem_jobs, hend₂.mem_jobs]
  · rw [hend₁.jobs_end.length_eq, hjobs₂.length_eq, List.length_append]
    rw [List.length_nil] at hle
    omega

/-! ## A log of two pages -/

/-- A log of two records, one a page. -/
def twoPages : LogApi plainRuntime where
  log := [cursorRecord, laterRecord]
  block := 1
  pos := twoPos
  listRecords := fun params =>
    { records := ([cursorRecord, laterRecord].drop (posOf twoPos params.cursor)).take 1
      nextCursor := if posOf twoPos params.cursor = 0 then some "c1" else none }
  block_pos := by decide
  isLog := isLog_twoPos rfl
  printable := by
    intro record hrecord
    rcases List.mem_cons.mp hrecord with rfl | hrecord
    · exact ⟨"r1", rfl⟩
    · cases List.mem_singleton.mp hrecord
      exact ⟨"r2", rfl⟩
  records_eq := fun _ => rfl
  token := by
    intro params t ht
    simp only at ht
    split at ht
    · next hzero =>
      cases ht
      rw [hzero]
      decide
    · exact nomatch ht
  last := by
    intro params
    simp only [List.length_cons, List.length_nil]
    split
    · simp_all
    · next hne =>
      simp only [true_iff]
      omega

/-- An attempt that fails at its second page, with that page's record enqueued. -/
def twoPagesCrashed : DeliveryStore := (attempt twoPages issueReconcile 8 ⟨[], [], []⟩).2

theorem reconcile_resume_twoPages :
    ∃ s₁ s₂, Completes twoPages issueReconcile twoPagesCrashed s₁ ∧
      Completes twoPages issueReconcile ⟨[], [], []⟩ s₂ ∧
      cursorAt issueReconcile.key s₁.syncStates = cursorAt issueReconcile.key s₂.syncStates ∧
      s₁.rawRecords = s₂.rawRecords ∧ s₁.ingestJobs.length ≤ s₂.ingestJobs.length + 1 := by
  have hrun : (attempt twoPages issueReconcile 8 ⟨[], [], []⟩).1.isFinished = false := by
    decide +kernel
  have hcrash : Crashes twoPages issueReconcile ⟨[], [], []⟩ [1] twoPagesCrashed :=
    .crash 8 rfl hrun (.none _)
  obtain ⟨⟨s₁, h₁⟩, ⟨s₂, h₂⟩, hsame⟩ := reconcile_resume twoPages issueReconcile ⟨[], [], []⟩
    twoPagesCrashed [1] (by decide +kernel) hcrash
  obtain ⟨hcursor, hrows, -, hle, -⟩ := hsame s₁ s₂ h₁ h₂
  exact ⟨s₁, s₂, h₁, h₂, hcursor, hrows, hle⟩

end Shiplog
