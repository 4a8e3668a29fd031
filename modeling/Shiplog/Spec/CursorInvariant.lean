import Shiplog.Spec.DeliveryCorrect
import Shiplog.Spec.IngestCorrect

/-!
# The cursor invariant of reconciliation

The records API is a growing log in which every cursor string stands for a position.
Any number of reconcile runs for one (tenant, connection, model) work on it side by side,
and any call of any run may throw. The durable invariant says that everything before the
stored cursor has been delivered; each run carries the same fact about the position it
fetches at, extended record by record through its page.

## Key results

- `turn_safe`: the record loop keeps a run safe
- `reconcilePool_invariant`: every step of every run keeps the invariant
- `reconcile_cursor_invariant`: in every reachable state every live record before the
  stored cursor is landed and enqueued
-/

namespace Shiplog

/-! ## The records API as a log -/

/-- The position a cursor stands for: the start of the log when there is none. -/
def posOf (pos : String → ℕ) : Option String → ℕ
  | none => 0
  | some c => pos c

/-- Every record carries a cursor, which stands for the position behind it. -/
def IsLog (pos : String → ℕ) (log : List NangoRecord) : Prop :=
  ∀ (i : ℕ) (record : NangoRecord), log[i]? = some record →
    ∃ c, record.cursor = some c ∧ pos c = i + 1

/-- The page `listRecords` answers at a cursor: a block of the records behind its position,
    empty only when there are none, and a token for the position behind the block unless
    the log ends there. -/
structure Answers (pos : String → ℕ) (log : List NangoRecord) (cursor : Option String)
    (page : Page) : Prop where
  block : page.records <+: log.drop (posOf pos cursor)
  nonempty : log.drop (posOf pos cursor) ≠ [] → page.records ≠ []
  token : ∀ t, page.nextCursor = some t → pos t = posOf pos cursor + page.records.length
  last : page.nextCursor = none ↔ log.length ≤ posOf pos cursor + page.records.length

/-- The shared state of the runs: the store and the log behind the API. -/
abbrev LogStore := DeliveryStore × List NangoRecord

/-- Runs of reconcile jobs with one `sync_state` key. Each call of a run is answered, or
    throws and ends the run; the log grows and runs start at any time. -/
def reconcilePool (rt : Runtime) (pos : String → ℕ) (key : ObjectId × ObjectId × String) :
    Pool ReconcileRun LogStore where
  step run s run' s' new :=
    new = [] ∧ s'.2 = s.2 ∧ run.isFinished = false ∧
      ((∃ nango : NangoListParams → Page,
          (∀ params, Answers pos s.2 params.cursor (nango params)) ∧
          run.next rt nango s.1 = (run', s'.1)) ∨
        run' = .finished none ∧ s'.1 = s.1)
  env s s' new :=
    s'.1 = s.1 ∧
      ((∃ more, s'.2 = s.2 ++ more) ∧ IsLog pos s'.2 ∧ new = [] ∨
        s'.2 = s.2 ∧ ∃ job : ReconcileJobData, job.key = key ∧ new = [.load job])

/-! ## The invariant -/

section Invariant

variable (rt : Runtime) (pos : String → ℕ) (key : ObjectId × ObjectId × String)

/-- Every live record of the log before position `n` has been delivered. -/
def DeliveredTo (s : LogStore) (n : ℕ) : Prop :=
  n ≤ s.2.length ∧ ∀ (i : ℕ) (record : NangoRecord), s.2[i]? = some record → i < n →
    record.deleted = false → Delivered rt key s.1 record

/-- The durable invariant: the API is a log, and what lies before the stored cursor has
    been delivered. -/
structure CursorSafe (s : LogStore) : Prop where
  isLog : IsLog pos s.2
  delivered : DeliveredTo rt key s (posOf pos (cursorAt key s.1.syncStates))

/-- A run works on a page of the log, of which it has delivered the live records of
    `done`. -/
structure InPage (s : LogStore) (vars : ReconcileVars) (page : Page)
    (done : List NangoRecord) : Prop where
  before : DeliveredTo rt key s (posOf pos vars.pageCursor)
  block : page.records <+: s.2.drop (posOf pos vars.pageCursor)
  nonempty : page.records ≠ []
  token : ∀ t, page.nextCursor = some t →
    pos t = posOf pos vars.pageCursor + page.records.length
  done : ∀ record ∈ done, record.deleted = false → Delivered rt key s.1 record

/-- What holds of a run between two of its calls. -/
def RunSafe (s : LogStore) : ReconcileRun → Prop
  | .load job => job.key = key
  | .fetch job vars => job.key = key ∧ DeliveredTo rt key s (posOf pos vars.pageCursor)
  | .land job vars page record rest => job.key = key ∧
      ∃ done, page.records = done ++ record :: rest ∧ InPage rt pos key s vars page done
  | .enqueue job vars page record rest => job.key = key ∧
      ∃ done, page.records = done ++ record :: rest ∧ InPage rt pos key s vars page done ∧
        ∃ row ∈ s.1.rawRecords, row.tenantId = key.1 ∧ row.connectionId = some key.2.1 ∧
          nangoRecordId rt record = .ok row.nangoRecordId
  | .checkpoint job vars page => job.key = key ∧ InPage rt pos key s vars page page.records
  | .finished _ => True

variable {rt pos key}

/-! ## Growing stores and logs -/

/-- One state follows another: its store has grown and its log has been extended. -/
def Follows (s s' : LogStore) : Prop := s.1.Grows s'.1 ∧ s.2 <+: s'.2

theorem DeliveredTo.mono {s s' : LogStore} (h : Follows s s') {n : ℕ}
    (hn : DeliveredTo rt key s n) : DeliveredTo rt key s' n := by
  obtain ⟨more, hmore⟩ := h.2
  refine ⟨hn.1.trans h.2.length_le, fun i record hi hlt hlive => ?_⟩
  have hlt' : i < s.2.length := lt_of_lt_of_le hlt hn.1
  rw [← hmore, List.getElem?_append_left hlt'] at hi
  exact (hn.2 i record hi hlt hlive).mono h.1

theorem InPage.mono {s s' : LogStore} (h : Follows s s') {vars : ReconcileVars} {page : Page}
    {done : List NangoRecord} (hp : InPage rt pos key s vars page done) :
    InPage rt pos key s' vars page done where
  before := hp.before.mono h
  block := by
    obtain ⟨more, hmore⟩ := h.2
    rw [← hmore, List.drop_append_of_le_length hp.before.1]
    exact hp.block.trans (List.prefix_append _ _)
  nonempty := hp.nonempty
  token := hp.token
  done := fun record hr hlive => (hp.done record hr hlive).mono h.1

/-- Other runs' steps and the growth of the log leave a run safe. -/
theorem RunSafe.mono {s s' : LogStore} (h : Follows s s') {run : ReconcileRun}
    (hr : RunSafe rt pos key s run) : RunSafe rt pos key s' run := by
  cases run with
  | load job => exact hr
  | fetch job vars => exact ⟨hr.1, hr.2.mono h⟩
  | land job vars page record rest =>
    obtain ⟨hkey, done, heq, hp⟩ := hr
    exact ⟨hkey, done, heq, hp.mono h⟩
  | enqueue job vars page record rest =>
    obtain ⟨hkey, done, heq, hp, row, hrow, ht, hc, hid⟩ := hr
    obtain ⟨row', hrow', hk⟩ := h.1.rows row hrow
    simp only [RawRecord.key, Prod.mk.injEq] at hk
    exact ⟨hkey, done, heq, hp.mono h, row', hrow', hk.1.trans ht, hk.2.1.trans hc,
      by rw [hk.2.2, hid]⟩
  | checkpoint job vars page => exact ⟨hr.1, hr.2.mono h⟩
  | finished result => exact trivial

/-! ## Pages -/

/-- With its whole page delivered, a run has delivered the log up to the page's end. -/
private theorem InPage.delivered_page {s : LogStore} {vars : ReconcileVars} {page : Page}
    (h : InPage rt pos key s vars page page.records) :
    DeliveredTo rt key s (posOf pos vars.pageCursor + page.records.length) := by
  have hlen := h.block.length_le
  rw [List.length_drop] at hlen
  have hpos : 0 < page.records.length := List.length_pos_of_ne_nil h.nonempty
  refine ⟨by omega, fun i record hi hlt hlive => ?_⟩
  by_cases hbefore : i < posOf pos vars.pageCursor
  · exact h.before.2 i record hi hbefore hlive
  · -- an index inside the page
    have hidx : page.records[i - posOf pos vars.pageCursor]? = some record := by
      obtain ⟨more, hmore⟩ := h.block
      have hget : (s.2.drop (posOf pos vars.pageCursor))[i - posOf pos vars.pageCursor]? =
          some record := by
        rw [List.getElem?_drop, ← hi]
        congr 1
        omega
      rw [← hmore, List.getElem?_append_left (by omega)] at hget
      exact hget
    exact h.done record (List.mem_of_getElem? hidx) hlive

/-- The last record of a block of the log carries a cursor, which stands for the block's end. -/
theorem IsLog.block_end {log records : List NangoRecord} (hlog : IsLog pos log) {q : ℕ}
    (hne : records ≠ []) (hblock : records <+: log.drop q) :
    ∃ record c, records.getLast? = some record ∧ record.cursor = some c ∧
      log[q + records.length - 1]? = some record ∧ pos c = q + records.length := by
  have hlen : 0 < records.length := List.length_pos_of_ne_nil hne
  obtain ⟨more, hmore⟩ := hblock
  obtain ⟨record, hlast⟩ : ∃ record, records.getLast? = some record :=
    ⟨_, List.getLast?_eq_some_getLast hne⟩
  have hidx : log[q + (records.length - 1)]? = some record := by
    rw [← List.getElem?_drop, ← hmore, List.getElem?_append_left (by omega),
      ← List.getLast?_eq_getElem?, hlast]
  obtain ⟨c, hc, hpos⟩ := hlog _ _ hidx
  have hpred : q + records.length - 1 = q + (records.length - 1) := by omega
  exact ⟨record, c, hlast, hc, by rw [hpred, hidx], by omega⟩

/-- A page is checkpointed at the cursor of its last record. -/
theorem checkpointCursor_of_getLast? (vars : ReconcileVars) {page : Page} {record : NangoRecord}
    {c : String} (hlast : page.records.getLast? = some record) (hc : record.cursor = some c) :
    ReconcileRun.checkpointCursor vars page = some c := by
  simp only [ReconcileRun.checkpointCursor, hlast, Option.bind_some, hc, Option.some_or]

/-- The checkpoint of a run's page stands for the page's end. -/
private theorem InPage.checkpoint_pos {s : LogStore} (hlog : IsLog pos s.2) {vars : ReconcileVars}
    {page : Page} {done : List NangoRecord} (h : InPage rt pos key s vars page done) :
    ∃ c, ReconcileRun.checkpointCursor vars page = some c ∧
      pos c = posOf pos vars.pageCursor + page.records.length := by
  obtain ⟨record, c, hlast, hc, -, hpos⟩ := hlog.block_end h.nonempty h.block
  exact ⟨c, checkpointCursor_of_getLast? vars hlast hc, hpos⟩

/-- The record loop keeps a run safe. -/
theorem turn_safe {s : LogStore} {job : ReconcileJobData} {vars : ReconcileVars} {page : Page}
    {done rest : List NangoRecord} (hkey : job.key = key) (hpage : page.records = done ++ rest)
    (h : InPage rt pos key s vars page done) :
    RunSafe rt pos key s (ReconcileRun.turn job vars page rest) := by
  obtain ⟨vars', -, hcursor, hcase⟩ := turn_cases job vars page rest
  have hvars : ∀ done', (∀ r ∈ done', r.deleted = false → Delivered rt key s.1 r) →
      InPage rt pos key s vars' page done' := by
    intro done' hdone
    constructor
    · rw [hcursor]; exact h.before
    · rw [hcursor]; exact h.block
    · exact h.nonempty
    · rw [hcursor]; exact h.token
    · exact hdone
  -- tombstones are skipped, and count as delivered
  have hskip : ∀ dead, (∀ r ∈ dead, r.deleted = true) →
      ∀ r ∈ done ++ dead, r.deleted = false → Delivered rt key s.1 r := by
    intro dead hdead r hr hlive
    cases List.mem_append.mp hr with
    | inl hr => exact h.done r hr hlive
    | inr hr =>
      rw [hdead r hr] at hlive
      exact nomatch hlive
  rcases hcase with ⟨hall, hturn⟩ | ⟨dead, record, rest', rfl, hdead, -, hturn⟩
  · rw [hturn]
    refine ⟨hkey, hvars _ ?_⟩
    rw [hpage]
    exact hskip rest hall
  · rw [hturn]
    exact ⟨hkey, done ++ dead, by rw [hpage, List.append_assoc], hvars _ (hskip dead hdead)⟩

/-! ## One step -/

/-- Storing a cursor up to which everything is delivered keeps the durable invariant. -/
theorem CursorSafe.store {s : LogStore} {job : ReconcileJobData} {c : String}
    (hI : CursorSafe rt pos job.key s) (h : DeliveredTo rt job.key s (pos c)) :
    CursorSafe rt pos job.key
      ({ s.1 with syncStates := job.storeCursor (some c) s.1.syncStates }, s.2) where
  isLog := hI.isLog
  delivered := by
    have hfollows : Follows s
        ({ s.1 with syncStates := job.storeCursor (some c) s.1.syncStates }, s.2) :=
      ⟨s.1.grows_store _, List.prefix_refl _⟩
    show DeliveredTo rt job.key _ (posOf pos (cursorAt job.key (job.storeCursor (some c) _)))
    rw [cursorAt_storeCursor]
    exact h.mono hfollows

/-- What an answered call does: the run stays safe, the store grows, and the durable
    invariant holds of it. -/
theorem next_safe {nango : NangoListParams → Page} {run : ReconcileRun} {s : LogStore}
    (hnango : ∀ params, Answers pos s.2 params.cursor (nango params))
    (hI : CursorSafe rt pos key s) (hL : RunSafe rt pos key s run) :
    CursorSafe rt pos key ((run.next rt nango s.1).2, s.2) ∧
      RunSafe rt pos key ((run.next rt nango s.1).2, s.2) (run.next rt nango s.1).1 ∧
      s.1.Grows (run.next rt nango s.1).2 := by
  cases run with
  | load job =>
    -- the cursor read is the durable one
    have hkey : job.key = key := hL
    subst hkey
    exact ⟨hI, ⟨rfl, hI.delivered⟩, .refl _⟩
  | fetch job vars =>
    obtain ⟨hkey, hbefore⟩ := hL
    have hans := hnango (job.listParams vars.pageCursor)
    simp only [ReconcileRun.next]
    split
    · -- an empty page ends the run
      exact ⟨hI, trivial, .refl _⟩
    · next hne =>
      -- of a fresh page nothing has been delivered yet
      have hpage : InPage rt pos key s vars (nango (job.listParams vars.pageCursor)) [] :=
        ⟨hbefore, hans.block, fun hnil => hne (by rw [hnil]; rfl), hans.token,
          fun r hr => absurd hr List.not_mem_nil⟩
      exact ⟨hI, turn_safe hkey rfl hpage, .refl _⟩
  | land job vars page record rest =>
    obtain ⟨hkey, done, heq, hp⟩ := hL
    simp only [ReconcileRun.next]
    cases hland : landRawRecord rt (job.stamp record) job.rawContext s.1.rawRecords with
    | error err => exact ⟨hI, trivial, .refl _⟩
    | ok rawRecords =>
      obtain ⟨row, hrow, rfl⟩ := landRawRecord_ok hland
      obtain ⟨ht, hc, hid⟩ := rawRow_ok hrow
      have hgrows := s.1.grows_put row
      have hfollows : Follows s
          ({ s.1 with rawRecords := s.1.rawRecords.put RawRecord.key row }, s.2) :=
        ⟨hgrows, List.prefix_refl _⟩
      subst hkey
      rw [ReconcileJobData.stamp, nangoRecordId_stamped] at hid
      exact ⟨⟨hI.isLog, hI.delivered.mono hfollows⟩,
        ⟨rfl, done, heq, hp.mono hfollows, row, List.mem_put_self _ _ _, ht, hc, hid⟩, hgrows⟩
  | enqueue job vars page record rest =>
    obtain ⟨hkey, done, heq, hp, hrow⟩ := hL
    have hgrows := s.1.grows_enqueue (job.ingestJob record)
    have hfollows : Follows s
        ({ s.1 with ingestJobs := s.1.ingestJobs ++ [job.ingestJob record] }, s.2) :=
      ⟨hgrows, List.prefix_refl _⟩
    subst hkey
    simp only [ReconcileRun.next]
    refine ⟨⟨hI.isLog, hI.delivered.mono hfollows⟩, ?_, hgrows⟩
    -- the record is landed and now enqueued
    have hdelivered : Delivered rt job.key
        { s.1 with ingestJobs := s.1.ingestJobs ++ [job.ingestJob record] } record :=
      ⟨hrow, job.ingestJob record, List.mem_concat_self, rfl, rfl, rfl⟩
    have hpage : page.records = (done ++ [record]) ++ rest := by
      rw [heq, List.append_assoc, List.singleton_append]
    have hp' := hp.mono hfollows
    apply turn_safe rfl hpage
    exact ⟨hp'.before, hp'.block, hp'.nonempty, hp'.token,
      List.forall_mem_concat hp'.done fun _ => hdelivered⟩
  | checkpoint job vars page =>
    obtain ⟨hkey, hp⟩ := hL
    subst hkey
    -- the page is delivered to its end, which is what the cursor stands for
    obtain ⟨c, hcursor, hpos⟩ := hp.checkpoint_pos hI.isLog
    have hpage := hp.delivered_page
    have hgrows := s.1.grows_store (job.storeCursor (some c) s.1.syncStates)
    have hfollows : Follows s
        ({ s.1 with syncStates := job.storeCursor (some c) s.1.syncStates }, s.2) :=
      ⟨hgrows, List.prefix_refl _⟩
    have hsafe := @CursorSafe.store rt pos s job c hI (hpos ▸ hpage)
    simp only [ReconcileRun.next, hcursor]
    cases htoken : page.nextCursor with
    | none => exact ⟨hsafe, trivial, hgrows⟩
    | some t =>
      simp only
      split
      · exact ⟨hsafe, trivial, hgrows⟩
      · -- the token stands for the same place, where the next fetch begins
        refine ⟨hsafe, ⟨rfl, ?_⟩, hgrows⟩
        show DeliveredTo rt job.key _ (pos t)
        rw [hp.token t htoken]
        exact hpage.mono hfollows
  | finished result => exact ⟨hI, trivial, .refl _⟩

/-- Every step of every run keeps the invariant. -/
theorem reconcilePool_invariant (rt : Runtime) (pos : String → ℕ)
    (key : ObjectId × ObjectId × String) :
    (reconcilePool rt pos key).Invariant (CursorSafe rt pos key) (RunSafe rt pos key) where
  step := by
    intro run s run' s' new hI hL hstep
    obtain ⟨rfl, hlog, -, hcase⟩ := hstep
    obtain ⟨store', log'⟩ := s'
    have hlog' : log' = s.2 := hlog
    subst hlog'
    have hnil : ∀ q ∈ ([] : List ReconcileRun), RunSafe rt pos key (store', s.2) q :=
      fun q hq => absurd hq List.not_mem_nil
    rcases hcase with ⟨nango, hnango, hnext⟩ | ⟨rfl, hstore⟩
    · -- the call is answered
      have hsafe := next_safe hnango hI hL
      rw [hnext] at hsafe
      obtain ⟨hI', hL', hgrows⟩ := hsafe
      have hfollows : Follows s (store', s.2) := ⟨hgrows, List.prefix_refl _⟩
      exact ⟨hI', hL', hnil, fun q hq => hq.mono hfollows⟩
    · -- the call throws: nothing has changed
      have hstore' : store' = s.1 := hstore
      subst hstore'
      exact ⟨hI, trivial, hnil, fun q hq => hq⟩
  env := by
    intro s s' new hI henv
    obtain ⟨store', log'⟩ := s'
    obtain ⟨hstore, hcase⟩ := henv
    have hstore' : store' = s.1 := hstore
    subst hstore'
    rcases hcase with ⟨⟨more, hmore⟩, hlog, rfl⟩ | ⟨hsame, job, hkey, rfl⟩
    · -- the log grows behind everybody
      have hfollows : Follows s (s.1, log') :=
        ⟨.refl _, hmore ▸ List.prefix_append _ _⟩
      exact ⟨⟨hlog, hI.delivered.mono hfollows⟩, fun q hq => absurd hq List.not_mem_nil,
        fun q hq => hq.mono hfollows⟩
    · -- a run starts
      have hlog' : log' = s.2 := hsame
      subst hlog'
      refine ⟨hI, fun q hq => ?_, fun q hq => hq⟩
      rw [List.mem_singleton.mp hq]
      exact hkey

end Invariant

/-- **The cursor invariant.** From a state without reconcile runs in which everything
    before the stored cursor has been delivered, whatever runs start, however their calls
    interleave and throw, and however the log grows: in every state reached, every live
    record at or before the cursor stored in `sync_state` has its raw row and has been
    enqueued. -/
theorem reconcile_cursor_invariant (rt : Runtime) (pos : String → ℕ)
    (key : ObjectId × ObjectId × String) (s₀ s : LogStore) (runs : List ReconcileRun)
    (hlog : IsLog pos s₀.2)
    (hstart : DeliveredTo rt key s₀ (posOf pos (cursorAt key s₀.1.syncStates)))
    (h : (reconcilePool rt pos key).Reaches ([], s₀) (runs, s)) :
    ∀ c, cursorAt key s.1.syncStates = some c →
      ∀ (i : ℕ) (record : NangoRecord), s.2[i]? = some record → i < pos c →
        record.deleted = false → Delivered rt key s.1 record := by
  have hinv := (reconcilePool_invariant rt pos key).reaches h ⟨hlog, hstart⟩
    (fun run hrun => absurd hrun List.not_mem_nil)
  intro c hc i record hi hlt hlive
  have hdelivered := hinv.1.delivered
  rw [hc] at hdelivered
  exact hdelivered.2 i record hi hlt hlive

/-! ## Two runs over two pages -/

/-- An API that answers all that is left of the log as one page. -/
def wholeLog (pos : String → ℕ) (log : List NangoRecord) (params : NangoListParams) : Page where
  records := log.drop (posOf pos params.cursor)
  nextCursor := none

theorem answers_wholeLog (pos : String → ℕ) (log : List NangoRecord) (params : NangoListParams) :
    Answers pos log params.cursor (wholeLog pos log params) where
  block := List.prefix_refl _
  nonempty := fun h => h
  token := nofun
  last := by
    simp only [wholeLog, true_iff, List.length_drop]
    omega

/-- An API that answers one record of the log at a time, its cursor the token of the page. -/
def oneByOne (pos : String → ℕ) (log : List NangoRecord) (params : NangoListParams) : Page where
  records := (log.drop (posOf pos params.cursor)).take 1
  nextCursor :=
    if log.length ≤ posOf pos params.cursor + 1 then none
    else log[posOf pos params.cursor]?.bind NangoRecord.cursor

private theorem answers_oneByOne {pos : String → ℕ} {log : List NangoRecord} (hlog : IsLog pos log)
    (params : NangoListParams) : Answers pos log params.cursor (oneByOne pos log params) := by
  have hlength : (oneByOne pos log params).records.length =
      min 1 (log.length - posOf pos params.cursor) := by
    simp only [oneByOne, List.length_take, List.length_drop]
  constructor
  · exact List.take_prefix _ _
  · intro hmore hnone
    exact hmore ((List.take_eq_nil_iff.mp hnone).resolve_left one_ne_zero)
  · intro t ht
    -- the token is the cursor of the page's record, one past where the page starts
    simp only [oneByOne] at ht
    split at ht
    · cases ht
    · obtain ⟨record, hrecord, hcursor⟩ := Option.bind_eq_some_iff.mp ht
      obtain ⟨c, hc, hpos⟩ := hlog _ record hrecord
      cases hcursor.symm.trans hc
      omega
  · rw [hlength]
    simp only [oneByOne]
    split
    · simp only [true_iff]
      omega
    · next hmore =>
      -- more is left, so there is a record and the page carries its cursor
      obtain ⟨c, hc, -⟩ := hlog _ _ (List.getElem?_eq_getElem (Nat.lt_of_succ_lt (not_le.mp hmore)))
      rw [List.getElem?_eq_getElem (Nat.lt_of_succ_lt (not_le.mp hmore)), Option.bind_some, hc]
      simp only [reduceCtorEq, false_iff]
      omega

/-- A record with a cursor. -/
def cursorRecord : NangoRecord where
  fields := [("id", .str "r1"), ("_nango_metadata", .obj [("cursor", .str "c1")])]

/-- The record behind `cursorRecord`. -/
def laterRecord : NangoRecord where
  fields := [("id", .str "r2"), ("_nango_metadata", .obj [("cursor", .str "c2")])]

/-- A reconcile job. -/
def issueReconcile : ReconcileJobData where
  tenantId := tenantA
  connectionId := tenantB
  nangoConnectionId := some "nango-1"
  providerConfigKey := some "github"
  model := "GithubIssue"

/-- The position `"c1"` stands for, and the start of the log for all other cursors. -/
def onePos (c : String) : ℕ := if c = "c1" then 1 else 0

/-- The positions `"c1"` and `"c2"` stand for. -/
def twoPos (c : String) : ℕ := if c = "c1" then 1 else if c = "c2" then 2 else 0

theorem isLog_twoPos {log : List NangoRecord}
    (h : log.map NangoRecord.cursor = [some "c1", some "c2"]) : IsLog twoPos log := by
  intro i record hi
  have hcursor : (log.map NangoRecord.cursor)[i]? = some record.cursor := by
    rw [List.getElem?_map, hi]
    rfl
  rw [h] at hcursor
  match i, hcursor with
  | 0, hcursor => exact ⟨"c1", (Option.some.inj hcursor).symm, by decide⟩
  | 1, hcursor => exact ⟨"c2", (Option.some.inj hcursor).symm, by decide⟩

/-- A run over two records is not at its end. -/
def isPolling (run : ReconcileRun) (s : LogStore) : Bool :=
  !run.isFinished && decide (s.2.map NangoRecord.cursor = [some "c1", some "c2"])

/-- Two runs over a log of two records, their calls in turn: the first is a page ahead. -/
def twoRuns : List ReconcileRun × LogStore :=
  Pool.runSchedule isPolling
    (fun run s => ((run.next plainRuntime (oneByOne twoPos s.2) s.1).1,
      ((run.next plainRuntime (oneByOne twoPos s.2) s.1).2, s.2)))
    [0, 1, 0, 1, 0, 0, 0, 1, 0, 1, 0, 1, 0, 1, 0, 1, 1, 1]
    ([.load issueReconcile, .load issueReconcile], (⟨[], [], []⟩, [cursorRecord, laterRecord]))

private theorem twoRuns_reaches :
    (reconcilePool plainRuntime twoPos issueReconcile.key).Reaches
      ([], (⟨[], [], []⟩, [cursorRecord, laterRecord])) twoRuns := by
  refine .head (.environment ⟨rfl, Or.inr ⟨rfl, issueReconcile, rfl, rfl⟩⟩)
    (.head (.environment ⟨rfl, Or.inr ⟨rfl, issueReconcile, rfl, rfl⟩⟩)
      (Pool.reaches_runSchedule (fun run s hlive => ?_) _ _))
  obtain ⟨hlive, hlog⟩ := Bool.and_eq_true_iff.mp hlive
  exact ⟨rfl, rfl, Bool.not_eq_true' _ ▸ hlive,
    Or.inl ⟨_, answers_oneByOne (isLog_twoPos (of_decide_eq_true hlog)), rfl⟩⟩

theorem reconcile_cursor_invariant_twoRuns :
    twoRuns.1.map ReconcileRun.isFinished = [true, true] ∧
      cursorAt issueReconcile.key twoRuns.2.1.syncStates = some "c2" ∧
      ∀ record ∈ [cursorRecord, laterRecord],
        Delivered plainRuntime issueReconcile.key twoRuns.2.1 record := by
  have hcursor : cursorAt issueReconcile.key twoRuns.2.1.syncStates = some "c2" := by
    decide +kernel
  have hempty : DeliveredTo plainRuntime issueReconcile.key
      (⟨[], [], []⟩, [cursorRecord, laterRecord]) 0 :=
    ⟨Nat.zero_le _, fun i record _ hlt => absurd hlt (Nat.not_lt_zero i)⟩
  have hinv := reconcile_cursor_invariant plainRuntime twoPos issueReconcile.key
    (⟨[], [], []⟩, [cursorRecord, laterRecord]) twoRuns.2 twoRuns.1 (isLog_twoPos rfl) hempty
    twoRuns_reaches "c2" hcursor
  have hlog : twoRuns.2.2 = [cursorRecord, laterRecord] := rfl
  rw [hlog] at hinv
  refine ⟨by decide +kernel, hcursor, fun record hrecord => ?_⟩
  rcases List.mem_pair.mp hrecord with rfl | rfl
  · exact hinv 0 _ rfl (by decide) (by decide)
  · exact hinv 1 _ rfl (by decide) (by decide)

end Shiplog
