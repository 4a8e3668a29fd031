import Shiplog.ForStd.Iterate
import Shiplog.Native.Sync
import Shiplog.Spec.Resume

/-!
# The two delivery loops agree

The nango-sync and the reconcile processor page through the records API with loops of
different shape. Their record loops are two instances of one (`RecordLoop`), which lands
and enqueues the live records of a page in order; around it, both walk the pages of an API
that hands out a list of pages, the one until there is no token, the other until there is
none or it does not advance.

## Key results

- `RecordLoop.emits`: what the record loop does with a page, for both processors
- `NangoSyncRun.emits`, `ReconcileRun.emits`: what a whole run does
- `delivery_loops_agree`: the same operations in the same order, the same counts, and the
  cursor the reconcile processor ends at
-/

namespace Shiplog

/-! ## Operations -/

/-- What a delivery run does to the outside. -/
inductive DeliveryOp where
  /-- the upsert of a raw row -/
  | land (row : RawRecord)
  /-- the `add` of an ingest job -/
  | enqueue (job : IngestJobData)

namespace DeliveryOp

/-- The store after an operation. -/
def perform (s : DeliveryStore) : DeliveryOp → DeliveryStore
  | .land row => { s with rawRecords := s.rawRecords.put RawRecord.key row }
  | .enqueue job => { s with ingestJobs := s.ingestJobs ++ [job] }

end DeliveryOp

/-- The landing of a record, if it does not throw. -/
def landing (rt : Runtime) (record : NangoRecord) (ctx : LandRawContext) : List DeliveryOp :=
  match rawRow rt record ctx with
  | .ok row => [.land row]
  | .error _ => []

/-- The operation a reconcile run does next. -/
def ReconcileRun.ops (rt : Runtime) : ReconcileRun → List DeliveryOp
  | .land job _ _ record _ => landing rt (job.stamp record) job.rawContext
  | .enqueue job _ _ record _ => [.enqueue (job.ingestJob record)]
  | _ => []

/-- The operation a sync run does next. -/
def NangoSyncRun.ops (rt : Runtime) : NangoSyncRun → List DeliveryOp
  | .land job _ _ record _ => landing rt (job.stamp record) job.rawContext
  | .enqueue job _ _ record _ => [.enqueue (job.ingestJob record)]
  | _ => []

/-- What a job makes of a record: how it is stamped, where it is landed, and the ingest job it
    is sent on with. -/
structure Target where
  stamp : NangoRecord → NangoRecord
  context : LandRawContext
  ingestJob : NangoRecord → IngestJobData

def ReconcileJobData.target (job : ReconcileJobData) : Target :=
  ⟨job.stamp, job.rawContext, job.ingestJob⟩

def NangoSyncJobData.target (job : NangoSyncJobData) : Target :=
  ⟨job.stamp, job.rawContext, job.ingestJob⟩

/-- What is to be done about a record: nothing about a tombstone, else it is landed and then
    enqueued. -/
def deliver (rt : Runtime) (target : Target) (record : NangoRecord) : List DeliveryOp :=
  if record.deleted then []
  else landing rt (target.stamp record) target.context ++ [.enqueue (target.ingestJob record)]

/-- What is to be done about several records, in their order. -/
def deliverAll (rt : Runtime) (target : Target) (records : List NangoRecord) : List DeliveryOp :=
  records.flatMap (deliver rt target)

/-- Every live record can be landed. -/
def Lands (rt : Runtime) (target : Target) (records : List NangoRecord) : Prop :=
  ∀ record ∈ records, record.deleted = false →
    ∃ row, rawRow rt (target.stamp record) target.context = .ok row

/-! ## The record loop -/

/-- The record loop of a processor with run states `R` and loop variables `V`: `turn` goes to
    the next call, `seen` and `sent` count a record read and a record enqueued. -/
structure RecordLoop (rt : Runtime) (target : Target) {R V : Type}
    (next : R × DeliveryStore → R × DeliveryStore) (ops : R → List DeliveryOp)
    (turn : V → List NangoRecord → R) (seen sent : V → V) where
  land : V → NangoRecord → List NangoRecord → R
  enqueue : V → NangoRecord → List NangoRecord → R
  turn_dead : ∀ v record rest, record.deleted = true →
    turn v (record :: rest) = turn (seen v) rest
  turn_live : ∀ v record rest, record.deleted = false →
    turn v (record :: rest) = land (seen v) record rest
  next_land : ∀ v record rest s row, rawRow rt (target.stamp record) target.context = .ok row →
    next (land v record rest, s) = (enqueue v record rest, (DeliveryOp.land row).perform s)
  next_enqueue : ∀ v record rest s, next (enqueue v record rest, s) =
    (turn (sent v) rest, (DeliveryOp.enqueue (target.ingestJob record)).perform s)
  ops_land : ∀ v record rest, ops (land v record rest) =
    landing rt (target.stamp record) target.context
  ops_enqueue : ∀ v record rest, ops (enqueue v record rest) = [.enqueue (target.ingestJob record)]

/-- The variables after the given records. -/
def counted {V : Type} (seen sent : V → V) (v : V) (records : List NangoRecord) : V :=
  records.foldl (fun v record => if record.deleted then seen v else sent (seen v)) v

/-- **What the record loop does with a page**: its live records are landed and enqueued one by
    one, the others only counted. -/
theorem RecordLoop.emits {rt : Runtime} {target : Target} {R V : Type}
    {next : R × DeliveryStore → R × DeliveryStore} {ops : R → List DeliveryOp}
    {turn : V → List NangoRecord → R} {seen sent : V → V}
    (loop : RecordLoop rt target next ops turn seen sent) (records : List NangoRecord)
    (hlands : Lands rt target records) (v : V) (s : DeliveryStore) :
    Function.Emits next (fun st => ops st.1) (turn v records, s) (deliverAll rt target records)
      (turn (counted seen sent v records) [], (deliverAll rt target records).foldl
        DeliveryOp.perform s) := by
  induction records generalizing v s with
  | nil => exact .refl _ _ _
  | cons record records ih =>
    obtain ⟨hhere, hrest⟩ := List.forall_mem_cons.mp hlands
    simp only [deliverAll, List.flatMap_cons, counted, List.foldl_cons, List.foldl_append]
    cases hdel : record.deleted with
    | true =>
      -- a tombstone: on with the rest
      rw [loop.turn_dead v record records hdel]
      simp only [deliver, hdel, if_true, List.nil_append, List.foldl_nil]
      exact ih hrest (seen v) s
    | false =>
      obtain ⟨row, hrow⟩ := hhere hdel
      rw [loop.turn_live v record records hdel]
      have hdeliver : deliver rt target record =
          [.land row] ++ ([.enqueue (target.ingestJob record)] ++ []) := by
        simp only [deliver, hdel, landing, hrow, Bool.false_eq_true, if_false, List.append_nil]
      rw [hdeliver, List.append_assoc, List.append_assoc]
      have hland : ops (loop.land (seen v) record records) = [.land row] := by
        rw [loop.ops_land, landing, hrow]
      refine .head (loop.next_land _ _ _ _ row hrow) hland ?_
      exact .head (loop.next_enqueue _ _ _ _) (loop.ops_enqueue _ _ _) (ih hrest _ _)

/-! ## Both processors have one -/

/-- The sync job is about the same tenant, connection and model. -/
structure NangoSyncJobData.Targets (sync : NangoSyncJobData) (job : ReconcileJobData) : Prop where
  tenant : sync.tenantId = job.tenantId
  connection : sync.connectionId = job.connectionId
  model : sync.model = .str job.model

/-- Then both do the same to a record: `via` has the value the sync processor leaves it at. -/
theorem NangoSyncJobData.Targets.target_eq {sync : NangoSyncJobData} {job : ReconcileJobData}
    (h : sync.Targets job) : sync.target = job.target := by
  unfold NangoSyncJobData.target ReconcileJobData.target NangoSyncJobData.stamp
    ReconcileJobData.stamp NangoSyncJobData.rawContext ReconcileJobData.rawContext
    NangoSyncJobData.ingestJob ReconcileJobData.ingestJob NangoSyncJobData.stamp
    ReconcileJobData.stamp
  rw [h.tenant, h.connection, h.model]

section Loops

variable (rt : Runtime) (nango : NangoListParams → Page)

theorem landRawRecord_of_row {rt : Runtime} {record : NangoRecord} {ctx : LandRawContext}
    {row : RawRecord} (h : rawRow rt record ctx = .ok row) (rawRecords : List RawRecord) :
    landRawRecord rt record ctx rawRecords = .ok (rawRecords.put RawRecord.key row) := by
  unfold landRawRecord
  rw [h]

/-- The record loop of the reconcile processor. -/
def reconcileLoop (job : ReconcileJobData) (page : Page) :
    RecordLoop rt job.target (fun st => st.1.next rt nango st.2) (ReconcileRun.ops rt)
      (fun vars => ReconcileRun.turn job vars page)
      (fun vars => { vars with fetched := vars.fetched + 1 })
      (fun vars => { vars with enqueued := vars.enqueued + 1 }) where
  land vars record rest := .land job vars page record rest
  enqueue vars record rest := .enqueue job vars page record rest
  turn_dead vars record rest h := by simp only [ReconcileRun.turn, h, if_true]
  turn_live vars record rest h := by
    simp only [ReconcileRun.turn, h, Bool.false_eq_true, if_false]
  next_land vars record rest s row h := by
    have hland : rawRow rt (job.stamp record) job.rawContext = .ok row := h
    simp only [ReconcileRun.next, landRawRecord_of_row hland, DeliveryOp.perform]
  next_enqueue _ _ _ _ := rfl
  ops_land _ _ _ := rfl
  ops_enqueue _ _ _ := rfl

/-- The record loop of the sync processor. -/
def nangoSyncLoop (job : NangoSyncJobData) (page : Page) :
    RecordLoop rt job.target (fun st => st.1.next rt nango st.2) (NangoSyncRun.ops rt)
      (fun vars => NangoSyncRun.turn job vars page)
      (fun vars => { vars with fetched := vars.fetched + 1 })
      (fun vars => { vars with enqueued := vars.enqueued + 1 }) where
  land vars record rest := .land job vars page record rest
  enqueue vars record rest := .enqueue job vars page record rest
  turn_dead vars record rest h := by simp only [NangoSyncRun.turn, h, if_true]
  turn_live vars record rest h := by
    simp only [NangoSyncRun.turn, h, Bool.false_eq_true, if_false]
  next_land vars record rest s row h := by
    have hland : rawRow rt (job.stamp record) job.rawContext = .ok row := h
    simp only [NangoSyncRun.next, landRawRecord_of_row hland, DeliveryOp.perform]
  next_enqueue _ _ _ _ := rfl
  ops_land _ _ _ := rfl
  ops_enqueue _ _ _ := rfl

end Loops

/-- The counters after a page: all its records were fetched, the live ones enqueued. -/
private theorem counted_eq {V : Type} {seen sent : V → V} (f : ℕ → ℕ → V)
    (hseen : ∀ m n, seen (f m n) = f (m + 1) n) (hsent : ∀ m n, sent (f m n) = f m (n + 1))
    (records : List NangoRecord) (m n : ℕ) :
    counted seen sent (f m n) records = f (m + records.length) (n + (liveOf records).length) := by
  induction records generalizing m n with
  | nil => rfl
  | cons record records ih =>
    unfold counted at ih ⊢
    rw [List.foldl_cons]
    cases hdel : record.deleted with
    | true =>
      have hlive : liveOf (record :: records) = liveOf records := by
        simp only [liveOf, List.filter_cons, hdel, Bool.not_true, Bool.false_eq_true, if_false]
      rw [if_pos rfl, hseen, ih, hlive, List.length_cons, Nat.add_right_comm, Nat.add_assoc]
    | false =>
      have hlive : liveOf (record :: records) = record :: liveOf records := by
        simp only [liveOf, List.filter_cons, hdel, Bool.not_false, if_true]
      rw [if_neg Bool.false_ne_true, hseen, hsent, ih, hlive, List.length_cons, List.length_cons,
        Nat.add_right_comm m, Nat.add_right_comm n, Nat.add_assoc, Nat.add_assoc]

/-! ## Page lists -/

/-- The API answers a request at a cursor with the first of the pages, and hands out the
    others by non-empty tokens; only the last one carries none and may be empty. -/
def Serves (list : Option String → Page) : Option String → List Page → Prop
  | _, [] => False
  | cursor, page :: pages =>
    list cursor = page ∧
      match pages with
      | [] => page.nextCursor = none ∨ page.nextCursor = some ""
      | _ :: _ => page.records ≠ [] ∧
          ∃ token, page.nextCursor = some token ∧ token ≠ "" ∧ Serves list (some token) pages

/-- All records of the pages, in order. -/
def recordsOf (pages : List Page) : List NangoRecord := pages.flatMap (·.records)

/-- The cursor a page leaves behind: its last record's, else its token, else the one before.
    An empty page leaves it as it was. -/
def resumePoint (cursor : Option String) (page : Page) : Option String :=
  match page.records.getLast? with
  | none => cursor
  | some last => (last.cursor.or page.nextCursor).or cursor

private theorem deliverAll_append (rt : Runtime) (target : Target) (xs ys : List NangoRecord) :
    deliverAll rt target (xs ++ ys) = deliverAll rt target xs ++ deliverAll rt target ys :=
  List.flatMap_append ..

/-! ## Stores -/

/-- Operations do not touch the cursors. -/
private theorem perform_syncStates (ops : List DeliveryOp) (s : DeliveryStore)
    (states : List SyncState) :
    ops.foldl DeliveryOp.perform { s with syncStates := states } =
      { ops.foldl DeliveryOp.perform s with syncStates := states } := by
  induction ops generalizing s with
  | nil => rfl
  | cons op ops ih =>
    rw [List.foldl_cons, List.foldl_cons, ← ih]
    cases op with
    | land row => rfl
    | enqueue job => rfl

private theorem syncStates_perform (ops : List DeliveryOp) (s : DeliveryStore) :
    (ops.foldl DeliveryOp.perform s).syncStates = s.syncStates := by
  have h : ops.foldl DeliveryOp.perform s =
      { ops.foldl DeliveryOp.perform s with syncStates := s.syncStates } :=
    perform_syncStates ops s s.syncStates
  rw [h]

/-- What the operations of some records leave in the store: their rows, and their jobs behind
    the others. -/
theorem perform_deliverAll {rt : Runtime} {job : ReconcileJobData} {records : List NangoRecord}
    (hlands : Lands rt job.target records) (s : DeliveryStore) :
    (deliverAll rt job.target records).foldl DeliveryOp.perform s =
      { s with rawRecords := (rowsOf rt job records).putAll RawRecord.key s.rawRecords
               ingestJobs := s.ingestJobs ++ jobsOf job records } := by
  induction records generalizing s with
  | nil =>
    simp only [deliverAll, List.flatMap_nil, List.foldl_nil, rowsOf, jobsOf, liveOf,
      List.filter_nil, List.filterMap_nil, List.map_nil, List.append_nil, List.putAll_nil]
  | cons record records ih =>
    obtain ⟨hhere, hrest⟩ := List.forall_mem_cons.mp hlands
    rw [deliverAll, List.flatMap_cons, ← deliverAll, List.foldl_append, ih hrest]
    cases hdel : record.deleted with
    | true =>
      simp only [deliver, hdel, if_true, List.foldl_nil, rowsOf, jobsOf, liveOf, List.filter_cons,
        Bool.not_true, Bool.false_eq_true, if_false]
    | false =>
      -- a live record: its row is put first, its job comes before the later ones
      obtain ⟨row, hrow⟩ := hhere hdel
      unfold ReconcileJobData.target at hrow ⊢
      simp only [deliver, hdel, landing, hrow, rowsOf, jobsOf, liveOf, List.filter_cons,
        Bool.not_false, Bool.false_eq_true, if_false, if_true, List.singleton_append,
        List.foldl_cons, List.foldl_nil, DeliveryOp.perform, List.filterMap_cons, Except.toOption,
        List.putAll_cons, List.map_cons, List.append_assoc]

/-- A checkpoint is read back; without a cursor it leaves the one before. -/
private theorem cursorAt_storeCursor_or (job : ReconcileJobData) (cursor : Option String)
    (states : List SyncState) :
    cursorAt job.key (job.storeCursor cursor states) = cursor.or (cursorAt job.key states) := by
  unfold cursorAt ReconcileJobData.storeCursor
  rw [List.find?_upsert_self]
  · cases states.find? fun state => state.key = job.key with
    | none => exact (Option.or_none ..).symm
    | some state => rfl
  · intro state h
    exact h
  · exact decide_eq_true rfl

/-! ## Whole runs -/

section Runs

variable {rt : Runtime} {nango : NangoListParams → Page} {job : ReconcileJobData}

variable (nango) in
/-- The records of a page go through the record loop of the sync processor. -/
theorem NangoSyncRun.emits_records {sync : NangoSyncJobData} {page : Page}
    (hlands : Lands rt sync.target page.records) (cursor : Option String) (m n : ℕ)
    (s : DeliveryStore) :
    Function.Emits (fun st : NangoSyncRun × DeliveryStore => st.1.next rt nango st.2)
      (fun st => st.1.ops rt) (.turn sync ⟨cursor, m, n⟩ page page.records, s)
      (deliverAll rt sync.target page.records)
      (.turn sync ⟨cursor, m + page.records.length, n + (liveOf page.records).length⟩ page [],
        (deliverAll rt sync.target page.records).foldl DeliveryOp.perform s) := by
  have hloop := (nangoSyncLoop rt nango sync page).emits page.records hlands ⟨cursor, m, n⟩ s
  rwa [counted_eq (fun m n => (⟨cursor, m, n⟩ : NangoSyncVars)) (fun _ _ => rfl) (fun _ _ => rfl)]
    at hloop

/-- **A run of the sync processor** from a page on. -/
theorem NangoSyncRun.emits {sync : NangoSyncJobData} (pages : List Page) (cursor : Option String)
    (hserves : Serves (fun c => nango (sync.listParams c)) cursor pages)
    (hlands : Lands rt sync.target (recordsOf pages)) (m n : ℕ) (s : DeliveryStore) :
    Function.Emits (fun st : NangoSyncRun × DeliveryStore => st.1.next rt nango st.2)
      (fun st => st.1.ops rt) (.fetch sync ⟨cursor, m, n⟩, s)
      (deliverAll rt sync.target (recordsOf pages))
      (.finished (some ⟨m + (recordsOf pages).length, n + (liveOf (recordsOf pages)).length⟩),
        (deliverAll rt sync.target (recordsOf pages)).foldl DeliveryOp.perform s) := by
  induction pages generalizing cursor m n s with
  | nil => exact hserves.elim
  | cons page pages ih =>
    obtain ⟨hpage, hnext⟩ := hserves
    have hsplit : recordsOf (page :: pages) = page.records ++ recordsOf pages := List.flatMap_cons
    rw [hsplit] at hlands ⊢
    obtain ⟨hhere, hrest⟩ := List.forall_mem_append.mp hlands
    rw [deliverAll_append, List.foldl_append, List.length_append, liveOf_append, List.length_append,
      ← Nat.add_assoc, ← Nat.add_assoc]
    -- the page is fetched and its records go through the record loop
    have hfetch : (NangoSyncRun.fetch sync ⟨cursor, m, n⟩).next rt nango s =
        (NangoSyncRun.turn sync ⟨cursor, m, n⟩ page page.records, s) := by
      rw [← hpage]
      rfl
    refine .silent hfetch rfl ((NangoSyncRun.emits_records nango hhere cursor m n s).trans ?_)
    cases pages with
    | nil =>
      -- no token, or a falsy one: the run ends
      have hend : NangoSyncRun.turn sync ⟨cursor, m + page.records.length,
          n + (liveOf page.records).length⟩ page [] =
          .finished (some ⟨m + page.records.length, n + (liveOf page.records).length⟩) := by
        cases hnext with
        | inl hnone => simp only [NangoSyncRun.turn, hnone]
        | inr hempty => simp only [NangoSyncRun.turn, hempty, if_true]
      rw [hend]
      exact .refl _ _ _
    | cons page' pages =>
      obtain ⟨-, token, htoken, hne, hserves⟩ := hnext
      have hgo : NangoSyncRun.turn sync ⟨cursor, m + page.records.length,
          n + (liveOf page.records).length⟩ page [] =
          .fetch sync ⟨some token, m + page.records.length, n + (liveOf page.records).length⟩ := by
        simp only [NangoSyncRun.turn, htoken, hne, if_false]
      rw [hgo]
      exact ih (some token) hserves hrest _ _ _

/-- The checkpoint of a page that is not empty. -/
private theorem checkpointCursor_eq (vars : ReconcileVars) {page : Page} (h : page.records ≠ []) :
    ReconcileRun.checkpointCursor vars page = resumePoint vars.cursor page := by
  unfold ReconcileRun.checkpointCursor resumePoint
  rw [List.getLast?_eq_some_getLast h]
  rfl

variable (nango) in
/-- The records of a page go through the record loop of the reconcile processor. -/
theorem ReconcileRun.emits_records {page : Page} (hlands : Lands rt job.target page.records)
    (cursor pageCursor : Option String) (m n : ℕ) (s : DeliveryStore) :
    Function.Emits (fun st : ReconcileRun × DeliveryStore => st.1.next rt nango st.2)
      (fun st => st.1.ops rt) (.turn job ⟨m, n, cursor, pageCursor⟩ page page.records, s)
      (deliverAll rt job.target page.records)
      (.checkpoint job ⟨m + page.records.length, n + (liveOf page.records).length, cursor,
          pageCursor⟩ page,
        (deliverAll rt job.target page.records).foldl DeliveryOp.perform s) := by
  have hloop := (reconcileLoop rt nango job page).emits page.records hlands
    ⟨m, n, cursor, pageCursor⟩ s
  rwa [counted_eq (fun m n => (⟨m, n, cursor, pageCursor⟩ : ReconcileVars)) (fun _ _ => rfl)
    (fun _ _ => rfl)] at hloop

/-- A page that is not empty is worked on. -/
theorem ReconcileRun.next_fetch {page : Page} {pageCursor : Option String}
    (hpage : nango (job.listParams pageCursor) = page) (hne : page.records ≠ [])
    (cursor : Option String) (m n : ℕ) (s : DeliveryStore) :
    (ReconcileRun.fetch job ⟨m, n, cursor, pageCursor⟩).next rt nango s =
      (ReconcileRun.turn job ⟨m, n, cursor, pageCursor⟩ page page.records, s) := by
  simp only [ReconcileRun.next, hpage, List.isEmpty_iff, hne, if_false]

/-- A page that is not empty goes through the record loop and is checkpointed. -/
private theorem ReconcileRun.emits_page {page : Page} {pageCursor : Option String}
    (hpage : nango (job.listParams pageCursor) = page) (hne : page.records ≠ [])
    (hlands : Lands rt job.target page.records) (cursor : Option String) (m n : ℕ)
    (s : DeliveryStore) :
    Function.Emits (fun st : ReconcileRun × DeliveryStore => st.1.next rt nango st.2)
      (fun st => st.1.ops rt) (.fetch job ⟨m, n, cursor, pageCursor⟩, s)
      (deliverAll rt job.target page.records)
      ((ReconcileRun.checkpoint job ⟨m + page.records.length, n + (liveOf page.records).length,
          cursor, pageCursor⟩ page).next rt nango
        ((deliverAll rt job.target page.records).foldl DeliveryOp.perform s)) := by
  have hfetch := @ReconcileRun.next_fetch rt nango job page pageCursor hpage hne cursor m n s
  have hloop := ReconcileRun.emits_records nango hlands cursor pageCursor m n s
  have hpast := hloop.trans (.silent rfl rfl (.refl _ _ _))
  rw [List.append_nil] at hpast
  exact .silent hfetch rfl hpast

/-- **A run of the reconcile processor** from a page on. The cursor it holds is the one it
    has stored, and the token of the page is not handed out again. -/
theorem ReconcileRun.emits (pages : List Page) (cursor pageCursor : Option String)
    (hserves : Serves (fun c => nango (job.listParams c)) pageCursor pages)
    (hfresh : ∀ token, pageCursor = some token → token ∉ pages.filterMap (·.nextCursor))
    (hnodup : (pages.filterMap (·.nextCursor)).Nodup)
    (hlands : Lands rt job.target (recordsOf pages)) (m n : ℕ) (s : DeliveryStore)
    (hstored : cursorAt job.key s.syncStates = cursor) :
    ∃ states, cursorAt job.key states = pages.foldl resumePoint cursor ∧
      Function.Emits (fun st : ReconcileRun × DeliveryStore => st.1.next rt nango st.2)
        (fun st => st.1.ops rt) (.fetch job ⟨m, n, cursor, pageCursor⟩, s)
        (deliverAll rt job.target (recordsOf pages))
        (.finished (some ⟨m + (recordsOf pages).length, n + (liveOf (recordsOf pages)).length,
            pages.foldl resumePoint cursor⟩),
          { (deliverAll rt job.target (recordsOf pages)).foldl DeliveryOp.perform s with
            syncStates := states }) := by
  induction pages generalizing cursor pageCursor m n s with
  | nil => exact hserves.elim
  | cons page pages ih =>
    obtain ⟨hpage, hnext⟩ := hserves
    have hsplit : recordsOf (page :: pages) = page.records ++ recordsOf pages := List.flatMap_cons
    rw [hsplit] at hlands ⊢
    obtain ⟨hhere, hrest⟩ := List.forall_mem_append.mp hlands
    by_cases hempty : page.records = []
    · -- an empty page ends the run, and it is the last one
      cases pages with
      | cons page' pages => exact absurd hempty hnext.1
      | nil =>
        have hfold : [page].foldl resumePoint cursor = cursor := by
          simp only [List.foldl_cons, List.foldl_nil, resumePoint, hempty, List.getLast?_nil]
        have hnone : page.records ++ recordsOf [] = [] := by
          rw [hempty]
          rfl
        have hend : (ReconcileRun.fetch job ⟨m, n, cursor, pageCursor⟩).next rt nango s =
            (.finished (some ⟨m, n, cursor⟩), s) := by
          simp only [ReconcileRun.next, hpage, hempty, List.isEmpty_nil, if_true]
        rw [hfold, hnone]
        exact ⟨s.syncStates, hstored, .silent hend rfl (.refl _ _ _)⟩
    · -- the page is worked on, and its cursor is stored
      have hrun := ReconcileRun.emits_page hpage hempty hhere cursor m n s
      rw [deliverAll_append, List.foldl_append, List.length_append, liveOf_append,
        List.length_append, ← Nat.add_assoc, ← Nat.add_assoc, List.foldl_cons]
      have hstate := syncStates_perform (deliverAll rt job.target page.records) s
      generalize (deliverAll rt job.target page.records).foldl DeliveryOp.perform s = s₁
        at hstate hrun ⊢
      have hcheck : cursorAt job.key (job.storeCursor (resumePoint cursor page) s₁.syncStates) =
          resumePoint cursor page := by
        rw [cursorAt_storeCursor_or, hstate, hstored, resumePoint,
          List.getLast?_eq_some_getLast hempty]
        simp only [Option.or_assoc, Option.or_self]
      cases pages with
      | nil =>
        -- no token, or a falsy one: the run ends
        refine ⟨_, hcheck, hrun.trans ⟨0, ?_, rfl⟩⟩
        show ReconcileRun.next rt nango _ _ = _
        simp only [ReconcileRun.next,
          checkpointCursor_eq ⟨m + page.records.length, n + (liveOf page.records).length, cursor,
            pageCursor⟩ hempty]
        cases hnext with
        | inl hnone =>
          simp only [hnone]
          rfl
        | inr hempty =>
          simp only [hempty]
          rfl
      | cons page' pages =>
        obtain ⟨-, token, htoken, hne, hserves⟩ := hnext
        rw [List.filterMap_cons_some htoken] at hfresh hnodup
        have hadvance : some token ≠ pageCursor :=
          fun heq => hfresh token heq.symm List.mem_cons_self
        obtain ⟨hnew, hnodup⟩ := List.nodup_cons.mp hnodup
        obtain ⟨states, hstates, hnext⟩ := ih (resumePoint cursor page) (some token) hserves
          (fun t ht => Option.some.inj ht ▸ hnew) hnodup hrest (m + page.records.length)
          (n + (liveOf page.records).length)
          { s₁ with syncStates := job.storeCursor (resumePoint cursor page) s₁.syncStates } hcheck
        rw [perform_syncStates] at hnext
        refine ⟨states, hstates, hrun.trans ?_⟩
        -- the token is fresh, so the guards let the run go on
        simp only [ReconcileRun.next, htoken, hne, hadvance, or_self, if_false,
          checkpointCursor_eq ⟨m + page.records.length, n + (liveOf page.records).length, cursor,
            pageCursor⟩ hempty]
        exact hnext

end Runs

/-! ## Stamped records -/

/-- A stamped record is the original with the model in its metadata overwritten. -/
structure StampOf (record : NangoRecord) (model : JsVal) (stamped : NangoRecord) : Prop where
  fields : ∀ key, key ≠ "_nango_metadata" → stamped.get key = record.get key
  metadata : ∀ key, key ≠ "model" →
    (stamped.get "_nango_metadata").get key = record.metadata.get key
  model : (stamped.get "_nango_metadata").get "model" = model

theorem stampOf_stamped (record : NangoRecord) (model : JsVal) :
    StampOf record model (record.stamped model) where
  fields key hkey := JsVal.lookup_assign_ne _ _ hkey.symm
  metadata key hkey := by
    simp only [NangoRecord.stamped, NangoRecord.get, JsVal.lookup_assign_self, JsVal.get_obj,
      JsVal.lookup_assign_ne _ _ hkey.symm]
    cases record.metadata with
    | obj fs => rfl
    | _ => rfl
  model := by
    simp only [NangoRecord.stamped, NangoRecord.get, JsVal.lookup_assign_self, JsVal.get_obj]

/-- **The two delivery loops agree.** Let the records API hand out a list of pages by
    non-empty, pairwise different tokens, no page before the last empty, to both processors,
    started for the same tenant, connection and model and without a stored cursor; and let
    every live record land. Then both return, having done the same operations in the same
    order: each live record, in page order, landed and then enqueued, stamped with the model
    and otherwise as it came. They report the same counts and leave the same rows and jobs,
    and the reconcile processor ends at the cursor its pages fold to, which it has stored. -/
theorem delivery_loops_agree (rt : Runtime) (nango : NangoListParams → Page)
    (job : ReconcileJobData) (sync : NangoSyncJobData) (hsame : sync.Targets job)
    (pages : List Page) (hpages : Serves (fun c => nango (job.listParams c)) none pages)
    (hpages' : Serves (fun c => nango (sync.listParams c)) none pages)
    (htokens : (pages.filterMap (·.nextCursor)).Nodup)
    (hlands : Lands rt job.target (recordsOf pages)) (s : DeliveryStore)
    (hstored : job.storedCursor s.syncStates = none) :
    let records := recordsOf pages
    let cursor := pages.foldl resumePoint none
    let s' := { s with rawRecords := (rowsOf rt job records).putAll RawRecord.key s.rawRecords
                       ingestJobs := s.ingestJobs ++ jobsOf job records }
    Function.Emits (fun st : NangoSyncRun × DeliveryStore => st.1.next rt nango st.2)
        (fun st => st.1.ops rt) (.start sync, s) (deliverAll rt job.target records)
        (.finished (some ⟨records.length, (liveOf records).length⟩), s') ∧
      (∃ states, cursorAt job.key states = cursor ∧
        Function.Emits (fun st : ReconcileRun × DeliveryStore => st.1.next rt nango st.2)
          (fun st => st.1.ops rt) (.load job, s) (deliverAll rt job.target records)
          (.finished (some ⟨records.length, (liveOf records).length, cursor⟩),
            { s' with syncStates := states })) ∧
      ∀ record ∈ liveOf records, StampOf record (.str job.model) (job.stamp record) := by
  refine ⟨?_, ?_, fun record _ => stampOf_stamped record _⟩
  · have hsync := NangoSyncRun.emits pages none hpages' (hsame.target_eq ▸ hlands) 0 0 s
    rw [hsame.target_eq, perform_deliverAll hlands, Nat.zero_add, Nat.zero_add] at hsync
    exact hsync
  · obtain ⟨states, hstates, hrun⟩ := ReconcileRun.emits pages none none hpages
      (fun token htoken => absurd htoken (Option.some_ne_none token).symm) htokens hlands 0 0 s
      hstored
    rw [perform_deliverAll hlands, Nat.zero_add, Nat.zero_add] at hrun
    -- the run begins by loading the cursor, and there is none
    refine ⟨states, hstates, .silent ?_ rfl hrun⟩
    simp only [ReconcileRun.next, hstored]

/-! ## Two pages -/

/-- A tombstone, and a record without metadata. -/
def goneRecord : NangoRecord :=
  ⟨[("id", .str "r2"), ("_nango_metadata", .obj [("last_action", .str "DELETED")])]⟩

def bareRecord : NangoRecord := ⟨[("id", .num 3)]⟩

/-- A page of a record and a tombstone, then one of a record without metadata. -/
def mixedPages : List Page :=
  [⟨[cursorRecord, goneRecord], some "p2"⟩, ⟨[bareRecord], none⟩]

/-- An API that serves them. -/
def mixedApi (params : NangoListParams) : Page :=
  if params.cursor = some "p2" then ⟨[bareRecord], none⟩
  else ⟨[cursorRecord, goneRecord], some "p2"⟩

/-- A sync job for what `issueReconcile` polls. -/
def issueSync : NangoSyncJobData where
  tenantId := tenantA
  connectionId := tenantB
  nangoConnectionId := .str "nango-1"
  providerConfigKey := .str "github"
  model := .str "GithubIssue"
  modifiedAfter := .undefined

/-- Their records land. -/
theorem lands_mixed {records : List NangoRecord}
    (hmem : ∀ record ∈ records, record ∈ recordsOf mixedPages) :
    Lands plainRuntime issueReconcile.target records := by
  have hids : ∀ record ∈ recordsOf mixedPages, ∃ id, nangoRecordId plainRuntime record = .ok id :=
    List.forall_mem_cons.mpr ⟨⟨"r1", rfl⟩, List.forall_mem_cons.mpr ⟨⟨"r2", rfl⟩,
      List.forall_mem_singleton.mpr ⟨"3", rfl⟩⟩⟩
  intro record hrecord _
  obtain ⟨id, hid⟩ := hids record (hmem record hrecord)
  exact rawRow_of_printable ((nangoRecordId_stamped _ _ _).trans hid)

/-- Runs of both processors over the two pages, from empty collections. -/
theorem delivery_loops_agree_mixed :
    (∃ n s, (fun st : NangoSyncRun × DeliveryStore => st.1.next plainRuntime mixedApi st.2)^[n]
        (.start issueSync, ⟨[], [], []⟩) = (.finished (some ⟨3, 2⟩), s)) ∧
      ∃ n s, (fun st : ReconcileRun × DeliveryStore => st.1.next plainRuntime mixedApi st.2)^[n]
        (.load issueReconcile, ⟨[], [], []⟩) = (.finished (some ⟨3, 2, some "p2"⟩), s) := by
  have hserves : ∀ list : Option String → Page,
      list none = ⟨[cursorRecord, goneRecord], some "p2"⟩ →
      list (some "p2") = ⟨[bareRecord], none⟩ → Serves list none mixedPages :=
    fun list h h' => ⟨h, List.cons_ne_nil _ _, "p2", rfl, by decide, h', Or.inl rfl⟩
  obtain ⟨⟨n, hn, -⟩, ⟨states, -, m, hm, -⟩, -⟩ := delivery_loops_agree plainRuntime mixedApi
    issueReconcile issueSync ⟨rfl, rfl, rfl⟩ mixedPages (hserves _ rfl rfl) (hserves _ rfl rfl)
    (by decide) (lands_mixed fun _ hrecord => hrecord) ⟨[], [], []⟩ rfl
  exact ⟨⟨n, _, hn⟩, m, _, hm⟩

end Shiplog
