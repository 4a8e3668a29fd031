import Shiplog.ForStd.Except
import Shiplog.Native.Reconcile

/-!
# What one delivery step does

Spec lemmas for landing, enqueueing and checkpointing, and for the record loop of the
reconcile processor; the files on the cursor and on crash recovery build on them.

## Key results

- `landRawRecord_ok`: a landing that does not throw stores the record's row
- `Delivered.mono`: what has been delivered stays delivered
- `cursorAt_storeCursor`: a checkpoint is read back
- `turn_cases`: where the record loop goes from a given rest of a page
-/

namespace Shiplog

/-! ## Landing -/

/-- Stamping the model leaves the record id alone. -/
@[simp] theorem recordIdOr_stamped (rt : Runtime) (dflt : String) (record : NangoRecord)
    (model : JsVal) : recordIdOr rt dflt (record.stamped model) = recordIdOr rt dflt record := by
  unfold recordIdOr NangoRecord.stamped NangoRecord.get
  rw [JsVal.lookup_assign_ne _ _ (by decide)]

@[simp] theorem nangoRecordId_stamped (rt : Runtime) (record : NangoRecord) (model : JsVal) :
    nangoRecordId rt (record.stamped model) = nangoRecordId rt record :=
  recordIdOr_stamped rt "" record model

/-- A landing that does not throw stores the record's row under its key. -/
theorem landRawRecord_ok {rt : Runtime} {record : NangoRecord} {ctx : LandRawContext}
    {rawRecords rawRecords' : List RawRecord}
    (h : landRawRecord rt record ctx rawRecords = .ok rawRecords') :
    ∃ row, rawRow rt record ctx = .ok row ∧ rawRecords' = rawRecords.put RawRecord.key row := by
  unfold landRawRecord at h
  split at h
  · next row hrow => exact ⟨row, hrow, (Except.ok.inj h).symm⟩
  · cases h

/-- The key fields of a record's row. -/
theorem rawRow_ok {rt : Runtime} {record : NangoRecord} {ctx : LandRawContext} {row : RawRecord}
    (h : rawRow rt record ctx = .ok row) :
    row.tenantId = ctx.tenantId ∧ row.connectionId = ctx.connectionId ∧
      nangoRecordId rt record = .ok row.nangoRecordId := by
  unfold rawRow at h
  split at h
  · next hid _ =>
    cases h
    exact ⟨rfl, rfl, hid⟩
  · exact nomatch h
  · exact nomatch h

/-- Every normalized record carries its external id as a string. -/
theorem normalize_externalId {rt : Runtime} {record : Option NangoRecord} {normalized : JsVal}
    (h : normalizeGithubRecord rt record = .ok normalized) :
    ∃ id, (normalized.get "externalId").toStr rt = .ok id := by
  unfold normalizeGithubRecord at h
  split at h
  · obtain ⟨number, -, h⟩ := Except.bind_ok h
    obtain ⟨occurredAt, -, h⟩ := Except.bind_ok h
    cases h
    exact ⟨_, rfl⟩
  · obtain ⟨number, -, h⟩ := Except.bind_ok h
    obtain ⟨occurredAt, -, h⟩ := Except.bind_ok h
    cases h
    exact ⟨_, rfl⟩
  · obtain ⟨sha, -, h⟩ := Except.bind_ok h
    obtain ⟨title, -, h⟩ := Except.bind_ok h
    obtain ⟨occurredAt, -, h⟩ := Except.bind_ok h
    cases h
    exact ⟨_, rfl⟩
  · -- an unknown model always throws
    obtain ⟨model, -, h⟩ := Except.bind_ok h
    exact nomatch h

/-! ## Delivered records -/

/-- A record has a raw row under its id and has been enqueued, for the tenant, connection
    and model of `key`. -/
structure Delivered (rt : Runtime) (key : ObjectId × ObjectId × String) (s : DeliveryStore)
    (record : NangoRecord) : Prop where
  landed : ∃ row ∈ s.rawRecords, row.tenantId = key.1 ∧ row.connectionId = some key.2.1 ∧
    nangoRecordId rt record = .ok row.nangoRecordId
  enqueued : ∃ job ∈ s.ingestJobs, job.tenantId = key.1 ∧ job.connectionId = some key.2.1 ∧
    job.record = some (record.stamped (.str key.2.2))

/-- Rows keep their keys and jobs are never taken back. -/
structure DeliveryStore.Grows (s s' : DeliveryStore) : Prop where
  rows : ∀ row ∈ s.rawRecords, ∃ row' ∈ s'.rawRecords, row'.key = row.key
  jobs : ∀ job ∈ s.ingestJobs, job ∈ s'.ingestJobs

theorem DeliveryStore.Grows.refl (s : DeliveryStore) : s.Grows s :=
  ⟨fun row h => ⟨row, h, rfl⟩, fun _ h => h⟩

/-- What has been delivered stays delivered. -/
theorem Delivered.mono {rt : Runtime} {key : ObjectId × ObjectId × String}
    {s s' : DeliveryStore} (hs : s.Grows s') {record : NangoRecord}
    (h : Delivered rt key s record) : Delivered rt key s' record where
  landed := by
    obtain ⟨row, hrow, ht, hc, hid⟩ := h.landed
    obtain ⟨row', hrow', hkey⟩ := hs.rows row hrow
    simp only [RawRecord.key, Prod.mk.injEq] at hkey
    exact ⟨row', hrow', hkey.1.trans ht, hkey.2.1.trans hc, by rw [hkey.2.2, hid]⟩
  enqueued := by
    obtain ⟨job, hjob, heq⟩ := h.enqueued
    exact ⟨job, hs.jobs job hjob, heq⟩

/-- Landing a row keeps the key of every other one. -/
theorem DeliveryStore.grows_put (s : DeliveryStore) (row : RawRecord) :
    s.Grows { s with rawRecords := s.rawRecords.put RawRecord.key row } where
  rows := by
    intro r hr
    cases List.mem_put_of_mem RawRecord.key (a := row) hr with
    | inl h => exact ⟨r, h, rfl⟩
    | inr h => exact ⟨row, List.mem_put_self RawRecord.key row s.rawRecords, h.symm⟩
  jobs := fun _ h => h

theorem DeliveryStore.grows_enqueue (s : DeliveryStore) (job : IngestJobData) :
    s.Grows { s with ingestJobs := s.ingestJobs ++ [job] } where
  rows := fun row h => ⟨row, h, rfl⟩
  jobs := fun _ h => List.mem_append_left _ h

theorem DeliveryStore.grows_store (s : DeliveryStore) (syncStates : List SyncState) :
    s.Grows { s with syncStates } where
  rows := fun row h => ⟨row, h, rfl⟩
  jobs := fun _ h => h

/-! ## The stored cursor -/

/-- The cursor stored under a key. -/
def cursorAt (key : ObjectId × ObjectId × String) (states : List SyncState) : Option String :=
  (states.find? fun state => state.key = key).bind (·.cursor)

/-- A checkpointed cursor is read back. -/
theorem cursorAt_storeCursor (job : ReconcileJobData) (c : String) (states : List SyncState) :
    cursorAt job.key (job.storeCursor (some c) states) = some c := by
  unfold cursorAt ReconcileJobData.storeCursor
  rw [List.find?_upsert_self]
  · split
    · rfl
    · rfl
  · intro state h
    exact h
  · exact decide_eq_true rfl

/-- A checkpoint stores its cursor, whether the run goes on or not. -/
theorem ReconcileRun.next_checkpoint_snd (rt : Runtime) (nango : NangoListParams → Page)
    (job : ReconcileJobData) (vars : ReconcileVars) (page : Page) (s : DeliveryStore) :
    ((ReconcileRun.checkpoint job vars page).next rt nango s).2 =
      { s with syncStates := job.storeCursor (checkpointCursor vars page) s.syncStates } := by
  simp only [ReconcileRun.next]
  split
  · rfl
  · split
    · rfl
    · rfl

/-! ## The record loop -/

/-- The record loop runs over tombstones to the next live record, or to the end of the
    page. -/
theorem turn_cases (job : ReconcileJobData) (vars : ReconcileVars) (page : Page)
    (rest : List NangoRecord) :
    ∃ vars', vars'.cursor = vars.cursor ∧ vars'.pageCursor = vars.pageCursor ∧
      ((∀ r ∈ rest, r.deleted = true) ∧
          ReconcileRun.turn job vars page rest = .checkpoint job vars' page ∨
        ∃ dead record rest', rest = dead ++ record :: rest' ∧ (∀ r ∈ dead, r.deleted = true) ∧
          record.deleted = false ∧
          ReconcileRun.turn job vars page rest = .land job vars' page record rest') := by
  induction rest generalizing vars with
  | nil => exact ⟨vars, rfl, rfl, Or.inl ⟨fun r hr => absurd hr List.not_mem_nil, rfl⟩⟩
  | cons record rest ih =>
    simp only [ReconcileRun.turn]
    by_cases hdel : record.deleted = true
    · -- a tombstone is only counted
      rw [if_pos hdel]
      obtain ⟨vars', hcur, hpage, hcase⟩ := ih { vars with fetched := vars.fetched + 1 }
      refine ⟨vars', hcur, hpage, ?_⟩
      rcases hcase with ⟨hall, hturn⟩ | ⟨dead, r, rest', rfl, hdead, hlive, hturn⟩
      · left
        exact ⟨List.forall_mem_cons.mpr ⟨hdel, hall⟩, hturn⟩
      · right
        exact ⟨record :: dead, r, rest', rfl, List.forall_mem_cons.mpr ⟨hdel, hdead⟩, hlive, hturn⟩
    · rw [if_neg hdel]
      rw [Bool.not_eq_true] at hdel
      exact ⟨{ vars with fetched := vars.fetched + 1 }, rfl, rfl, Or.inr ⟨[], record, rest, rfl,
        fun r hr => absurd hr List.not_mem_nil, hdel, rfl⟩⟩

end Shiplog
