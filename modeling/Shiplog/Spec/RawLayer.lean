import Shiplog.Native.Producers
import Shiplog.Spec.DeliveryLoops

/-!
# What the raw layer keeps

`raw_records` is keyed by tenant, connection and the record's id as a string. The model of a
record is not in the key, and ids of different types can print alike, so records that Nango
tells apart can take each other's place. This module says when a sequence of landings leaves
every landed record its latest copy, as the replay source of a backfill.

## Key results

- `landAll_eq`: a sequence of landings leaves of each key the last row
- `raw_layer_keeps_latest_iff`: every record keeps its latest copy, and a backfill reprocesses
  it, exactly if no two records of a connection share their printed id
- `raw_layer_loses_issue`: records of two models with one id
-/

namespace Shiplog

/-- A landing of one of the delivery processors that does not throw: the record, with an id,
    of a model of a connection, and the row it is stored in. -/
structure Landing (rt : Runtime) where
  tenantId : ObjectId
  connectionId : ObjectId
  model : JsVal
  record : NangoRecord
  row : RawRecord
  isRow : rawRow rt (record.stamped model) { tenantId, connectionId := some connectionId } = .ok row
  hasId : (record.get "id").isNullish = false

/-- The landing of a record by the sync processor. -/
def NangoSyncJobData.landing {rt : Runtime} (job : NangoSyncJobData) (record : NangoRecord)
    (row : RawRecord) (h : rawRow rt (job.stamp record) job.rawContext = .ok row)
    (hid : (record.get "id").isNullish = false) : Landing rt :=
  ⟨job.tenantId, job.connectionId, job.model, record, row, h, hid⟩

/-- The landing of a record by the reconcile processor. -/
def ReconcileJobData.landing {rt : Runtime} (job : ReconcileJobData) (record : NangoRecord)
    (row : RawRecord) (h : rawRow rt (job.stamp record) job.rawContext = .ok row)
    (hid : (record.get "id").isNullish = false) : Landing rt :=
  ⟨job.tenantId, job.connectionId, .str job.model, record, row, h, hid⟩

namespace Landing

variable {rt : Runtime}

/-- What is landed: the stamped record. -/
def payload (l : Landing rt) : NangoRecord := l.record.stamped l.model

def context (l : Landing rt) : LandRawContext :=
  { tenantId := l.tenantId, connectionId := some l.connectionId }

/-- The record's id, as Nango gave it. -/
def nangoId (l : Landing rt) : JsVal := l.record.get "id"

/-- Landings one after another, into an empty collection. -/
def landAll (ls : List (Landing rt)) : Except JsVal (List RawRecord) :=
  ls.foldlM (fun rawRecords l => landRawRecord rt l.payload l.context rawRecords) []

/-- The two landings are of one record: of one tenant and connection, of one model and with
    one id. -/
structure SameRecord (l l' : Landing rt) : Prop where
  tenant : l.tenantId = l'.tenantId
  connection : l.connectionId = l'.connectionId
  model : l.model = l'.model
  id : l.nangoId = l'.nangoId

/-- The row holds a copy of the landed record. -/
structure Holds (l : Landing rt) (row : RawRecord) : Prop where
  tenant : row.tenantId = l.tenantId
  connection : row.connectionId = some l.connectionId
  model : (row.payload.get "_nango_metadata").get "model" = l.model
  id : row.payload.get "id" = l.nangoId

/-- The ingest job reprocesses a copy of the landed record. -/
def Reprocesses (l : Landing rt) (job : IngestJobData) : Prop :=
  ∃ record, job.record = some record ∧
    (record.get "_nango_metadata").get "model" = l.model ∧ record.get "id" = l.nangoId

open Classical in
/-- The landed record has one row, with the copy landed last, and a backfill of the connection
    enqueues one job for it, with that copy. -/
def KeepsLatest (ls : List (Landing rt)) (rawRecords : List RawRecord) (l : Landing rt) : Prop :=
  ∃ last row, (ls.filter fun l' => l'.SameRecord l).getLast? = some last ∧
    rawRecords.filter (fun row => l.Holds row) = [row] ∧ row.payload = last.payload ∧
    (backfillJobs l.connectionId l.tenantId rawRecords).filter (fun job => l.Reprocesses job) =
      [{ tenantId := l.tenantId, connectionId := some l.connectionId,
         record := some last.payload }]

/-! ## The rows of a sequence of landings -/

/-- A row holds the record as it was landed. -/
theorem payload_of_rawRow {record : NangoRecord} {ctx : LandRawContext} {row : RawRecord}
    (h : rawRow rt record ctx = .ok row) : row.payload = record := by
  unfold rawRow at h
  split at h
  · cases h
    rfl
  · cases h
  · cases h

private theorem key_row (l : Landing rt) :
    l.row.key = (l.tenantId, some l.connectionId, l.row.nangoRecordId) := by
  obtain ⟨ht, hc, -⟩ := rawRow_ok l.isRow
  unfold RawRecord.key
  rw [ht, hc]

/-- A landed record is held by its own row. -/
theorem holds_row (l : Landing rt) : l.Holds l.row := by
  obtain ⟨ht, hc, -⟩ := rawRow_ok l.isRow
  have hstamp := stampOf_stamped l.record l.model
  have hpayload := payload_of_rawRow l.isRow
  refine ⟨ht, hc, ?_, ?_⟩
  · rw [hpayload]
    exact hstamp.model
  · rw [hpayload]
    exact hstamp.fields "id" (by decide)

/-- A row that a landing wrote holds the records that are the landed one, and no others. -/
private theorem holds_row_iff (l l' : Landing rt) : l.Holds l'.row ↔ l'.SameRecord l := by
  have hown := l'.holds_row
  constructor
  · intro h
    refine ⟨hown.tenant.symm.trans h.tenant, ?_, hown.model.symm.trans h.model,
      hown.id.symm.trans h.id⟩
    exact Option.some.inj (hown.connection.symm.trans h.connection)
  · intro h
    refine ⟨hown.tenant.trans h.tenant, ?_, hown.model.trans h.model, hown.id.trans h.id⟩
    rw [hown.connection, h.connection]

/-- Landings of one record write under one key. -/
private theorem SameRecord.key_eq {l l' : Landing rt} (h : l.SameRecord l') :
    l.row.key = l'.row.key := by
  obtain ⟨-, -, hid⟩ := rawRow_ok l.isRow
  obtain ⟨-, -, hid'⟩ := rawRow_ok l'.isRow
  have hsame : nangoRecordId rt (l.record.stamped l.model) =
      nangoRecordId rt (l'.record.stamped l'.model) := by
    rw [nangoRecordId_stamped, nangoRecordId_stamped]
    have hget : l.record.get "id" = l'.record.get "id" := h.id
    unfold nangoRecordId recordIdOr
    rw [hget]
  rw [hid, hid', Except.ok.injEq] at hsame
  rw [key_row, key_row, h.tenant, h.connection, hsame]

/-- The rows of a sequence of landings, each written under its key. -/
def stored (ls : List (Landing rt)) : List RawRecord :=
  List.putAll RawRecord.key (ls.map fun l => l.row) []

/-- **A sequence of landings** does not throw, and leaves of each key the row landed last. -/
theorem landAll_eq (ls : List (Landing rt)) :
    landAll ls = .ok (stored ls) := by
  suffices h : ∀ rawRecords : List RawRecord,
      ls.foldlM (fun rawRecords l => landRawRecord rt l.payload l.context rawRecords) rawRecords =
        .ok (List.putAll RawRecord.key (ls.map fun l => l.row) rawRecords) from h []
  induction ls with
  | nil => exact fun _ => rfl
  | cons l ls ih =>
    intro rawRecords
    have hland : landRawRecord rt l.payload l.context rawRecords =
        .ok (rawRecords.put RawRecord.key l.row) := landRawRecord_of_row l.isRow rawRecords
    rw [List.foldlM_cons, hland, List.map_cons, List.putAll_cons, ← ih]
    rfl

/-- A stored row is the last one landed under its key. -/
private theorem mem_rows_iff {ls : List (Landing rt)} {row : RawRecord} :
    row ∈ stored ls ↔
      ∃ last, (ls.filter fun l => l.row.key = row.key).getLast? = some last ∧ last.row = row := by
  unfold stored
  rw [List.mem_putAll_nil_iff, List.filter_map, List.getLast?_map, Option.map_eq_some_iff]
  rfl

private theorem nodup_keys_stored (ls : List (Landing rt)) :
    ((stored ls).map RawRecord.key).Nodup := by
  have hnil : (([] : List RawRecord).map RawRecord.key).Nodup := List.nodup_nil
  exact List.nodup_map_key_putAll RawRecord.key hnil

/-- Every stored row was landed. -/
private theorem exists_landing {ls : List (Landing rt)} {row : RawRecord}
    (h : row ∈ stored ls) :
    ∃ l ∈ ls, l.row = row := by
  obtain ⟨last, hlast, hrow⟩ := mem_rows_iff.mp h
  exact ⟨last, List.mem_of_mem_filter (List.mem_of_getLast? hlast), hrow⟩

/-! ## Backfills -/

private theorem isOf_and_reprocesses_iff (l : Landing rt) (row : RawRecord) :
    (row.isOf l.connectionId l.tenantId = true ∧ l.Reprocesses
      { tenantId := l.tenantId, connectionId := some l.connectionId,
        record := some row.payload }) ↔ l.Holds row := by
  simp only [RawRecord.isOf, Bool.and_eq_true, decide_eq_true_eq]
  constructor
  · rintro ⟨⟨ht, hc⟩, record, hrecord, hmodel, hid⟩
    cases hrecord
    exact ⟨ht, hc, hmodel, hid⟩
  · intro h
    exact ⟨⟨h.tenant, h.connection⟩, row.payload, rfl, h.model, h.id⟩

open Classical in
/-- A backfill reprocesses the copies that are held. -/
private theorem filter_backfillJobs (l : Landing rt) (rawRecords : List RawRecord) :
    (backfillJobs l.connectionId l.tenantId rawRecords).filter (fun job => l.Reprocesses job) =
      (rawRecords.filter fun row => l.Holds row).map fun row =>
        { tenantId := l.tenantId, connectionId := some l.connectionId,
          record := some row.payload } := by
  unfold backfillJobs
  rw [List.filter_map, List.filter_filter]
  congr 1
  refine List.filter_congr fun row _ => ?_
  rw [← isOf_and_reprocesses_iff, Function.comp_apply, Bool.and_comm, Bool.decide_and,
    Bool.decide_eq_true]

/-! ## Keeping the latest copy -/

/-- Landings of one tenant and connection whose ids print alike are of one record. -/
def PrintApart (ls : List (Landing rt)) : Prop :=
  ∀ l ∈ ls, ∀ l' ∈ ls, l.tenantId = l'.tenantId → l.connectionId = l'.connectionId →
    nangoRecordId rt l.record = nangoRecordId rt l'.record →
    l.model = l'.model ∧ l.nangoId = l'.nangoId

private theorem nangoRecordId_record (l : Landing rt) :
    nangoRecordId rt l.record = .ok l.row.nangoRecordId := by
  obtain ⟨-, -, hid⟩ := rawRow_ok l.isRow
  rwa [nangoRecordId_stamped] at hid

/-- Landings under one key are then of one record. -/
private theorem PrintApart.sameRecord {ls : List (Landing rt)} (h : PrintApart ls)
    {l l' : Landing rt} (hl : l ∈ ls) (hl' : l' ∈ ls) (hkey : l.row.key = l'.row.key) :
    l.SameRecord l' := by
  rw [key_row, key_row, Prod.mk.injEq, Prod.mk.injEq, Option.some.injEq] at hkey
  obtain ⟨ht, hc, hprint⟩ := hkey
  obtain ⟨hmodel, hid⟩ := h l hl l' hl' ht hc (by
    rw [nangoRecordId_record, nangoRecordId_record, hprint])
  exact ⟨ht, hc, hmodel, hid⟩

/-- Then every landed record keeps its latest copy. -/
private theorem PrintApart.keepsLatest {ls : List (Landing rt)} (h : PrintApart ls) {l : Landing rt}
    (hl : l ∈ ls) : KeepsLatest ls (stored ls) l := by
  classical
  have hkey : ∀ l' ∈ ls, (l'.SameRecord l ↔ l'.row.key = l.row.key) :=
    fun l' hl' => ⟨SameRecord.key_eq, h.sameRecord hl' hl⟩
  -- the record's last landing
  have hmem : l ∈ ls.filter fun l' => l'.SameRecord l :=
    List.mem_filter.mpr ⟨hl, decide_eq_true ⟨rfl, rfl, rfl, rfl⟩⟩
  obtain ⟨last, hlast⟩ := Option.isSome_iff_exists.mp
    (List.getLast?_isSome.mpr (List.ne_nil_of_mem hmem))
  have hfound := List.mem_of_getLast? hlast
  rw [List.mem_filter, decide_eq_true_eq] at hfound
  obtain ⟨hin, hsame⟩ := hfound
  have hlastKey := hsame.key_eq
  -- its row is stored
  have hstored : last.row ∈ stored ls := by
    refine mem_rows_iff.mpr ⟨last, ?_, rfl⟩
    rw [← hlast, hlastKey]
    exact congrArg List.getLast? (List.filter_congr fun l' hl' => decide_eq_decide.mpr
      (hkey l' hl').symm)
  -- and no other row holds a copy
  have hrows : (stored ls).filter
      (fun row => l.Holds row) = [last.row] := by
    rw [← List.filter_eq_singleton_of_nodup_map (nodup_keys_stored ls) hstored]
    refine List.filter_congr fun row hrow => decide_eq_decide.mpr ?_
    obtain ⟨l', hl', rfl⟩ := exists_landing hrow
    rw [holds_row_iff, hkey l' hl', hlastKey]
  have hpayload := payload_of_rawRow last.isRow
  refine ⟨last, last.row, hlast, hrows, hpayload, ?_⟩
  rw [filter_backfillJobs, hrows, List.map_singleton, hpayload]
  rfl

/-- Records that keep their latest copies print apart. -/
private theorem printApart_of_keepsLatest {ls : List (Landing rt)}
    (h : ∀ l ∈ ls, KeepsLatest ls (stored ls) l) :
    PrintApart ls := by
  classical
  have hheld : ∀ l ∈ ls, ∃ row ∈ stored ls,
      l.Holds row ∧ row.key = l.row.key := by
    intro l hl
    obtain ⟨_, row, -, hrows, -⟩ := h l hl
    have hrow : row ∈ (stored ls).filter
        (fun row => l.Holds row) := by
      rw [hrows]
      exact List.mem_singleton_self row
    rw [List.mem_filter, decide_eq_true_eq] at hrow
    obtain ⟨l', -, rfl⟩ := exists_landing hrow.1
    exact ⟨l'.row, hrow.1, hrow.2, ((holds_row_iff l l').mp hrow.2).key_eq⟩
  intro l hl l' hl' ht hc hprint
  obtain ⟨row, hrow, hholds, hkey⟩ := hheld l hl
  obtain ⟨row', hrow', hholds', hkey'⟩ := hheld l' hl'
  rw [nangoRecordId_record, nangoRecordId_record, Except.ok.injEq] at hprint
  -- both are held by the one row under their key
  have hsame : row = row' := by
    refine List.inj_on_of_nodup_map (nodup_keys_stored ls) hrow hrow' ?_
    rw [hkey, hkey', key_row, key_row, ht, hc, hprint]
  subst hsame
  exact ⟨hholds.model.symm.trans hholds'.model, hholds.id.symm.trans hholds'.id⟩

end Landing

/-- **What the raw layer keeps.** Land records of any tenants, connections and models one after
    another. No landing throws, and every landed record has one row, with the copy landed
    last, which a backfill of its connection enqueues in one job, exactly if any two landings of
    one tenant and connection whose ids print alike are of one model and one id. -/
theorem raw_layer_keeps_latest_iff {rt : Runtime} (ls : List (Landing rt)) :
    ∃ rawRecords, Landing.landAll ls = .ok rawRecords ∧
      ((∀ l ∈ ls, Landing.KeepsLatest ls rawRecords l) ↔ Landing.PrintApart ls) :=
  ⟨_, Landing.landAll_eq ls, Landing.printApart_of_keepsLatest, fun h _ hl => h.keepsLatest hl⟩

/-! ## Two models -/

/-- A reconcile job for the pull requests of the connection. -/
def pullReconcile : ReconcileJobData := { issueReconcile with model := "GithubPullRequest" }

/-- An issue and a pull request of one connection that share their id: landing the pull request
    takes the issue's place. -/
theorem raw_layer_loses_issue :
    ∃ (row row' : RawRecord) (hrow : rawRow plainRuntime (issueSync.stamp cursorRecord)
        issueSync.rawContext = .ok row)
      (hrow' : rawRow plainRuntime (pullReconcile.stamp cursorRecord) pullReconcile.rawContext =
        .ok row'),
      Landing.landAll [issueSync.landing cursorRecord row hrow rfl,
          pullReconcile.landing cursorRecord row' hrow' rfl] = .ok [row'] ∧
        ¬ Landing.KeepsLatest [issueSync.landing cursorRecord row hrow rfl,
          pullReconcile.landing cursorRecord row' hrow' rfl] [row']
          (issueSync.landing cursorRecord row hrow rfl) := by
  classical
  obtain ⟨row, hrow⟩ := @rawRow_of_printable plainRuntime (issueSync.stamp cursorRecord)
    issueSync.rawContext "r1" (nangoRecordId_stamped _ _ _)
  obtain ⟨row', hrow'⟩ := @rawRow_of_printable plainRuntime (pullReconcile.stamp cursorRecord)
    pullReconcile.rawContext "r1" (nangoRecordId_stamped _ _ _)
  have hid := (issueSync.landing cursorRecord row hrow rfl).nangoRecordId_record
  have hid' := (pullReconcile.landing cursorRecord row' hrow' rfl).nangoRecordId_record
  have hprint : row.nangoRecordId = row'.nangoRecordId :=
    Except.ok.inj (hid.symm.trans hid')
  have hkey : row.key = row'.key := by
    have h : row.key = (tenantA, some tenantB, row.nangoRecordId) :=
      (issueSync.landing cursorRecord row hrow rfl).key_row
    have h' : row'.key = (tenantA, some tenantB, row'.nangoRecordId) :=
      (pullReconcile.landing cursorRecord row' hrow' rfl).key_row
    rw [h, h', hprint]
  refine ⟨row, row', hrow, hrow', ?_, ?_⟩
  · rw [Landing.landAll_eq]
    show Except.ok (List.putAll RawRecord.key [row, row'] []) = _
    rw [List.putAll_cons, List.put_nil, List.putAll_cons, List.put_cons, if_pos hkey,
      List.putAll_nil]
  · rintro ⟨_, copy, -, hcopy, -⟩
    have hmem := List.mem_singleton_self copy
    rw [← hcopy, List.mem_filter, List.mem_singleton, decide_eq_true_eq] at hmem
    obtain ⟨rfl, hholds⟩ := hmem
    -- the row left is of the other model
    have hmodel := ((Landing.holds_row_iff (issueSync.landing cursorRecord row hrow rfl)
      (pullReconcile.landing cursorRecord copy hrow' rfl)).mp hholds).model
    have hne : JsVal.str "GithubPullRequest" ≠ JsVal.str "GithubIssue" := by simp
    exact hne hmodel

end Shiplog
