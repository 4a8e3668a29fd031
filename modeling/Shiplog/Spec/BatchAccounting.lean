import Shiplog.Spec.IngestCorrect

/-!
# The counts of a batch

`Balanced` relates the counts of a batch to what the batch did to the spine: it holds of
the empty counts, and every turn of the loop keeps it, whether its record is turned away by
the normalizer or the schema, suppressed, or stored.

## Key results

- `recordFails_iff`, `ingestRecord_of_some`: a turn counts a failure, or does what the call of
  its record does
- `ingestRecord_cases`: a turn counts a failure and does nothing else, or does what
  `ingestEvent` does with a valid input
- `Balanced.ingestRecord`: a turn keeps the accounts
- `foldl_fail`: a failure counted before the rest of a batch leaves the rest as it was
- `batchAccounting`: the accounts of a whole batch
-/

namespace Shiplog

variable {α : Type} {rt : Runtime} {normalize : α → Except JsVal JsVal} {t : ObjectId}

/-- `counts.failed += 1`. -/
def RunCounts.fail (counts : RunCounts) : RunCounts := { counts with failed := counts.failed + 1 }

theorem RunCounts.count_fail (counts : RunCounts) (status : IngestStatus) :
    counts.fail.count status = (counts.count status).fail := by
  cases status <;> rfl

/-- The entities a tenant has rows of. -/
def entities (t : ObjectId) (spine : Spine) : Finset (String × String) :=
  ((spine.filter fun r => r.tenantId = t).map fun r => (r.source, r.externalId)).toFinset

theorem mem_entities {spine : Spine} {entity : String × String} :
    entity ∈ entities t spine ↔
      ∃ r ∈ spine, r.tenantId = t ∧ r.source = entity.1 ∧ r.externalId = entity.2 := by
  simp only [entities, List.mem_toFinset, List.mem_map, List.mem_filter, decide_eq_true_eq,
    Prod.ext_iff, and_assoc]

/-- A row of the tenant adds its entity. -/
private theorem entities_append {r : Event} (hr : r.tenantId = t) (spine : Spine) :
    entities t (spine ++ [r]) = insert (r.source, r.externalId) (entities t spine) := by
  ext entity
  simp only [Finset.mem_insert, mem_entities, List.mem_append, List.mem_singleton]
  constructor
  · rintro ⟨r', hr' | rfl, ht, hs, he⟩
    · exact Or.inr ⟨r', hr', ht, hs, he⟩
    · exact Or.inl (Prod.ext hs.symm he.symm)
  · rintro (rfl | ⟨r', hr', hrest⟩)
    · exact ⟨r, Or.inr rfl, hr, rfl, rfl⟩
    · exact ⟨r', Or.inl hr', hrest⟩

/-- A call finds a latest row exactly when the tenant has rows of its entity. -/
private theorem IngestCall.latest_eq_none_iff_entities (c : IngestCall) (spine : Spine) :
    c.latest spine = none ↔ (c.ev.source, c.ev.externalId) ∉ entities c.tenantId spine := by
  rw [latest_eq_none, mem_entities]
  simp only [← Bool.not_eq_true, sameEntity, Bool.and_eq_true, decide_eq_true_eq, and_assoc,
    not_exists, not_and]

/-! ## One turn -/

/-- The record cannot be ingested at its turn: the normalizer throws, or `ingestEvent` throws
    on what it returned. -/
def RecordFails (rt : Runtime) (normalize : α → Except JsVal JsVal) (t : ObjectId) (record : α)
    (spine : Spine) : Prop :=
  (∃ err, normalize record = .error err) ∨
    ∃ input err, normalize record = .ok input ∧
      (ingestEvent rt noFaults input (some t) spine).1 = .error err

/-- A turn counts a failure and does nothing else, or does what `ingestEvent` does with a
    valid input. -/
theorem ingestRecord_cases (rt : Runtime) (normalize : α → Except JsVal JsVal) (t : ObjectId)
    (record : α) (spine : Spine) :
    (RecordFails rt normalize t record spine ∧ ∀ counts : RunCounts,
      ingestRecord rt normalize (some t) record counts spine = (counts.fail, spine)) ∨
    (¬ RecordFails rt normalize t record spine ∧ ∃ e : ValidInput rt, ∀ counts : RunCounts,
      ingestRecord rt normalize (some t) record counts spine =
        (counts.count ((e.call t).statusIn spine),
          if (e.call t).appends spine then spine ++ [(e.call t).row] else spine)) := by
  unfold RecordFails ingestRecord
  cases hn : normalize record with
  | error err => exact Or.inl ⟨Or.inl ⟨err, rfl⟩, fun counts => rfl⟩
  | ok input =>
    cases hp : NormalizedEventSchema.parse rt input with
    | error err =>
      -- the schema turns the input away before the first store operation
      have hingest : ingestEvent rt noFaults input (some t) spine = (.error err, spine) := by
        simp only [ingestEvent, IngestCall.prepare, hp]
      left
      simp only [hingest]
      exact ⟨Or.inr ⟨input, err, rfl, hingest ▸ rfl⟩, fun counts => rfl⟩
    | ok ev =>
      have hingest := ValidInput.ingestEvent_eq ⟨input, ev, hp⟩ t spine
      right
      simp only at hingest ⊢
      refine ⟨?_, ⟨input, ev, hp⟩, fun counts => ?_⟩
      · rintro (⟨err, herr⟩ | ⟨input', err, hin, herr⟩)
        · cases herr
        · cases hin
          rw [hingest] at herr
          cases herr
      · rw [hingest]
        rfl

/-- The call a record comes to, if the mapper and the schema accept it. -/
def recordCall? (rt : Runtime) (normalize : α → Except JsVal JsVal) (t : ObjectId) (record : α) :
    Option IngestCall :=
  match normalize record with
  | .ok input => (IngestCall.prepare rt input (some t)).toOption
  | .error _ => none

/-- The turn of the loop at a record without a call. -/
theorem ingestRecord_of_none {record : α} (h : recordCall? rt normalize t record = none)
    (counts : RunCounts) (spine : Spine) :
    ingestRecord rt normalize (some t) record counts spine = (counts.fail, spine) := by
  simp only [ingestRecord, recordCall?, ingestEvent] at h ⊢
  cases hnorm : normalize record with
  | error err => rfl
  | ok input =>
    simp only [hnorm] at h ⊢
    cases hprep : IngestCall.prepare rt input (some t) with
    | error err => rfl
    | ok c =>
      rw [hprep] at h
      cases h

/-- The turn of the loop at another one. -/
theorem ingestRecord_of_some {record : α} {c : IngestCall}
    (h : recordCall? rt normalize t record = some c) (counts : RunCounts) (spine : Spine) :
    ingestRecord rt normalize (some t) record counts spine =
      (counts.count (c.statusIn spine), if c.appends spine then spine ++ [c.row] else spine) := by
  simp only [ingestRecord, recordCall?, ingestEvent] at h ⊢
  cases hnorm : normalize record with
  | error err =>
    rw [hnorm] at h
    cases h
  | ok input =>
    simp only [hnorm] at h ⊢
    cases hprep : IngestCall.prepare rt input (some t) with
    | error err =>
      rw [hprep] at h
      cases h
    | ok c' =>
      rw [hprep] at h
      cases h
      simp only [IngestCall.commit_noFaults]
      rfl

/-- A record cannot be ingested exactly if it comes to no call. -/
theorem recordFails_iff {record : α} {spine : Spine} :
    RecordFails rt normalize t record spine ↔ recordCall? rt normalize t record = none := by
  unfold RecordFails recordCall?
  cases hnorm : normalize record with
  | error err => simp
  | ok input =>
    cases hprep : IngestCall.prepare rt input (some t) with
    | error err =>
      have hthrows : (ingestEvent rt noFaults input (some t) spine).1 = .error err := by
        simp only [ingestEvent, hprep]
      exact iff_of_true (Or.inr ⟨input, err, rfl, hthrows⟩) (by simp only [hprep, Except.toOption])
    | ok c =>
      simp only [hprep, Except.toOption]
      refine iff_of_false ?_ (Option.some_ne_none c)
      rintro (⟨err, herr⟩ | ⟨input', err, hin, herr⟩)
      · cases herr
      · cases hin
        simp only [ingestEvent, hprep, IngestCall.commit_noFaults] at herr
        cases herr

/-! ## The accounts -/

/-- What the counts after `n` turns say about the spine the batch started from. -/
structure Balanced (t : ObjectId) (start : Spine) (n : ℕ) (acc : RunCounts × Spine) : Prop where
  total : acc.1.added + acc.1.updated + acc.1.deleted + acc.1.failed + acc.1.unchanged = n
  rows : ∃ rows, acc.2 = start ++ rows ∧ rows.length = acc.1.added + acc.1.updated ∧
    ∀ r ∈ rows, r.tenantId = t
  entities : acc.1.added = (entities t acc.2 \ entities t start).card

variable {start spine : Spine} {n : ℕ} {counts : RunCounts}

private theorem balanced_empty (t : ObjectId) (start : Spine) :
    Balanced t start 0 (emptyCounts, start) where
  total := rfl
  rows := ⟨[], (List.append_nil start).symm, rfl, nofun⟩
  entities := by
    rw [Finset.sdiff_self]
    rfl

namespace Balanced

/-- The entities of the starting spine are still there. -/
private theorem entities_subset (h : Balanced t start n (counts, spine)) :
    Shiplog.entities t start ⊆ Shiplog.entities t spine := by
  obtain ⟨rows, hrows, -, -⟩ := h.rows
  intro entity hent
  rw [mem_entities] at hent ⊢
  obtain ⟨r, hr, hrest⟩ := hent
  have hmem : r ∈ spine := by
    rw [show spine = start ++ rows from hrows]
    exact List.mem_append_left _ hr
  exact ⟨r, hmem, hrest⟩

/-- A failure is counted. -/
theorem fail (h : Balanced t start n (counts, spine)) :
    Balanced t start (n + 1) (counts.fail, spine) where
  total := by
    have htotal := h.total
    simp only [RunCounts.fail] at htotal ⊢
    omega
  rows := h.rows
  entities := h.entities

/-- A suppressed event is counted as unchanged. -/
theorem unchanged (h : Balanced t start n (counts, spine)) :
    Balanced t start (n + 1) (counts.count .unchanged, spine) where
  total := by
    have htotal := h.total
    simp only [RunCounts.count] at htotal ⊢
    omega
  rows := h.rows
  entities := h.entities

/-- An appended row of the tenant is one of the batch's. -/
private theorem rows_concat (h : Balanced t start n (counts, spine)) {r : Event}
    (hr : r.tenantId = t) :
    ∃ rows, spine ++ [r] = start ++ rows ∧ rows.length = counts.added + counts.updated + 1 ∧
      ∀ r ∈ rows, r.tenantId = t := by
  obtain ⟨rows, hrows, hlen, hall⟩ := h.rows
  have hspine : spine = start ++ rows := hrows
  refine ⟨rows ++ [r], ?_, ?_, List.forall_mem_concat hall hr⟩
  · rw [hspine, List.append_assoc]
  · rw [List.length_append, List.length_singleton, hlen]

/-- A row of an entity the tenant has is counted as updated. -/
theorem updated (h : Balanced t start n (counts, spine)) {r : Event} (hr : r.tenantId = t)
    (hold : (r.source, r.externalId) ∈ Shiplog.entities t spine) :
    Balanced t start (n + 1) (counts.count .updated, spine ++ [r]) where
  total := by
    have htotal := h.total
    simp only [RunCounts.count] at htotal ⊢
    omega
  rows := h.rows_concat hr
  entities := by
    show counts.added = (Shiplog.entities t (spine ++ [r]) \ Shiplog.entities t start).card
    rw [entities_append hr, Finset.insert_eq_of_mem hold]
    exact h.entities

/-- A row of a new entity is counted as added. -/
theorem added (h : Balanced t start n (counts, spine)) {r : Event} (hr : r.tenantId = t)
    (hnew : (r.source, r.externalId) ∉ Shiplog.entities t spine) :
    Balanced t start (n + 1) (counts.count .added, spine ++ [r]) where
  total := by
    have htotal := h.total
    simp only [RunCounts.count] at htotal ⊢
    omega
  rows := by
    obtain ⟨rows, hrows, hlen, hall⟩ := h.rows_concat hr
    refine ⟨rows, hrows, ?_, hall⟩
    show rows.length = counts.added + 1 + counts.updated
    omega
  entities := by
    have hstart : (r.source, r.externalId) ∉ Shiplog.entities t start :=
      fun hmem => hnew (h.entities_subset hmem)
    have hfresh : (r.source, r.externalId) ∉ Shiplog.entities t spine \ Shiplog.entities t start :=
      fun hmem => hnew (Finset.mem_sdiff.mp hmem).1
    show counts.added + 1 = (Shiplog.entities t (spine ++ [r]) \ Shiplog.entities t start).card
    rw [entities_append hr, Finset.insert_sdiff_of_notMem _ hstart,
      Finset.card_insert_of_notMem hfresh, ← h.entities]

/-- A turn of the loop keeps the accounts. -/
theorem ingestRecord (h : Balanced t start n (counts, spine)) (record : α) :
    Balanced t start (n + 1) (ingestRecord rt normalize (some t) record counts spine) := by
  rcases ingestRecord_cases rt normalize t record spine with ⟨-, hturn⟩ | ⟨-, e, hturn⟩
  · rw [hturn]
    exact h.fail
  · rw [hturn]
    have hent := (e.call t).latest_eq_none_iff_entities spine
    have hadded : (e.call t).statusIn spine = .added ↔
        (e.call t).keyTaken spine = false ∧ (e.call t).latest spine = none :=
      IngestCall.statusIn_added_iff
    cases happ : (e.call t).appends spine with
    | false =>
      rw [IngestCall.statusIn_of_not_appends happ]
      exact h.unchanged
    | true =>
      rw [if_pos rfl]
      have hfree := (IngestCall.appends_eq_true.mp happ).1
      cases hstatus : (e.call t).statusIn spine with
      | unchanged => exact absurd hstatus (IngestCall.statusIn_of_appends happ)
      | added => exact h.added rfl (hent.mp (hadded.mp hstatus).2)
      | updated =>
        apply h.updated rfl
        by_contra hnew
        rw [hadded.mpr ⟨hfree, hent.mpr hnew⟩] at hstatus
        cases hstatus

end Balanced

/-! ## A whole batch -/

/-- One more record. -/
theorem ingestNangoRecords_concat (records : List α) (record : α) (spine : Spine) :
    ingestNangoRecords rt normalize (some t) (records ++ [record]) spine =
      ingestRecord rt normalize (some t) record
        (ingestNangoRecords rt normalize (some t) records spine).1
        (ingestNangoRecords rt normalize (some t) records spine).2 := by
  simp only [ingestNangoRecords, List.foldl_append, List.foldl_cons, List.foldl_nil]

/-- A batch counts as failed the records without a call, and none as deleted. -/
theorem ingestNangoRecords_failed (records : List α) (start : Spine) :
    (ingestNangoRecords rt normalize (some t) records start).1.failed =
        records.countP (fun record => (recordCall? rt normalize t record).isNone) ∧
      (ingestNangoRecords rt normalize (some t) records start).1.deleted = 0 := by
  induction records using List.reverseRecOn with
  | nil => exact ⟨rfl, rfl⟩
  | append_singleton records record ih =>
    rw [ingestNangoRecords_concat, List.countP_append, List.countP_singleton]
    cases hcall : recordCall? rt normalize t record with
    | none =>
      rw [ingestRecord_of_none hcall]
      exact ⟨congrArg (· + 1) ih.1, ih.2⟩
    | some c =>
      rw [ingestRecord_of_some hcall]
      generalize c.statusIn _ = status
      cases status <;> exact ih

/-- The loop keeps the accounts. -/
theorem balanced_ingestNangoRecords (records : List α) (start : Spine) :
    Balanced t start records.length
      (ingestNangoRecords rt normalize (some t) records start) := by
  induction records using List.reverseRecOn with
  | nil => exact balanced_empty t start
  | append_singleton records record ih =>
    rw [ingestNangoRecords_concat, List.length_append, List.length_singleton]
    exact ih.ingestRecord record

/-- A failure counted before a turn leaves the turn as it was. -/
private theorem ingestRecord_fail (record : α) (counts : RunCounts) (spine : Spine) :
    ingestRecord rt normalize (some t) record counts.fail spine =
      ((ingestRecord rt normalize (some t) record counts spine).1.fail,
        (ingestRecord rt normalize (some t) record counts spine).2) := by
  rcases ingestRecord_cases rt normalize t record spine with ⟨-, hturn⟩ | ⟨-, e, hturn⟩
  · rw [hturn, hturn]
  · rw [hturn, hturn, RunCounts.count_fail]

/-- A failure counted before the rest of a batch leaves the rest as it was. -/
theorem foldl_fail (records : List α) (counts : RunCounts) (spine : Spine) :
    let turn := fun (acc : RunCounts × Spine) record =>
      ingestRecord rt normalize (some t) record acc.1 acc.2
    records.foldl turn (counts.fail, spine) =
      ((records.foldl turn (counts, spine)).1.fail, (records.foldl turn (counts, spine)).2) := by
  intro turn
  induction records generalizing counts spine with
  | nil => rfl
  | cons record records ih =>
    rw [List.foldl_cons, List.foldl_cons]
    show records.foldl turn (ingestRecord rt normalize (some t) record counts.fail spine) = _
    rw [ingestRecord_fail]
    exact ih _ _

/-- A record that fails at its turn can be left out: the batch fails once less, and nothing
    else changes. -/
private theorem ingestNangoRecords_of_fails {pre post : List α} {record : α} {spine : Spine}
    (h : RecordFails rt normalize t record
      (ingestNangoRecords rt normalize (some t) pre spine).2) :
    ingestNangoRecords rt normalize (some t) (pre ++ record :: post) spine =
      ((ingestNangoRecords rt normalize (some t) (pre ++ post) spine).1.fail,
        (ingestNangoRecords rt normalize (some t) (pre ++ post) spine).2) := by
  have hturn := ingestRecord_of_none (recordFails_iff.mp h)
    (ingestNangoRecords rt normalize (some t) pre spine).1
    (ingestNangoRecords rt normalize (some t) pre spine).2
  unfold ingestNangoRecords at hturn ⊢
  rw [List.foldl_append, List.foldl_cons, hturn, foldl_fail, List.foldl_append]

/-- **Batch accounting.** For every spine, normalizer and list of records: the counts sum up
    to the number of records; the batch appends as many rows as it counts added and updated
    ones, all of its tenant; it counts as added the entities of the tenant that it gave a
    first row; leaving out a record that fails at its turn changes neither the spine nor any
    other count; and it counts as failed just the records that the normalizer or the schema
    refuses, and none as deleted. -/
theorem batchAccounting (rt : Runtime) (normalize : α → Except JsVal JsVal) (t : ObjectId)
    (records : List α) (spine : Spine) :
    let run := ingestNangoRecords rt normalize (some t) records spine
    run.1.added + run.1.updated + run.1.deleted + run.1.failed + run.1.unchanged =
        records.length ∧
      (∃ rows, run.2 = spine ++ rows ∧ rows.length = run.1.added + run.1.updated ∧
        ∀ r ∈ rows, r.tenantId = t) ∧
      run.1.added = (entities t run.2 \ entities t spine).card ∧
      (∀ pre record post, records = pre ++ record :: post →
        RecordFails rt normalize t record
          (ingestNangoRecords rt normalize (some t) pre spine).2 →
        let rest := ingestNangoRecords rt normalize (some t) (pre ++ post) spine
        run = ({ rest.1 with failed := rest.1.failed + 1 }, rest.2)) ∧
      run.1.failed = records.countP (fun record => (recordCall? rt normalize t record).isNone) ∧
      run.1.deleted = 0 := by
  intro run
  have hbal : Balanced t spine records.length run := balanced_ingestNangoRecords records spine
  refine ⟨hbal.total, hbal.rows, hbal.entities, fun pre record post hrec hfails => ?_,
    ingestNangoRecords_failed records spine⟩
  show ingestNangoRecords rt normalize (some t) records spine = _
  rw [hrec]
  exact ingestNangoRecords_of_fails hfails

/-- A normalizer that throws on `none`, and makes an issue of a title. -/
def issueOfTitle : Option String → Except JsVal JsVal
  | none => .error .null
  | some title => .ok (issueInput title title)

/-- The record in the middle fails, and the issue is still added and then updated. -/
theorem batchAccounting_withFailure :
    let run := ingestNangoRecords plainRuntime issueOfTitle (some tenantA)
      [some "A", none, some "B"] []
    let rest := ingestNangoRecords plainRuntime issueOfTitle (some tenantA)
      [some "A", some "B"] []
    run = ({ rest.1 with failed := rest.1.failed + 1 }, rest.2) := by
  have hfails := (batchAccounting plainRuntime issueOfTitle tenantA
    [some "A", none, some "B"] []).2.2.2.1
  exact hfails [some "A"] none [some "B"] rfl (Or.inl ⟨.null, rfl⟩)

end Shiplog
