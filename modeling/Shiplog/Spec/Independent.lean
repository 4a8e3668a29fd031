import Shiplog.Spec.BatchAccounting

/-!
# Records that do not get in each other's way

What a call of `ingestEvent` appends depends on the rows of its entity and on the row under its
key. So where no two calls are about one entity or have one key, the rows that a batch appends
do not depend on the order of its records, nor on how often one of them is repeated.

## Key results

- `IngestCall.Independent`: calls that neither read nor match each other's rows
- `appends_rows_iff`: a call among independent ones appends what it would at the start, once
- `ingestNangoRecords_rows`: the rows of a batch
- `ingestNangoRecords_perm`: batches with the same calls
-/

namespace Shiplog

/-! ## Calls -/

namespace IngestCall

/-- The calls are about two entities, and have two keys. -/
def Independent (c c' : IngestCall) : Prop :=
  c.sameEntity c'.row = false ∧ c.idemKey ≠ c'.idemKey

instance (c c' : IngestCall) : Decidable (c.Independent c') :=
  inferInstanceAs (Decidable (_ ∧ _))

variable {c x : IngestCall}

instance : Std.Symm IngestCall.Independent where
  symm c x h := by
    refine ⟨?_, h.2.symm⟩
    rw [← Bool.not_eq_true]
    exact fun hsame => Bool.false_ne_true (h.1.symm.trans (sameEntity_symm hsame))

/-- A call finds its key and its entity's latest row as they were before the other one's row. -/
theorem Independent.keyTaken (h : c.Independent x) (spine : Spine) :
    c.keyTaken (spine ++ [x.row]) = c.keyTaken spine := by
  have hkey : decide (x.row.idempotencyKey = c.idemKey) = false :=
    decide_eq_false fun heq => h.2 heq.symm
  rw [keyTaken_append, hkey, Bool.or_false]

theorem Independent.classify (h : c.Independent x) (spine : Spine) :
    c.classify (spine ++ [x.row]) = c.classify spine := by
  simp only [IngestCall.classify, latest_append_of_ne h.1]

theorem Independent.appends (h : c.Independent x) (spine : Spine) :
    c.appends (spine ++ [x.row]) = c.appends spine := by
  simp only [IngestCall.appends, h.keyTaken, h.classify]

/-- A call appends its row behind the rows of independent calls exactly if it would have
    appended it before them and has not yet. -/
theorem appends_rows_iff {calls : List IngestCall}
    (h : ∀ x ∈ calls, c ≠ x → c.Independent x) (start : Spine) :
    c.appends (start ++ calls.map row) = true ↔ c ∉ calls ∧ c.appends start = true := by
  induction calls using List.reverseRecOn with
  | nil => simp
  | append_singleton calls x ih =>
    have hbefore := ih fun y hy => h y (List.mem_append_left _ hy)
    rw [List.map_append, List.map_singleton, ← List.append_assoc]
    by_cases heq : c = x
    · -- its row is the last one, and has its key
      subst heq
      have hno : c.appends (start ++ calls.map row ++ [c.row]) = false := by
        refine appends_eq_false.mpr (Or.inl ?_)
        rw [keyTaken_append, row, decide_eq_true rfl, Bool.or_true]
      rw [hno]
      simp
    · rw [(h x List.mem_concat_self heq).appends, hbefore, List.mem_append, List.mem_singleton]
      simp [heq]

end IngestCall

/-! ## The calls of a list of records -/

section Records

variable {α : Type} {rt : Runtime} {normalize : α → Except JsVal JsVal} {t : ObjectId}

/-- The calls the records come to. -/
def callsOf (rt : Runtime) (normalize : α → Except JsVal JsVal) (t : ObjectId)
    (records : List α) : Set IngestCall :=
  {c | ∃ record ∈ records, recordCall? rt normalize t record = some c}

/-- It is enough to compare the calls of different places of the list. -/
theorem callsOf_pairwise {records : List α}
    (h : (records.filterMap (recordCall? rt normalize t)).Pairwise IngestCall.Independent) :
    (callsOf rt normalize t records).Pairwise IngestCall.Independent := by
  rintro c ⟨record, hrecord, hc⟩ c' ⟨record', hrecord', hc'⟩ hne
  exact h.forall (List.mem_filterMap.mpr ⟨record, hrecord, hc⟩)
    (List.mem_filterMap.mpr ⟨record', hrecord', hc'⟩) hne

/-- One more record adds its call, if it has one. -/
private theorem mem_callsOf_concat {records : List α} {record : α} {c : IngestCall} :
    c ∈ callsOf rt normalize t (records ++ [record]) ↔
      c ∈ callsOf rt normalize t records ∨ recordCall? rt normalize t record = some c := by
  show (∃ r ∈ records ++ [record], _) ↔ (∃ r ∈ records, _) ∨ _
  simp only [List.mem_append, List.mem_singleton, or_and_right, exists_or, exists_eq_left]

/-! ## Independent records -/

/-- **The rows of a batch** of records with independent calls: of every call that appends at
    the start, one. -/
theorem ingestNangoRecords_rows {records : List α}
    (h : (callsOf rt normalize t records).Pairwise IngestCall.Independent) (start : Spine) :
    ∃ calls : List IngestCall, calls.Nodup ∧
      (∀ c, c ∈ calls ↔ c ∈ callsOf rt normalize t records ∧ c.appends start = true) ∧
      (ingestNangoRecords rt normalize (some t) records start).2 =
        start ++ calls.map IngestCall.row := by
  induction records using List.reverseRecOn with
  | nil =>
    refine ⟨[], .nil, fun c => ⟨fun hc => absurd hc List.not_mem_nil, ?_⟩, (List.append_nil _).symm⟩
    rintro ⟨⟨record, hrecord, -⟩, -⟩
    exact absurd hrecord List.not_mem_nil
  | append_singleton records record ih =>
    have hsub : callsOf rt normalize t records ⊆ callsOf rt normalize t (records ++ [record]) :=
      fun c hc => mem_callsOf_concat.mpr (Or.inl hc)
    obtain ⟨calls, hnodup, hcalls, hspine⟩ := ih (h.mono hsub)
    rw [ingestNangoRecords_concat, hspine]
    cases hcall : recordCall? rt normalize t record with
    | none =>
      rw [ingestRecord_of_none hcall]
      refine ⟨calls, hnodup, fun c => ?_, rfl⟩
      rw [hcalls, mem_callsOf_concat, hcall]
      simp
    | some x =>
      have hx : x ∈ callsOf rt normalize t (records ++ [record]) :=
        mem_callsOf_concat.mpr (Or.inr hcall)
      have happends := @IngestCall.appends_rows_iff x calls
        (fun y hy hne => h hx (hsub ((hcalls y).mp hy).1) hne) start
      rw [ingestRecord_of_some hcall]
      cases happ : x.appends (start ++ calls.map IngestCall.row) with
      | true =>
        -- its row is new
        obtain ⟨hnew, hstart⟩ := happends.mp happ
        refine ⟨calls ++ [x], List.nodup_append.mpr ⟨hnodup, List.nodup_singleton x, ?_⟩,
          fun c => ?_, ?_⟩
        · rintro y hy z hz rfl
          exact hnew (List.mem_singleton.mp hz ▸ hy)
        · rw [List.mem_append, List.mem_singleton, hcalls, mem_callsOf_concat, hcall,
            Option.some.injEq]
          constructor
          · rintro (⟨hc, hcstart⟩ | rfl)
            · exact ⟨Or.inl hc, hcstart⟩
            · exact ⟨Or.inr rfl, hstart⟩
          · rintro ⟨hc | rfl, hcstart⟩
            · exact Or.inl ⟨hc, hcstart⟩
            · exact Or.inr rfl
        · simp only [if_true, List.map_append, List.map_singleton, List.append_assoc]
      | false =>
        -- its row is there already, or was not wanted at the start
        refine ⟨calls, hnodup, fun c => ?_, by simp⟩
        rw [hcalls, mem_callsOf_concat, hcall, Option.some.injEq]
        constructor
        · exact fun ⟨hc, hcstart⟩ => ⟨Or.inl hc, hcstart⟩
        · rintro ⟨hc | rfl, hcstart⟩
          · exact ⟨hc, hcstart⟩
          · refine (hcalls x).mp ?_
            by_contra hnot
            rw [happends.mpr ⟨hnot, hcstart⟩] at happ
            cases happ

/-- **Batches with the same calls**, independent of each other, end with the same rows and
    count as many of them as added and as updated, however the records are ordered and
    repeated. -/
theorem ingestNangoRecords_perm {records records' : List α}
    (h : (callsOf rt normalize t records).Pairwise IngestCall.Independent)
    (hsame : callsOf rt normalize t records' = callsOf rt normalize t records) (start : Spine) :
    let batch := ingestNangoRecords rt normalize (some t) records start
    let batch' := ingestNangoRecords rt normalize (some t) records' start
    batch'.2.Perm batch.2 ∧ batch'.1.added = batch.1.added ∧
      batch'.1.updated = batch.1.updated := by
  intro batch batch'
  have hperm : batch'.2.Perm batch.2 := by
    obtain ⟨calls, hnodup, hcalls, hspine⟩ := ingestNangoRecords_rows h start
    obtain ⟨calls', hnodup', hcalls', hspine'⟩ := ingestNangoRecords_rows (hsame ▸ h) start
    have hlists : calls'.Perm calls := (List.perm_ext_iff_of_nodup hnodup' hnodup).mpr fun c => by
      rw [hcalls, hcalls', hsame]
    show List.Perm (ingestNangoRecords _ _ _ records' start).2
      (ingestNangoRecords _ _ _ records start).2
    rw [hspine, hspine']
    exact (hlists.map _).append_left start
  -- the two counts are counts of what is new in the spine
  have hbal : Balanced t start records.length batch := balanced_ingestNangoRecords records start
  have hbal' : Balanced t start records'.length batch' := balanced_ingestNangoRecords records' start
  have hentities : entities t batch'.2 = entities t batch.2 := by
    ext entity
    simp only [mem_entities, hperm.mem_iff]
  have hadded : batch'.1.added = batch.1.added := by
    rw [hbal.entities, hbal'.entities, hentities]
  refine ⟨hperm, hadded, ?_⟩
  obtain ⟨rows, hrows, hlen, -⟩ := hbal.rows
  obtain ⟨rows', hrows', hlen', -⟩ := hbal'.rows
  have hlength := hperm.length_eq
  rw [hrows, hrows', List.length_append, List.length_append] at hlength
  omega

end Records

end Shiplog
