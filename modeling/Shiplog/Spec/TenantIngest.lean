import Shiplog.Spec.KeySeparation

/-!
# Ingest of one tenant is independent of the others

The two reads of `ingestEvent` filter by tenant, the upsert filters by the key alone. On a
spine whose rows sit under their own keys, and for a hash without collisions, a row with the
call's key is a row of the call's tenant, so all three operations see the tenant's rows only.

## Key results

- `keyTaken_eq_keyExists`: the index answers what the tenant-scoped check would
- `IngestCall.commit_agree`: a call does the same on two spines that agree on its tenant
- `ingestEvent_tenant_independent`: the statement for `ingestEvent`
-/

namespace Shiplog

/-- On rows under their own keys, the call's key is taken only by rows of its tenant. -/
theorem keyTaken_eq_keyExists {rt : Runtime} (hsha : Function.Injective rt.sha256Hex)
    {spine : Spine} (hown : OwnKeys rt spine) {c : IngestCall}
    (hc : c.row.idempotencyKey = c.row.ownKey rt) : c.keyTaken spine = c.keyExists spine := by
  rw [Bool.eq_iff_iff]
  constructor
  · intro htaken
    obtain ⟨r, hr, hkey⟩ := IngestCall.keyTaken_iff.mp htaken
    have hkeys : r.ownKey rt = c.row.ownKey rt := by rw [← hown r hr, ← hc, hkey]; rfl
    have htenant : r.tenantId = c.tenantId := (Event.ownKey_inj hsha hkeys).1
    simp only [IngestCall.keyExists, List.any_eq_true, Bool.and_eq_true, decide_eq_true_eq]
    exact ⟨r, hr, htenant, hkey⟩
  · exact IngestCall.keyTaken_of_keyExists

/-! ## Spines that agree on a tenant -/

section Agree

variable {t : ObjectId} {spine spine' : Spine}
  (hagree : spine.filter (·.tenantId = t) = spine'.filter (·.tenantId = t))
  {c : IngestCall} (ht : c.tenantId = t)
include hagree ht

private theorem keyExists_agree : c.keyExists spine = c.keyExists spine' := by
  refine List.any_eq_of_agree hagree fun r hr => ?_
  rw [Bool.and_eq_true, decide_eq_true_eq] at hr
  exact decide_eq_true (hr.1.trans ht)

private theorem latest_agree : c.latest spine = c.latest spine' := by
  have hfilter : spine.filter c.sameEntity = spine'.filter c.sameEntity := by
    refine List.filter_eq_of_agree hagree fun r hr => ?_
    simp only [IngestCall.sameEntity, Bool.and_eq_true, decide_eq_true_eq] at hr
    exact decide_eq_true (hr.1.1.trans ht)
  simp only [IngestCall.latest, hfilter]

private theorem classify_agree : c.classify spine = c.classify spine' := by
  simp only [IngestCall.classify, latest_agree hagree ht]

end Agree

/-- Calls that read the same do the same: one answer, and the same rows appended, all of the
    call's tenant. -/
theorem IngestCall.commit_agree {c : IngestCall} {spine spine' : Spine}
    (hexists : c.keyExists spine = c.keyExists spine')
    (hclassify : c.classify spine = c.classify spine')
    (htaken : c.keyTaken spine = c.keyTaken spine') (faults : IngestOp → Option JsVal) :
    ∃ rows, (∀ r ∈ rows, r.tenantId = c.tenantId) ∧
      c.commit faults spine = ((c.commit faults spine').1, spine ++ rows) ∧
      (c.commit faults spine').2 = spine' ++ rows := by
  -- without an append
  have hnone : ∀ res : Except JsVal IngestResult, ∃ rows : List Event,
      (∀ r ∈ rows, r.tenantId = c.tenantId) ∧ (res, spine) = (res, spine ++ rows) ∧
        spine' = spine' ++ rows := fun res =>
    ⟨[], fun r hr => absurd hr List.not_mem_nil, by rw [List.append_nil],
      (List.append_nil _).symm⟩
  simp only [commit, hexists, hclassify, htaken]
  cases faults .exists_ with
  | some err => exact hnone _
  | none =>
    cases c.keyExists spine' with
    | true => exact hnone _
    | false =>
      cases faults .findOne with
      | some err => exact hnone _
      | none =>
        cases c.classify spine' with
        | none => exact hnone _
        | some status =>
          cases faults .updateOne with
          | some err =>
            dsimp only
            cases isDuplicateKey err with
            | true => exact hnone _
            | false => exact hnone _
          | none =>
            cases c.keyTaken spine' with
            | true => exact hnone _
            | false =>
              exact ⟨[c.row], List.forall_mem_singleton.mpr rfl, rfl, rfl⟩

/-- Appended rows of a tenant, seen from the tenant and from the others. -/
private theorem filter_append_own {t : ObjectId} {rows : List Event}
    (h : ∀ r ∈ rows, r.tenantId = t) (spine : Spine) :
    (spine ++ rows).filter (·.tenantId = t) = spine.filter (·.tenantId = t) ++ rows ∧
      (spine ++ rows).filter (·.tenantId ≠ t) = spine.filter (·.tenantId ≠ t) := by
  rw [List.filter_append, List.filter_append]
  constructor
  · rw [List.filter_eq_self.mpr fun r hr => decide_eq_true (h r hr)]
  · have hnone : rows.filter (·.tenantId ≠ t) = [] :=
      List.filter_eq_nil_iff.mpr fun r hr => by simpa using h r hr
    rw [hnone, List.append_nil]

/-- **Independence of the other tenants.** For a collision-free hash and two spines whose rows
    sit under their own keys and that agree on the rows of tenant `t`: `ingestEvent` for `t`
    gives the same answer on both, whatever the input and whichever store calls throw; the
    two spines agree on `t` afterwards; and no row of another tenant has changed. -/
theorem ingestEvent_tenant_independent {rt : Runtime} (hsha : Function.Injective rt.sha256Hex)
    (faults : IngestOp → Option JsVal) (input : JsVal) (t : ObjectId) (spine spine' : Spine)
    (hown : OwnKeys rt spine) (hown' : OwnKeys rt spine')
    (hagree : spine.filter (·.tenantId = t) = spine'.filter (·.tenantId = t)) :
    (ingestEvent rt faults input (some t) spine).1 =
        (ingestEvent rt faults input (some t) spine').1 ∧
      (ingestEvent rt faults input (some t) spine).2.filter (·.tenantId = t) =
        (ingestEvent rt faults input (some t) spine').2.filter (·.tenantId = t) ∧
      (ingestEvent rt faults input (some t) spine).2.filter (·.tenantId ≠ t) =
        spine.filter (·.tenantId ≠ t) ∧
      (ingestEvent rt faults input (some t) spine').2.filter (·.tenantId ≠ t) =
        spine'.filter (·.tenantId ≠ t) := by
  simp only [ingestEvent]
  cases hprep : IngestCall.prepare rt input (some t) with
  | error err => exact ⟨rfl, hagree, rfl, rfl⟩
  | ok c =>
    obtain ⟨t', ev, ht', -, rfl⟩ := IngestCall.prepare_ok hprep
    cases ht'
    have hexists := @keyExists_agree t spine spine' hagree (.ofEvent rt t ev) rfl
    -- the index adds nothing to what the tenant-scoped check answers
    have htaken : (IngestCall.ofEvent rt t ev).keyTaken spine =
        (IngestCall.ofEvent rt t ev).keyTaken spine' := by
      rw [keyTaken_eq_keyExists hsha hown rfl, keyTaken_eq_keyExists hsha hown' rfl, hexists]
    obtain ⟨rows, hrows, hout, hout'⟩ := IngestCall.commit_agree hexists
      (@classify_agree t spine spine' hagree (.ofEvent rt t ev) rfl) htaken faults
    have hrows : ∀ r ∈ rows, r.tenantId = t := hrows
    obtain ⟨hin, hothers⟩ := filter_append_own hrows spine
    obtain ⟨hin', hothers'⟩ := filter_append_own hrows spine'
    dsimp only
    rw [hout, hout']
    exact ⟨rfl, by rw [hin, hin', hagree], hothers, hothers'⟩

/-- A `|` in every free field, and a row of another tenant with the same fields. -/
theorem ingestEvent_tenant_independent_bars :
    (ingestEvent plainRuntime noFaults cutLate.input (some tenantA) []).1 =
        (ingestEvent plainRuntime noFaults cutLate.input (some tenantA)
          [(cutLate.call tenantB).row]).1 ∧
      (ingestEvent plainRuntime noFaults cutLate.input (some tenantA)
        [(cutLate.call tenantB).row]).2 =
          [(cutLate.call tenantB).row, (cutLate.call tenantA).row] := by
  have hown : OwnKeys plainRuntime [(cutLate.call tenantB).row] := List.forall_mem_singleton.mpr rfl
  have h := @ingestEvent_tenant_independent plainRuntime Function.injective_id noFaults
    cutLate.input tenantA [] [(cutLate.call tenantB).row] (fun r hr => absurd hr List.not_mem_nil)
    hown (by decide)
  exact ⟨h.1, by decide +kernel⟩

end Shiplog
