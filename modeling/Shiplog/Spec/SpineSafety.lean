import Shiplog.Spec.IngestCorrect

/-!
# Spine safety under any interleaving

Any number of `ingestEvent` calls run against one spine, one store operation at a time and
in any order, and any operation may throw. The invariant that links half-finished calls to
the rows is `SpineInv` / `CallInv`: keys are unique, and every row and every pending call
carries the key computed from its own fields.

## Key results

- `ingestPool_invariant`: the invariant is kept by every step
- `ingestPool_spine_safe`: no version is stored twice, no row is lost or changed, and the
  calls that reported a change account exactly for the rows inserted
-/

namespace Shiplog

/-- The four fields that identify a source version. -/
def Event.versionId (r : Event) : ObjectId × String × String × String :=
  (r.tenantId, r.source, r.externalId, r.version)

/-- The key computed from a row's own fields. -/
def Event.ownKey (rt : Runtime) (r : Event) : String :=
  Shiplog.idempotencyKey rt r.tenantId.toStr r.source r.externalId r.version

/-- The unique index holds and every row sits under the key of its own fields. -/
structure SpineInv (rt : Runtime) (spine : Spine) : Prop where
  nodup : (spine.map (·.idempotencyKey)).Nodup
  ownKey : ∀ r ∈ spine, r.idempotencyKey = r.ownKey rt

/-- A pending call will write under the key of its own fields. -/
def CallInv (rt : Runtime) (run : IngestRun) : Prop :=
  ∀ c, run.call? = some c → c.row.idempotencyKey = c.row.ownKey rt

/-- The call reported `'added'` or `'updated'`. -/
def IngestRun.reportedChange (run : IngestRun) : Bool :=
  match run.outcome with
  | some (.ok res) => res.status ≠ .unchanged
  | _ => false

/-- Appending a row under its own, free key keeps the index. -/
theorem SpineInv.append {rt : Runtime} {spine : Spine} (h : SpineInv rt spine) {c : IngestCall}
    (hown : c.row.idempotencyKey = c.row.ownKey rt) (hfree : c.keyTaken spine = false) :
    SpineInv rt (spine ++ [c.row]) where
  nodup := by
    rw [List.map_append, List.map_singleton]
    refine List.nodup_append.mpr ⟨h.nodup, List.nodup_singleton _, fun k hk k' hk' heq => ?_⟩
    obtain ⟨r, hr, hrk⟩ := List.mem_map.mp hk
    -- a row under the new key would have made the upsert match it
    have htaken : c.keyTaken spine = true := by
      rw [IngestCall.keyTaken_iff]
      rw [List.mem_singleton] at hk'
      exact ⟨r, hr, by rw [hrk, heq, hk']; rfl⟩
    rw [hfree] at htaken
    exact nomatch htaken
  ownKey := List.forall_mem_concat h.ownKey hown

/-- Under the invariant, two rows of the same source version are one row. -/
theorem SpineInv.versionId_nodup {rt : Runtime} {spine : Spine} (h : SpineInv rt spine) :
    (spine.map Event.versionId).Nodup := by
  have hkey : ∀ r ∈ spine, ∀ r' ∈ spine, r.versionId = r'.versionId → r = r' := by
    intro r hr r' hr' heq
    -- equal fields give equal keys, and the index holds a key once
    simp only [Event.versionId, Prod.mk.injEq] at heq
    obtain ⟨ht, hs, he, hv⟩ := heq
    have hk : r.idempotencyKey = r'.idempotencyKey := by
      rw [h.ownKey r hr, h.ownKey r' hr', Event.ownKey, Event.ownKey, ht, hs, he, hv]
    exact List.inj_on_of_nodup_map h.nodup hr hr' hk
  exact (List.nodup_map_iff_inj_on h.nodup.of_map).mpr hkey

/-- Every step of every call keeps the invariant. -/
theorem ingestPool_invariant (rt : Runtime) :
    (ingestPool rt).Invariant (SpineInv rt) (fun _ run => CallInv rt run) where
  step := by
    intro run spine run' spine' new hI hL hstep
    obtain ⟨hs, rfl⟩ := hstep
    -- a call carries the key its prologue computed
    have hcall : CallInv rt run' := by
      intro c hc
      rcases hs.call hc with h | ⟨args, -, hprep⟩
      · exact hL c h
      · obtain ⟨tid, ev, -, -, rfl⟩ := IngestCall.prepare_ok hprep
        rfl
    refine ⟨?_, hcall, fun q hq => absurd hq List.not_mem_nil, fun q hq => hq⟩
    -- the spine changes by the append of a free key only
    rcases hs.cases.2 with ⟨rfl, -⟩ | ⟨c, status, rfl, hfree, -, rfl⟩
    · exact hI
    · exact hI.append (hL c rfl) hfree
  env := fun _ h => h.elim

/-- A step only ever extends the spine. -/
theorem IngestRun.Step.grows {rt : Runtime} {run run' : IngestRun} {spine spine' : Spine}
    (h : IngestRun.Step rt run spine run' spine') : spine <+: spine' := by
  rcases h.cases.2 with ⟨rfl, -⟩ | ⟨c, status, -, -, -, rfl⟩
  · exact List.prefix_refl _
  · exact List.prefix_append _ _

/-- A step inserts a row exactly when it makes its call report a change. -/
private theorem IngestRun.Step.reported {rt : Runtime} {run run' : IngestRun} {spine spine' : Spine}
    (h : IngestRun.Step rt run spine run' spine') :
    spine'.length + run.reportedChange.toNat = spine.length + run'.reportedChange.toNat := by
  obtain ⟨hnone, hcases⟩ := h.cases
  have hrun : run.reportedChange = false := by simp [reportedChange, hnone]
  rcases hcases with ⟨rfl, hres⟩ | ⟨c, status, -, -, rfl, rfl⟩
  · have hrun' : run'.reportedChange = false := by
      simp only [reportedChange]
      split
      · next res hout => simpa using hres res hout
      · rfl
    rw [hrun, hrun']
  · have hrun' : (IngestRun.finished (.ok (c.result status))).reportedChange = true := by
      simpa [reportedChange, outcome, IngestCall.result] using status.2
    rw [hrun, hrun', List.length_append]
    simp

/-- **Spine safety.** From a spine with unique keys in which each row's key is its own,
    whatever calls run concurrently and whatever steps throw, every state reached has no
    two rows of the same source version, still has every row of every earlier state
    unchanged, and has exactly one new row for each call that reported a change. -/
theorem ingestPool_spine_safe (rt : Runtime) (s₀ : Spine) (calls : List IngestArgs)
    (hkeys : (s₀.map (·.idempotencyKey)).Nodup)
    (hown : ∀ r ∈ s₀, r.idempotencyKey = r.ownKey rt)
    (runs : List IngestRun) (s : Spine)
    (h : (ingestPool rt).Reaches (calls.map .called, s₀) (runs, s)) :
    (s.map Event.versionId).Nodup ∧
    (∀ runs₁ s₁, (ingestPool rt).Reaches (calls.map .called, s₀) (runs₁, s₁) →
      (ingestPool rt).Reaches (runs₁, s₁) (runs, s) → s₁ <+: s) ∧
    s₀.length + runs.countP IngestRun.reportedChange = s.length := by
  have hcalls : ∀ run ∈ calls.map IngestRun.called, CallInv rt run := by
    intro run hrun c hc
    obtain ⟨args, -, rfl⟩ := List.mem_map.mp hrun
    exact nomatch hc
  have hinv := (ingestPool_invariant rt).reaches h ⟨hkeys, hown⟩ hcalls
  refine ⟨hinv.1.versionId_nodup, fun runs₁ s₁ _ h₁ => ?_, ?_⟩
  · exact h₁.rely List.prefix_refl (fun _ _ _ => List.IsPrefix.trans)
      (fun _ _ _ _ _ hs => hs.1.grows) (fun _ _ _ he => he.elim)
  · -- the length of the spine is accounted for call by call
    have hbal := h.balance (f := fun run => run.reportedChange.toNat) (g := List.length)
      (fun _ _ _ _ _ hs => by simpa [hs.2] using hs.1.reported) (fun _ _ _ he => he.elim)
    rw [List.sum_map_toNat, List.sum_map_toNat] at hbal
    have hzero : (calls.map IngestRun.called).countP IngestRun.reportedChange = 0 := by
      rw [List.countP_eq_zero]
      intro run hrun
      obtain ⟨args, -, rfl⟩ := List.mem_map.mp hrun
      exact Bool.false_ne_true
    simp only [hzero] at hbal
    exact hbal.symm

/-- Two calls of one version, scheduled so that both pass both reads before either
    upserts. -/
def duplicateRace : List IngestRun × Spine :=
  Pool.runSchedule (fun run _ => run.live) (IngestRun.next plainRuntime) [0, 1, 0, 1, 0, 1, 0, 1]
    ([⟨issueInput "v1" "A", some tenantA⟩, ⟨issueInput "v1" "A", some tenantA⟩].map .called, [])

/-- The second upsert of the race finds the key and reports no change. -/
theorem ingestPool_spine_safe_race :
    duplicateRace.2.length = 1 ∧ (duplicateRace.2.map Event.versionId).Nodup ∧
      duplicateRace.1.countP IngestRun.reportedChange = 1 := by
  have hlen : duplicateRace.2.length = 1 := by decide
  obtain ⟨hids, -, hcount⟩ := ingestPool_spine_safe plainRuntime []
    [⟨issueInput "v1" "A", some tenantA⟩, ⟨issueInput "v1" "A", some tenantA⟩]
    List.nodup_nil (fun r hr => absurd hr List.not_mem_nil) duplicateRace.1 duplicateRace.2
    (ingestPool_reaches_runSchedule plainRuntime _ _)
  rw [List.length_nil, Nat.zero_add, hlen] at hcount
  exact ⟨hlen, hids, hcount⟩

end Shiplog
