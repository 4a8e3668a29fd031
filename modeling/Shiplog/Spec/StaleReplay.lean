import Shiplog.Spec.IngestCorrect

/-!
# Stale replays

One entity, the versions of it a source ever had, and deliveries of them in any order. The
current state of the entity is the stored row with the greatest version. Suppression
compares a version with the row inserted last, which after a stale replay is not that row;
`OutOfStep` is the delivery after which the current state is no longer the newest content
delivered.

## Key results

- `rows_eq`: the entity's rows are the rows of delivered versions
- `isGreatest_append_of_gt` / `isGreatest_append_of_lt`: what one appended row does to the
  greatest stored version
- `current_concat`: a delivery that is in step keeps the current state current
- `staleReplay_iff`: along a run of deliveries the current state is always the newest
  content delivered exactly when no delivery is out of step
-/

namespace Shiplog

/-- The versions a source ever had of one entity: they share the source, the external id
    and the creation time, and their version tokens are distinct. -/
structure EntityHistory (rt : Runtime) (V : Type) where
  versions : V → ValidInput rt
  source : String
  externalId : String
  occurredAt : Int
  source_eq : ∀ v, (versions v).ev.source = source
  externalId_eq : ∀ v, (versions v).ev.externalId = externalId
  occurredAt_eq : ∀ v, (versions v).ev.occurredAt = occurredAt
  version_inj : ∀ v w, (versions v).ev.version = (versions w).ev.version → v = w

namespace EntityHistory

variable {rt : Runtime} {V : Type} (H : EntityHistory rt V) (tenantId : ObjectId)

/-- The call that ingests a version. -/
def call (v : V) : IngestCall := (H.versions v).call tenantId

/-- Deliver versions one after another. -/
def deliver (ds : List V) (spine : Spine) : Spine :=
  ValidInput.ingestAll tenantId (ds.map H.versions) spine

/-- A row is of the entity. -/
def OfEntity (r : Event) : Prop :=
  r.tenantId = tenantId ∧ r.source = H.source ∧ r.externalId = H.externalId

/-- A row holds this version of the entity. -/
def Holds (v : V) (r : Event) : Prop :=
  H.OfEntity tenantId r ∧ r.version = (H.versions v).ev.version

/-- The spine has a row for this version. -/
def Stored (spine : Spine) (v : V) : Prop := ∃ r ∈ spine, H.Holds tenantId v r

theorem sameEntity_iff (v : V) (r : Event) :
    (H.call tenantId v).sameEntity r = true ↔ H.OfEntity tenantId r := by
  unfold IngestCall.sameEntity
  rw [Bool.and_eq_true, Bool.and_eq_true, decide_eq_true_iff, decide_eq_true_iff,
    decide_eq_true_iff, and_assoc]
  show r.tenantId = tenantId ∧ r.source = (H.versions v).ev.source ∧
    r.externalId = (H.versions v).ev.externalId ↔ _
  rw [H.source_eq, H.externalId_eq]
  exact Iff.rfl

theorem holds_row (v : V) : H.Holds tenantId v (H.call tenantId v).row :=
  ⟨(H.sameEntity_iff tenantId v _).mp (IngestCall.sameEntity_row _), rfl⟩

/-- Delivering one more version. -/
private theorem deliver_concat (ds : List V) (x : V) (spine : Spine) :
    H.deliver tenantId (ds ++ [x]) spine =
      if (H.call tenantId x).appends (H.deliver tenantId ds spine) then
        H.deliver tenantId ds spine ++ [(H.call tenantId x).row]
      else H.deliver tenantId ds spine := by
  unfold deliver
  rw [List.map_append, List.map_singleton, ValidInput.ingestAll_concat]
  rfl

/-- Starting without rows of the entity, its rows are the rows of delivered versions. -/
theorem rows_eq {s₀ : Spine} (hs₀ : ∀ r ∈ s₀, ¬ H.OfEntity tenantId r) (ds : List V) :
    ∀ r ∈ H.deliver tenantId ds s₀, H.OfEntity tenantId r →
      ∃ v ∈ ds, r = (H.call tenantId v).row := by
  induction ds using List.reverseRecOn with
  | nil => exact fun r hr hent => absurd hent (hs₀ r hr)
  | append_singleton ds x ih =>
    intro r hr hent
    have hold : r ∈ H.deliver tenantId ds s₀ → ∃ v ∈ ds ++ [x], r = (H.call tenantId v).row := by
      intro hmem
      obtain ⟨v, hv, heq⟩ := ih r hmem hent
      exact ⟨v, List.mem_append_left _ hv, heq⟩
    rw [deliver_concat] at hr
    split at hr
    · cases List.mem_append.mp hr with
      | inl hr => exact hold hr
      | inr hr =>
        exact ⟨x, List.mem_concat_self, List.mem_singleton.mp hr⟩
    · exact hold hr

/-- So a stored version was delivered, and its rows are its own. -/
private theorem eq_row_of_holds {s₀ : Spine} (hs₀ : ∀ r ∈ s₀, ¬ H.OfEntity tenantId r) {ds : List V}
    {r : Event} (hr : r ∈ H.deliver tenantId ds s₀) {v : V} (hv : H.Holds tenantId v r) :
    v ∈ ds ∧ r = (H.call tenantId v).row := by
  obtain ⟨w, hw, rfl⟩ := H.rows_eq tenantId hs₀ ds r hr hv.1
  have hwv : w = v := H.version_inj w v hv.2
  rw [← hwv]
  exact ⟨hw, rfl⟩

private theorem mem_of_stored {s₀ : Spine} (hs₀ : ∀ r ∈ s₀, ¬ H.OfEntity tenantId r) {ds : List V}
    {v : V} (h : H.Stored tenantId (H.deliver tenantId ds s₀) v) : v ∈ ds := by
  obtain ⟨r, hr, hv⟩ := h
  exact (H.eq_row_of_holds tenantId hs₀ hr hv).1

private theorem stored_append (spine : Spine) (x v : V) :
    H.Stored tenantId (spine ++ [(H.call tenantId x).row]) v ↔
      H.Stored tenantId spine v ∨ v = x := by
  constructor
  · intro ⟨r, hr, hv⟩
    cases List.mem_append.mp hr with
    | inl hr => exact Or.inl ⟨r, hr, hv⟩
    | inr hr =>
      rw [List.mem_singleton] at hr
      subst hr
      exact Or.inr (H.version_inj x v hv.2).symm
  · intro h
    rcases h with ⟨r, hr, hv⟩ | rfl
    · exact ⟨r, List.mem_append_left _ hr, hv⟩
    · exact ⟨_, List.mem_concat_self, H.holds_row tenantId v⟩

/-- A stored version's key is in the index, so it is never appended again. -/
private theorem not_stored_of_appends {s₀ : Spine} (hs₀ : ∀ r ∈ s₀, ¬ H.OfEntity tenantId r)
    {ds : List V} {x : V}
    (happ : (H.call tenantId x).appends (H.deliver tenantId ds s₀) = true) :
    ¬ H.Stored tenantId (H.deliver tenantId ds s₀) x := by
  intro ⟨r, hr, hx⟩
  have hrow := (H.eq_row_of_holds tenantId hs₀ hr hx).2
  have htaken : (H.call tenantId x).keyTaken (H.deliver tenantId ds s₀) = true :=
    IngestCall.keyTaken_iff.mpr ⟨r, hr, by rw [hrow]; rfl⟩
  rw [(IngestCall.appends_eq_true.mp happ).1] at htaken
  exact nomatch htaken

/-- A version is held back: a row is under its key, or the entity's row inserted last has its
    content. -/
def HeldBack (spine : Spine) (x : V) : Prop :=
  (H.call tenantId x).keyTaken spine = true ∨
    ∃ r, (H.call tenantId x).latest spine = some r ∧ r.contentHash = (H.call tenantId x).cHash

theorem heldBack_iff {spine : Spine} {x : V} :
    H.HeldBack tenantId spine x ↔ (H.call tenantId x).appends spine = false :=
  IngestCall.appends_eq_false.symm

section Order

variable [LinearOrder V]

/-- The stored row of the entity with the greatest version has the content hash `hash`. -/
def GreatestHash (spine : Spine) (hash : String) : Prop :=
  ∃ v, IsGreatest {v | H.Stored tenantId spine v} v ∧
    ∀ r ∈ spine, H.Holds tenantId v r → r.contentHash = hash

/-- The rows of the greatest stored version carry its content. -/
private theorem greatestHash_iff {s₀ : Spine} (hs₀ : ∀ r ∈ s₀, ¬ H.OfEntity tenantId r)
    {ds : List V} {hash : String} :
    H.GreatestHash tenantId (H.deliver tenantId ds s₀) hash ↔
      ∃ v, IsGreatest {v | H.Stored tenantId (H.deliver tenantId ds s₀) v} v ∧
        (H.call tenantId v).cHash = hash := by
  constructor
  · intro ⟨v, hv, hrow⟩
    obtain ⟨r, hr, hhold⟩ := hv.1
    have hhash := hrow r hr hhold
    rw [(H.eq_row_of_holds tenantId hs₀ hr hhold).2] at hhash
    exact ⟨v, hv, hhash⟩
  · intro ⟨v, hv, hhash⟩
    refine ⟨v, hv, fun r hr hhold => ?_⟩
    rw [(H.eq_row_of_holds tenantId hs₀ hr hhold).2]
    exact hhash

/-- A version above everything stored becomes the greatest one. -/
theorem isGreatest_append_of_gt {spine : Spine} {x : V}
    (h : ∀ v, H.Stored tenantId spine v → v < x) :
    IsGreatest {v | H.Stored tenantId (spine ++ [(H.call tenantId x).row]) v} x := by
  constructor
  · exact (H.stored_append tenantId spine x x).mpr (Or.inr rfl)
  · intro v hv
    rcases (H.stored_append tenantId spine x v).mp hv with hv | rfl
    · exact (h v hv).le
    · exact le_refl v

/-- A version below the greatest stored one leaves it the greatest. -/
theorem isGreatest_append_of_lt {spine : Spine} {x g : V}
    (hg : IsGreatest {v | H.Stored tenantId spine v} g) (h : x < g) :
    IsGreatest {v | H.Stored tenantId (spine ++ [(H.call tenantId x).row]) v} g := by
  constructor
  · exact (H.stored_append tenantId spine x g).mpr (Or.inl hg.1)
  · intro v hv
    rcases (H.stored_append tenantId spine x v).mp hv with hv | rfl
    · exact hg.2 hv
    · exact h.le

/-- A delivery puts the entity's current state out of step with the newest delivered
    version: a version newer than all others is held back although the greatest stored
    version has other content, or a version older than the newest delivered one is appended
    above everything stored, with other content than that one. -/
def OutOfStep (s₀ : Spine) (pre : List V) (x : V) : Prop :=
  ((∀ v ∈ pre, v < x) ∧ H.HeldBack tenantId (H.deliver tenantId pre s₀) x ∧
    ∀ g, IsGreatest {v | H.Stored tenantId (H.deliver tenantId pre s₀) v} g →
      (H.call tenantId g).cHash ≠ (H.call tenantId x).cHash) ∨
  ((H.call tenantId x).appends (H.deliver tenantId pre s₀) = true ∧
    (∀ v, H.Stored tenantId (H.deliver tenantId pre s₀) v → v < x) ∧
    ∃ m, IsGreatest {v | v ∈ pre} m ∧ x < m ∧
      (H.call tenantId x).cHash ≠ (H.call tenantId m).cHash)

/-- The greatest stored row has the content of the greatest delivered version. -/
def Current (s₀ : Spine) (ds : List V) : Prop :=
  ∀ m, IsGreatest {v | v ∈ ds} m →
    H.GreatestHash tenantId (H.deliver tenantId ds s₀) (H.call tenantId m).cHash

/-- The greatest delivered version after one more delivery. -/
private theorem isGreatest_concat {pre : List V} {x m : V} (h : IsGreatest {v | v ∈ pre ++ [x]} m) :
    m = x ∧ (∀ v ∈ pre, v ≤ x) ∨ IsGreatest {v | v ∈ pre} m ∧ x < m := by
  have hle : ∀ v ∈ pre, v ≤ m := fun v hv => h.2 (List.mem_append_left _ hv)
  have hxm : x ≤ m := h.2 (List.mem_concat_self)
  cases hxm.eq_or_lt with
  | inl heq => exact Or.inl ⟨heq.symm, fun v hv => heq ▸ hle v hv⟩
  | inr hlt =>
    right
    have hm : m ∈ pre := by
      cases List.mem_append.mp h.1 with
      | inl hm => exact hm
      | inr hm => exact absurd (List.mem_singleton.mp hm) hlt.ne'
    exact ⟨⟨hm, hle⟩, hlt⟩

/-- A delivery that is in step keeps the current state current. -/
theorem current_concat {s₀ : Spine} (hs₀ : ∀ r ∈ s₀, ¬ H.OfEntity tenantId r) {pre : List V}
    {x : V} (hcur : H.Current tenantId s₀ pre) (h : ¬ H.OutOfStep tenantId s₀ pre x) :
    H.Current tenantId s₀ (pre ++ [x]) := by
  intro m hm
  rw [H.greatestHash_iff tenantId hs₀, deliver_concat]
  by_cases happ : (H.call tenantId x).appends (H.deliver tenantId pre s₀) = true
  · rw [if_pos happ]
    rcases isGreatest_concat hm with ⟨rfl, hle⟩ | ⟨hm', hlt⟩
    · -- the newest version is appended: it is above everything stored
      have hgt : ∀ v, H.Stored tenantId (H.deliver tenantId pre s₀) v → v < m := by
        intro v hv
        have hvm := hle v (H.mem_of_stored tenantId hs₀ hv)
        refine lt_of_le_of_ne hvm fun heq => ?_
        exact H.not_stored_of_appends tenantId hs₀ happ (heq ▸ hv)
      exact ⟨m, H.isGreatest_append_of_gt tenantId hgt, rfl⟩
    · -- an older version is appended below or above the greatest stored one
      obtain ⟨g, hg, hhash⟩ := (H.greatestHash_iff tenantId hs₀).mp (hcur m hm')
      rcases lt_trichotomy x g with hxg | rfl | hgx
      · exact ⟨g, H.isGreatest_append_of_lt tenantId hg hxg, hhash⟩
      · exact absurd hg.1 (H.not_stored_of_appends tenantId hs₀ happ)
      · have hgt : ∀ v, H.Stored tenantId (H.deliver tenantId pre s₀) v → v < x :=
          fun v hv => lt_of_le_of_lt (hg.2 hv) hgx
        refine ⟨x, H.isGreatest_append_of_gt tenantId hgt, ?_⟩
        by_contra hne
        exact h (Or.inr ⟨happ, hgt, m, hm', hlt, hne⟩)
  · rw [if_neg happ, ← H.greatestHash_iff tenantId hs₀]
    rcases isGreatest_concat hm with ⟨rfl, hle⟩ | ⟨hm', -⟩
    · by_cases hmem : m ∈ pre
      · -- a repetition of the newest version
        exact hcur m ⟨hmem, hle⟩
      · -- the newest version is suppressed below other content: out of step
        by_contra hne
        have hlt : ∀ v ∈ pre, v < m :=
          fun v hv => lt_of_le_of_ne (hle v hv) fun heq => hmem (heq ▸ hv)
        refine h (Or.inl ⟨hlt, (H.heldBack_iff tenantId).mpr (by simpa using happ), ?_⟩)
        intro g hg hhash
        exact hne ((H.greatestHash_iff tenantId hs₀).mpr ⟨g, hg, hhash⟩)
    · -- an older version is suppressed: nothing has changed
      exact hcur m hm'

/-- **Stale replays.** Along a run of deliveries into a spine without rows of the entity,
    the greatest stored version always carries the content of the greatest version
    delivered so far, if and only if no delivery is out of step. -/
theorem staleReplay_iff {s₀ : Spine} (hs₀ : ∀ r ∈ s₀, ¬ H.OfEntity tenantId r) (ds : List V) :
    (∀ pre, pre <+: ds → H.Current tenantId s₀ pre) ↔
      ∀ pre x, pre ++ [x] <+: ds → ¬ H.OutOfStep tenantId s₀ pre x := by
  constructor
  · -- a delivery out of step is seen in the state right after it
    intro h pre x hpre hout
    have hafter := h (pre ++ [x]) hpre
    rcases hout with ⟨hlt, hno, hne⟩ | ⟨happ, hgt, m, hm, hxm, hne⟩
    · have hm : IsGreatest {v | v ∈ pre ++ [x]} x := by
        have hle : ∀ v ∈ pre, v ≤ x := fun v hv => (hlt v hv).le
        exact ⟨List.mem_concat_self, List.forall_mem_concat hle (le_refl x)⟩
      obtain ⟨g, hg, hhash⟩ := (H.greatestHash_iff tenantId hs₀).mp (hafter x hm)
      rw [deliver_concat, (H.heldBack_iff tenantId).mp hno] at hg
      exact hne g hg hhash
    · have hm' : IsGreatest {v | v ∈ pre ++ [x]} m := by
        have hle : ∀ v ∈ pre, v ≤ m := fun v hv => hm.2 hv
        exact ⟨List.mem_append_left _ hm.1, List.forall_mem_concat hle hxm.le⟩
      obtain ⟨g, hg, hhash⟩ := (H.greatestHash_iff tenantId hs₀).mp (hafter m hm')
      rw [deliver_concat, if_pos happ] at hg
      have hgx : g = x := hg.unique (H.isGreatest_append_of_gt tenantId hgt)
      exact hne (hgx ▸ hhash)
  · intro h pre
    -- each prefix is its last delivery after a shorter prefix
    induction pre using List.reverseRecOn with
    | nil => exact fun _ m hm => absurd hm.1 List.not_mem_nil
    | append_singleton pre x ih =>
      intro hpre
      exact H.current_concat tenantId hs₀ (ih ((List.prefix_append _ _).trans hpre))
        (h pre x hpre)

end Order

end EntityHistory

/-! ## A history whose content comes back -/

/-- Three versions of one issue: `"A"`, then `"B"`, then `"A"` again. -/
def renamedBack : EntityHistory plainRuntime (Fin 3) where
  versions
    | 0 => issueVersion "v1" "A"
    | 1 => issueVersion "v2" "B"
    | 2 => issueVersion "v3" "A"
  source := "github"
  externalId := "issue:1"
  occurredAt := 0
  source_eq := by decide +kernel
  externalId_eq := by decide +kernel
  occurredAt_eq := by decide +kernel
  version_inj := by decide +kernel

/-- The rows of another tenant's issue leave the run of this one as the theorem has it. -/
theorem staleReplay_iff_renamedBack :
    (∀ pre, pre <+: [0, 1, 2, 0] →
      renamedBack.Current tenantA [(renamedBack.call tenantB 0).row] pre) ↔
    ∀ pre x, pre ++ [x] <+: [0, 1, 2, 0] →
      ¬ renamedBack.OutOfStep tenantA [(renamedBack.call tenantB 0).row] pre x := by
  apply renamedBack.staleReplay_iff tenantA
  intro r hr hent
  rw [List.mem_singleton.mp hr] at hent
  exact absurd hent.1 (by decide)

/-- Delivered as first, third, second, the third version is suppressed and the second one
    stands above everything stored: the stale content reads as current. -/
theorem staleReplay_regresses :
    ¬ ∀ (H : EntityHistory plainRuntime (Fin 3)) (ds : List (Fin 3)), (∀ v, v ∈ ds) →
      H.Current tenantA [] ds := by
  intro h
  have hcur := h renamedBack [0, 2, 1] (by decide) 2 ⟨by decide, fun v _ => Fin.le_last v⟩
  rw [renamedBack.greatestHash_iff tenantA (fun r hr => absurd hr List.not_mem_nil)] at hcur
  obtain ⟨v, hv, hhash⟩ := hcur
  -- the second version is stored, the third is not
  have hstored : renamedBack.Stored tenantA (renamedBack.deliver tenantA [0, 2, 1] []) 1 :=
    ⟨(renamedBack.call tenantA 1).row, by decide +kernel, renamedBack.holds_row tenantA 1⟩
  have hmissing : ∀ r ∈ renamedBack.deliver tenantA [0, 2, 1] [], r.version ≠ "v3" := by
    decide +kernel
  have hle : 1 ≤ v := hv.2 hstored
  have hcases : v = 1 ∨ v = 2 := by omega
  rcases hcases with rfl | rfl
  · revert hhash
    decide +kernel
  · obtain ⟨r, hr, hhold⟩ := hv.1
    exact hmissing r hr hhold.2

end Shiplog
