import Shiplog.ForStd.Commands
import Shiplog.Spec.TenantIngest

/-!
# Ingest entity by entity

The spine holds the rows of many entities, and a call is about one of them. As long as no key
stands for two of them, a call reads and writes the rows of its own entity only. So the spine
can be split by entity in any way, and the calls of one part do by themselves what they did
among the others; and the order of calls about different entities does not matter.

## Key results

- `perform_unwinds`: a call sees nothing but the rows of its own part
- `ingest_sharded`: the calls of a part by themselves
- `ingest_order_irrelevant`: orders that agree entity by entity
-/

namespace Shiplog

/-- The tenant, the source and the external id. -/
abbrev Entity := ObjectId × String × String

def Event.entity (r : Event) : Entity := (r.tenantId, r.source, r.externalId)

theorem Event.entity_of_versionId {r r' : Event} (h : r.versionId = r'.versionId) :
    r.entity = r'.entity := by
  simp only [versionId, Prod.mk.injEq] at h
  simp only [entity, h.1, h.2.1, h.2.2.1]

theorem IngestCall.sameEntity_iff {c : IngestCall} {r : Event} :
    c.sameEntity r = true ↔ r.entity = c.row.entity := by
  simp only [sameEntity, Bool.and_eq_true, decide_eq_true_eq, Event.entity, Prod.mk.injEq, row,
    and_assoc]

/-- One `ingestEvent` call, and the store operations of it that throw. -/
structure IngestAttempt where
  args : IngestArgs
  faults : IngestOp → Option JsVal

namespace IngestAttempt

/-- `ingestEvent` at work. -/
def perform (rt : Runtime) (a : IngestAttempt) (spine : Spine) :
    Except JsVal IngestResult × Spine :=
  ingestEvent rt a.faults a.args.input a.args.tenantId spine

/-- The call that the prologue sets up. -/
def call? (rt : Runtime) (a : IngestAttempt) : Option IngestCall :=
  (IngestCall.prepare rt a.args.input a.args.tenantId).toOption

/-- The row it would write. -/
def row? (rt : Runtime) (a : IngestAttempt) : Option Event := (a.call? rt).map IngestCall.row

/-- Whether it is about an entity of this kind; an input that the schema rejects is about none. -/
def isAbout (rt : Runtime) (part : Entity → Bool) (a : IngestAttempt) : Bool :=
  (a.row? rt).any fun r => part r.entity

variable {rt : Runtime} {a : IngestAttempt}

theorem perform_of_call {c : IngestCall} (h : a.call? rt = some c) (spine : Spine) :
    a.perform rt spine = c.commit a.faults spine := by
  unfold call? at h
  unfold perform ingestEvent
  cases hprep : IngestCall.prepare rt a.args.input a.args.tenantId with
  | error err =>
    rw [hprep] at h
    cases h
  | ok c' =>
    rw [hprep] at h
    cases h
    rfl

/-- Without a call there is nothing but an error. -/
theorem perform_of_none (h : a.call? rt = none) :
    ∃ err, ∀ spine, a.perform rt spine = (.error err, spine) := by
  unfold call? at h
  unfold perform ingestEvent
  cases hprep : IngestCall.prepare rt a.args.input a.args.tenantId with
  | error err => exact ⟨err, fun _ => rfl⟩
  | ok c' =>
    rw [hprep] at h
    cases h

/-- A call is of a parsed event, for a tenant. -/
theorem call_ofEvent {c : IngestCall} (h : a.call? rt = some c) :
    ∃ t ev, c = IngestCall.ofEvent rt t ev := by
  unfold call? at h
  cases hprep : IngestCall.prepare rt a.args.input a.args.tenantId with
  | error err =>
    rw [hprep] at h
    cases h
  | ok c' =>
    rw [hprep] at h
    cases h
    obtain ⟨t, ev, -, -, heq⟩ := IngestCall.prepare_ok hprep
    exact ⟨t, ev, heq⟩

/-- A call writes under the key of its own fields. -/
private theorem ownKey_of_call {c : IngestCall} (h : a.call? rt = some c) :
    c.row.idempotencyKey = c.row.ownKey rt := by
  obtain ⟨t, ev, rfl⟩ := call_ofEvent h
  rfl

end IngestAttempt

/-- A call leaves the spine alone or appends its row. -/
private theorem IngestCall.commit_spine (c : IngestCall) (faults : IngestOp → Option JsVal)
    (spine : Spine) : (c.commit faults spine).2 = spine ∨
      (c.commit faults spine).2 = spine ++ [c.row] := by
  unfold commit
  repeat' split
  all_goals first | exact Or.inl rfl | exact Or.inr rfl

/-- No two of these rows have one `source|externalId|version` text that is cut differently. -/
def KeysApart (rows : List Event) : Prop :=
  ∀ r ∈ rows, ∀ r' ∈ rows, r.tenantId = r'.tenantId → r.freeText = r'.freeText → r.SameBars r'

/-- Without a `|` in sources and external ids there is one way to cut. -/
private theorem keysApart_of_noBars {rows : List Event} (h : ∀ r ∈ rows,
    r.source.occurrences '|' = 0 ∧ r.externalId.occurrences '|' = 0) : KeysApart rows := by
  intro r hr r' hr' _ _
  obtain ⟨hsource, hid⟩ := h r hr
  obtain ⟨hsource', hid'⟩ := h r' hr'
  exact ⟨hsource.trans hsource'.symm, hid.trans hid'.symm⟩

/-- A spine of some of these rows, under their own keys. -/
def SpineOf (rt : Runtime) (rows : List Event) (spine : Spine) : Prop :=
  OwnKeys rt spine ∧ ∀ r ∈ spine, r ∈ rows

section Part

variable {rt : Runtime} (hsha : Function.Injective rt.sha256Hex) {rows : List Event}
  (hapart : KeysApart rows) {spine spine' : Spine} {c : IngestCall} {part : Entity → Bool}

theorem SpineOf.append (hspine : SpineOf rt rows spine)
    (hown : c.row.idempotencyKey = c.row.ownKey rt) (hrow : c.row ∈ rows) :
    SpineOf rt rows (spine ++ [c.row]) :=
  ⟨List.forall_mem_concat hspine.1 hown, List.forall_mem_concat hspine.2 hrow⟩

include hsha hapart

/-- A stored row under a call's key is the row of its version. -/
theorem versionId_of_key (hspine : SpineOf rt rows spine)
    (hown : c.row.idempotencyKey = c.row.ownKey rt) (hrow : c.row ∈ rows) {r : Event}
    (hr : r ∈ spine) (hkey : r.idempotencyKey = c.idemKey) : r.versionId = c.row.versionId := by
  have hkeys : r.ownKey rt = c.row.ownKey rt := by
    rw [← hspine.1 r hr, ← hown, hkey]
    rfl
  obtain ⟨ht, htext⟩ := Event.ownKey_inj hsha hkeys
  exact Event.versionId_of_freeText ht htext (hapart r (hspine.2 r hr) c.row hrow ht htext)

/-- The index answers by the rows of the part. -/
private theorem keyTaken_filter (hspine : SpineOf rt rows spine)
    (hown : c.row.idempotencyKey = c.row.ownKey rt) (hrow : c.row ∈ rows)
    (hpart : part c.row.entity = true) :
    c.keyTaken (spine.filter fun r => part r.entity) = c.keyTaken spine := by
  rw [Bool.eq_iff_iff, IngestCall.keyTaken_iff, IngestCall.keyTaken_iff]
  constructor
  · rintro ⟨r, hr, hkey⟩
    exact ⟨r, List.mem_of_mem_filter hr, hkey⟩
  · rintro ⟨r, hr, hkey⟩
    have hentity := Event.entity_of_versionId
      (versionId_of_key hsha hapart hspine hown hrow hr hkey)
    exact ⟨r, List.mem_filter.mpr ⟨hr, hentity ▸ hpart⟩, hkey⟩

/-- A call of the part does the same on two spines that agree on it. -/
private theorem commit_local (hspine : SpineOf rt rows spine) (hspine' : SpineOf rt rows spine')
    (hagree : (spine.filter fun r => part r.entity) = spine'.filter fun r => part r.entity)
    (hown : c.row.idempotencyKey = c.row.ownKey rt) (hrow : c.row ∈ rows)
    (hpart : part c.row.entity = true) (faults : IngestOp → Option JsVal) :
    (c.commit faults spine).1 = (c.commit faults spine').1 ∧
      ((c.commit faults spine).2.filter fun r => part r.entity) =
        (c.commit faults spine').2.filter fun r => part r.entity := by
  have htaken : c.keyTaken spine = c.keyTaken spine' := by
    rw [← keyTaken_filter hsha hapart hspine hown hrow hpart, hagree,
      keyTaken_filter hsha hapart hspine' hown hrow hpart]
  have hexists : c.keyExists spine = c.keyExists spine' := by
    rw [← keyTaken_eq_keyExists hsha hspine.1 hown, htaken,
      keyTaken_eq_keyExists hsha hspine'.1 hown]
  have hclassify : c.classify spine = c.classify spine' := by
    have hfilter : spine.filter c.sameEntity = spine'.filter c.sameEntity :=
      List.filter_eq_of_agree hagree fun r hr => by
        rw [IngestCall.sameEntity_iff.mp hr]
        exact hpart
    simp only [IngestCall.classify, IngestCall.latest, hfilter]
  obtain ⟨new, -, hout, hout'⟩ := IngestCall.commit_agree hexists hclassify htaken faults
  rw [hout, hout', List.filter_append, List.filter_append, hagree]
  exact ⟨rfl, rfl⟩

end Part

/-! ## Runs -/

/-- `ingestEvent` calls one after another, each with its answer. -/
abbrev ingestEvents (rt : Runtime) (attempts : List IngestAttempt) (spine : Spine) :
    List (IngestAttempt × Except JsVal IngestResult) × Spine :=
  Commands.run (IngestAttempt.perform rt) attempts spine

/-- What a list of calls would write. -/
def rowsOfAttempts (rt : Runtime) (attempts : List IngestAttempt) : List Event :=
  attempts.filterMap (IngestAttempt.row? rt)

theorem mem_rowsOfAttempts {rt : Runtime} {attempts : List IngestAttempt} {a : IngestAttempt}
    {c : IngestCall} (ha : a ∈ attempts) (hc : a.call? rt = some c) :
    c.row ∈ rowsOfAttempts rt attempts := by
  refine List.mem_filterMap.mpr ⟨a, ha, ?_⟩
  rw [IngestAttempt.row?, hc]
  rfl

section Runs

variable {rt : Runtime} {attempts : List IngestAttempt} {rows : List Event}

/-- Every call leaves a spine of the rows known. -/
theorem perform_spineOf (hrows : ∀ r ∈ rowsOfAttempts rt attempts, r ∈ rows)
    {a : IngestAttempt} (ha : a ∈ attempts) {spine : Spine} (hspine : SpineOf rt rows spine) :
    SpineOf rt rows (a.perform rt spine).2 := by
  cases hc : a.call? rt with
  | none =>
    obtain ⟨err, herr⟩ := IngestAttempt.perform_of_none hc
    rw [herr]
    exact hspine
  | some c =>
    rw [IngestAttempt.perform_of_call hc]
    cases c.commit_spine a.faults spine with
    | inl h => rwa [h]
    | inr h =>
      rw [h]
      exact hspine.append (IngestAttempt.ownKey_of_call hc) (hrows _ (mem_rowsOfAttempts ha hc))

/-- **A part sees its own rows only**: its calls go by them, and the others leave them alone. -/
theorem perform_unwinds (hsha : Function.Injective rt.sha256Hex) (hapart : KeysApart rows)
    (hrows : ∀ r ∈ rowsOfAttempts rt attempts, r ∈ rows) (part : Entity → Bool) :
    Commands.Unwinds (IngestAttempt.perform rt) attempts (SpineOf rt rows)
      (IngestAttempt.isAbout rt part) (fun spine => spine.filter fun r => part r.entity) where
  keeps a ha spine := perform_spineOf hrows ha
  local_own a ha hpart spine spine' hspine hspine' hagree := by
    obtain ⟨r, hr, hpart⟩ := Option.any_eq_true _ _ |>.mp hpart
    obtain ⟨c, hc, rfl⟩ := Option.map_eq_some_iff.mp hr
    rw [IngestAttempt.perform_of_call hc, IngestAttempt.perform_of_call hc]
    exact commit_local hsha hapart hspine hspine' hagree (IngestAttempt.ownKey_of_call hc)
      (hrows _ (mem_rowsOfAttempts ha hc)) hpart a.faults
  others a ha hpart spine hspine := by
    cases hc : a.call? rt with
    | none =>
      obtain ⟨err, herr⟩ := IngestAttempt.perform_of_none hc
      rw [herr]
    | some c =>
      have hother : part c.row.entity = false := by
        simpa [IngestAttempt.isAbout, IngestAttempt.row?, hc] using hpart
      rw [IngestAttempt.perform_of_call hc]
      cases c.commit_spine a.faults spine with
      | inl h => rw [h]
      | inr h => simp [h, List.filter_append, hother]

/-- Calls about a part write rows of that part. -/
private theorem perform_keeps_part {part : Entity → Bool} {a : IngestAttempt}
    (ha : a.isAbout rt part = true) {spine : Spine} (hspine : ∀ r ∈ spine, part r.entity = true) :
    ∀ r ∈ (a.perform rt spine).2, part r.entity = true := by
  obtain ⟨r, hr, hpart⟩ := Option.any_eq_true _ _ |>.mp ha
  obtain ⟨c, hc, rfl⟩ := Option.map_eq_some_iff.mp hr
  rw [IngestAttempt.perform_of_call hc]
  cases c.commit_spine a.faults spine with
  | inl h => rwa [h]
  | inr h =>
    rw [h]
    exact List.forall_mem_concat hspine hpart

end Runs

/-- **Sharding.** Take any part of the entities, and any calls from any spine of rows under
    their own keys, no two of all these rows having one `source|externalId|version` text cut
    differently. The calls about the part, run by themselves on the rows of the part, answer
    what they answer in the whole run, whichever store operations throw, and end with the rows
    of the part that the whole run ends with. -/
theorem ingest_sharded {rt : Runtime} (hsha : Function.Injective rt.sha256Hex)
    (part : Entity → Bool) (spine : Spine) (attempts : List IngestAttempt)
    (hown : OwnKeys rt spine) (hapart : KeysApart (spine ++ rowsOfAttempts rt attempts)) :
    let whole := ingestEvents rt attempts spine
    let shard := ingestEvents rt (attempts.filter (IngestAttempt.isAbout rt part))
      (spine.filter fun r => part r.entity)
    shard.1 = whole.1.filter (fun x => x.1.isAbout rt part) ∧
      shard.2 = whole.2.filter fun r => part r.entity := by
  intro whole shard
  have hunwinds := perform_unwinds hsha hapart (fun r hr => List.mem_append_right spine hr) part
  have hspine : SpineOf rt (spine ++ rowsOfAttempts rt attempts) spine :=
    ⟨hown, fun r hr => List.mem_append_left _ hr⟩
  have hshard : SpineOf rt (spine ++ rowsOfAttempts rt attempts)
      (spine.filter fun r => part r.entity) :=
    ⟨fun r hr => hown r (List.mem_of_mem_filter hr),
      fun r hr => hspine.2 r (List.mem_of_mem_filter hr)⟩
  obtain ⟨hanswers, hend⟩ := hunwinds.purge hspine hshard (by
    rw [List.filter_filter]
    simp only [Bool.and_self])
  -- the rows of the shard are all of the part
  have hpart : ∀ r ∈ shard.2, part r.entity = true :=
    @Commands.run_keeps _ _ _ (IngestAttempt.perform rt) _
      (fun spine => ∀ r ∈ spine, part r.entity = true)
      (fun a ha spine hspine => perform_keeps_part (List.mem_filter.mp ha).2 hspine) _
      fun r hr => (List.mem_filter.mp hr).2
  exact ⟨hanswers.symm, by rw [← List.filter_eq_self.mpr hpart]; exact hend.symm⟩

/-- An undisturbed call. -/
def IngestAttempt.calm (e : ValidInput plainRuntime) (t : ObjectId) : IngestAttempt :=
  ⟨⟨e.input, some t⟩, noFaults⟩

/-- An attempt that fails to classify its event, and one of another tenant in between. -/
def mixedAttempts : List IngestAttempt :=
  [.calm (issueVersion "v1" "A") tenantA, .calm (issueVersion "v1" "A") tenantB,
    ⟨⟨issueInput "v2" "B", some tenantA⟩, fun op => if op = .findOne then some .null else none⟩,
    .calm (issueVersion "v3" "B") tenantA]

theorem mixedAttempts_apart : KeysApart ([] ++ rowsOfAttempts plainRuntime mixedAttempts) :=
  keysApart_of_noBars (by decide +kernel)

/-- The calls of one tenant, without the other's. -/
theorem ingest_sharded_tenant :
    (ingestEvents plainRuntime (mixedAttempts.filter
        (IngestAttempt.isAbout plainRuntime fun entity => entity.1 = tenantA)) []).2 =
      [((issueVersion "v1" "A").call tenantA).row, ((issueVersion "v3" "B").call tenantA).row] := by
  have h := @ingest_sharded plainRuntime Function.injective_id
    (fun entity => entity.1 = tenantA) [] mixedAttempts (fun r hr => absurd hr List.not_mem_nil)
    mixedAttempts_apart
  exact h.2.trans (by decide +kernel)

/-- **The order across entities is immaterial.** Two sequences with the same calls about each
    entity, in the same order, end with the same rows, and every call about an entity has the
    same answer in both. -/
theorem ingest_order_irrelevant {rt : Runtime} (hsha : Function.Injective rt.sha256Hex)
    (spine : Spine) (attempts attempts' : List IngestAttempt) (hown : OwnKeys rt spine)
    (hapart : KeysApart (spine ++ rowsOfAttempts rt attempts))
    (hsame : ∀ entity, attempts.filter (IngestAttempt.isAbout rt fun e => e = entity) =
      attempts'.filter (IngestAttempt.isAbout rt fun e => e = entity)) :
    (ingestEvents rt attempts spine).2.Perm (ingestEvents rt attempts' spine).2 ∧
      ∀ entity, (ingestEvents rt attempts spine).1.filter
          (fun x => x.1.isAbout rt fun e => e = entity) =
        (ingestEvents rt attempts' spine).1.filter
          (fun x => x.1.isAbout rt fun e => e = entity) := by
  have hspine : SpineOf rt (spine ++ rowsOfAttempts rt attempts) spine :=
    ⟨hown, fun r hr => List.mem_append_left _ hr⟩
  -- the same calls would write the same rows
  have hrows : ∀ r ∈ rowsOfAttempts rt attempts', r ∈ spine ++ rowsOfAttempts rt attempts := by
    intro r hr
    obtain ⟨a, ha, hrow⟩ := List.mem_filterMap.mp hr
    have habout : a.isAbout rt (fun e => e = r.entity) = true := by
      simp only [IngestAttempt.isAbout, hrow, Option.any_some, decide_true]
    have hmem := (hsame r.entity).symm ▸ List.mem_filter.mpr ⟨ha, habout⟩
    exact List.mem_append_right _ (List.mem_filterMap.mpr ⟨a, (List.mem_filter.mp hmem).1, hrow⟩)
  have hagree := fun entity : Entity =>
    (perform_unwinds hsha hapart (fun r hr => List.mem_append_right spine hr)
      fun e => e = entity).agree (perform_unwinds hsha hapart hrows fun e => e = entity)
      (hsame entity) hspine
  exact ⟨List.perm_of_filter_eq fun entity => (hagree entity).2, fun entity => (hagree entity).1⟩

/-- The other tenant's call first. -/
def reorderedAttempts : List IngestAttempt :=
  .calm (issueVersion "v1" "A") tenantB :: .calm (issueVersion "v1" "A") tenantA ::
    mixedAttempts.drop 2

theorem ingest_order_irrelevant_tenants :
    (ingestEvents plainRuntime mixedAttempts []).2.Perm
      (ingestEvents plainRuntime reorderedAttempts []).2 := by
  have hsame : ∀ entity,
      mixedAttempts.filter (IngestAttempt.isAbout plainRuntime fun e => e = entity) =
        reorderedAttempts.filter (IngestAttempt.isAbout plainRuntime fun e => e = entity) := by
    intro entity
    have hfirst : (IngestAttempt.calm (issueVersion "v1" "A") tenantA).isAbout plainRuntime
        (fun e => e = entity) = decide ((tenantA, "github", "issue:1") = entity) := rfl
    have hother : (IngestAttempt.calm (issueVersion "v1" "A") tenantB).isAbout plainRuntime
        (fun e => e = entity) = decide ((tenantB, "github", "issue:1") = entity) := rfl
    -- no entity is of both tenants
    by_cases hA : (tenantA, "github", "issue:1") = entity
    · have hB : (tenantB, "github", "issue:1") ≠ entity := hA ▸ by decide
      simp [mixedAttempts, reorderedAttempts, List.filter_cons, hfirst, hother, hB]
    · simp [mixedAttempts, reorderedAttempts, List.filter_cons, hfirst, hA]
  exact (@ingest_order_irrelevant plainRuntime Function.injective_id [] mixedAttempts
    reorderedAttempts (fun r hr => absurd hr List.not_mem_nil) mixedAttempts_apart hsame).1

end Shiplog
