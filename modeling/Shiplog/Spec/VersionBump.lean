import Shiplog.Spec.Reingest

/-!
# Spurious version bumps

A version bump without a change of content is compared with the latest row of its entity.
That row is the one just written, unless the entity has a row with a later date: a
backdated event is stored below it, and a bump of that event is taken for an update.

## Key results

- `le_latest`: the latest row is the one with the greatest date
- `latest_append_row`: what a later call reads after a call has appended its row
- `bump_appends_iff`: the bump of an appended event is appended too exactly when the event
  was backdated and the bump's key is free
- `versionBump_suppressed_iff`: the same about `ingestEvent`, on every reachable spine
-/

namespace Shiplog

namespace IngestCall

/-- The entity of the call has a stored row that is dated after its event. -/
def Backdated (c : IngestCall) (spine : Spine) : Prop :=
  ∃ r ∈ spine, c.sameEntity r = true ∧ c.ev.occurredAt < r.occurredAt

variable {c c' : IngestCall} {spine : Spine}

/-- The latest row is stored and of the call's entity. -/
private theorem mem_of_latest {l : Event} (hl : c.latest spine = some l) :
    l ∈ spine ∧ c.sameEntity l = true := by
  have hmem : l ∈ spine.filter c.sameEntity := List.mem_reverse.mp (List.argmax_mem hl)
  exact List.mem_filter.mp hmem

/-- No row of the entity is dated after the latest one. -/
theorem le_latest {l r : Event} (hl : c.latest spine = some l) (hr : r ∈ spine)
    (hsame : c.sameEntity r = true) : r.occurredAt ≤ l.occurredAt := by
  have hmem : r ∈ (spine.filter c.sameEntity).reverse :=
    List.mem_reverse.mpr (List.mem_filter.mpr ⟨hr, hsame⟩)
  exact List.le_of_mem_argmax hmem hl

/-- A call is backdated exactly when the latest row is dated after its event. -/
private theorem backdated_iff :
    c.Backdated spine ↔ ∃ l, c.latest spine = some l ∧ c.ev.occurredAt < l.occurredAt := by
  constructor
  · rintro ⟨r, hr, hsame, hlt⟩
    cases hl : c.latest spine with
    | none =>
      rw [latest_eq_none.mp hl r hr] at hsame
      exact absurd hsame Bool.false_ne_true
    | some l =>
      have hle := le_latest hl hr hsame
      exact ⟨l, rfl, by omega⟩
  · rintro ⟨l, hl, hlt⟩
    obtain ⟨hmem, hsame⟩ := mem_of_latest hl
    exact ⟨l, hmem, hsame, hlt⟩

/-- After its own append a call reads its row, unless it was backdated. -/
theorem latest_append_row (h : ¬ c.Backdated spine) :
    c.latest (spine ++ [c.row]) = some c.row := by
  apply latest_append_of_le (sameEntity_row c)
  intro l hl
  show l.occurredAt ≤ c.ev.occurredAt
  have hnot : ¬ c.ev.occurredAt < l.occurredAt :=
    fun hlt => h (backdated_iff.mpr ⟨l, hl, hlt⟩)
  omega

/-- The call of an event that differs from the one of `c` in its version only. -/
structure BumpOf (c' c : IngestCall) : Prop where
  sameEntity : c'.sameEntity c.row = true
  cHash : c'.cHash = c.cHash

/-- The bump of an appended event is appended as well, exactly when the event was
    backdated and the key of the bump is neither stored nor the event's own. -/
theorem bump_appends_iff (hb : c'.BumpOf c) (happ : c.appends spine = true) :
    c'.appends (spine ++ [c.row]) = true ↔
      c.Backdated spine ∧ c'.keyTaken spine = false ∧ c'.idemKey ≠ c.idemKey := by
  rw [appends_eq_true, keyTaken_append, Bool.or_eq_false_iff, decide_eq_false_iff_not]
  have hkey : c.row.idempotencyKey = c'.idemKey ↔ c'.idemKey = c.idemKey := eq_comm
  rw [hkey, latest_congr hb.sameEntity, hb.cHash]
  by_cases hback : c.Backdated spine
  · -- the later row stays the latest one, and its content is not the event's
    obtain ⟨l, hl, hlt⟩ := backdated_iff.mp hback
    have hne : l.contentHash ≠ c.cHash := (appends_eq_true.mp happ).2 l hl
    rw [latest_append_of_lt hl hlt]
    have hall : ∀ r, some l = some r → r.contentHash ≠ c.cHash := by
      intro r hr
      rw [← Option.some.inj hr]
      exact hne
    exact ⟨fun h => ⟨hback, h.1⟩, fun h => ⟨h.2, hall⟩⟩
  · -- the row just written is the latest one
    rw [latest_append_row hback]
    exact ⟨fun h => absurd rfl (h.2 c.row rfl), fun h => absurd h.1 hback⟩

end IngestCall

namespace ValidInput

variable {rt : Runtime}

/-- Ingest inputs of any tenants one after another, from the empty spine. -/
def ingestCalls (calls : List (ObjectId × ValidInput rt)) : Spine :=
  calls.foldl (fun spine call => (ingestEvent rt noFaults call.2.input (some call.1) spine).2) []

/-- The events of two inputs differ in their version only. -/
def BumpOf (e' e : ValidInput rt) : Prop := e'.ev = { e.ev with version := e'.ev.version }

theorem BumpOf.call {e e' : ValidInput rt} (h : e'.BumpOf e) (tenantId : ObjectId) :
    (e'.call tenantId).BumpOf (e.call tenantId) := by
  have hev : e'.ev = { e.ev with version := e'.ev.version } := h
  constructor
  · have hs : e.ev.source = e'.ev.source := by rw [hev]
    have hx : e.ev.externalId = e'.ev.externalId := by rw [hev]
    simp [IngestCall.sameEntity, IngestCall.row, ValidInput.call, IngestCall.ofEvent, hs, hx]
  · show eventHash rt e'.ev = eventHash rt e.ev
    -- the version is no part of the content
    rw [hev]
    rfl

/-- Ingesting the input into this spine answers `'added'` or `'updated'`. -/
def Fresh (tenantId : ObjectId) (e : ValidInput rt) (spine : Spine) : Prop :=
  ∃ res, (ingestEvent rt noFaults e.input (some tenantId) spine).1 = .ok res ∧
    res.status ≠ .unchanged

/-- A fresh ingest is one whose call appends its row. -/
private theorem fresh_iff {tenantId : ObjectId} {e : ValidInput rt} {spine : Spine} :
    Fresh tenantId e spine ↔ (e.call tenantId).appends spine = true := by
  rw [Fresh, ingestEvent_eq]
  constructor
  · rintro ⟨res, hres, hne⟩
    rw [← Bool.not_eq_false]
    intro hno
    apply hne
    rw [← Except.ok.inj hres]
    exact IngestCall.statusIn_of_not_appends hno
  · intro happ
    exact ⟨_, rfl, IngestCall.statusIn_of_appends happ⟩

end ValidInput

open ValidInput (ingestCalls NoOp Fresh)

/-- **Version bumps.** On every spine reached by ingesting schema-valid events of any
    tenants, after an ingest of `e` that answered `'added'` or `'updated'`: an event that
    differs from `e` in its version only is answered `'unchanged'` and inserts no row, if
    and only if no stored row of the entity is dated after `e`, or the key of the bump is
    stored already or is that of `e`. -/
theorem versionBump_suppressed_iff {rt : Runtime} (calls : List (ObjectId × ValidInput rt))
    (tenantId : ObjectId) (e e' : ValidInput rt) (hb : e'.BumpOf e)
    (hfresh : Fresh tenantId e (ingestCalls calls)) :
    NoOp tenantId e'
        (ingestEvent rt noFaults e.input (some tenantId) (ingestCalls calls)).2 ↔
      (∀ r ∈ ingestCalls calls, (e.call tenantId).sameEntity r = true →
        r.occurredAt ≤ e.ev.occurredAt) ∨
      (e'.call tenantId).keyTaken (ingestCalls calls) = true ∨
      (e'.call tenantId).idemKey = (e.call tenantId).idemKey := by
  have happ := ValidInput.fresh_iff.mp hfresh
  rw [ValidInput.noOp_iff, e.ingestEvent_eq, if_pos happ, ← Bool.not_eq_true,
    IngestCall.bump_appends_iff (hb.call tenantId) happ]
  have hback : (∀ r ∈ ingestCalls calls, (e.call tenantId).sameEntity r = true →
      r.occurredAt ≤ e.ev.occurredAt) ↔ ¬ (e.call tenantId).Backdated (ingestCalls calls) := by
    simp only [IngestCall.Backdated, not_exists, not_and, Int.not_lt]
    rfl
  rw [hback, ← Bool.not_eq_false]
  tauto

/-- An issue as the normalizer hands it over, of the given day. -/
def issueOfDay (day : Int) (version title : String) : ValidInput plainRuntime where
  input := .obj [("source", .str "github"), ("type", .str "issue"),
    ("externalId", .str "issue:1"), ("actor", .str "ann"), ("title", .str title),
    ("url", .str "https://example.test/1"), ("occurredAt", .date (some day)),
    ("version", .str version)]
  ev := ⟨"github", .issue, "issue:1", "ann", title, "https://example.test/1", day, version⟩
  parses := rfl

/-- With one earlier row of the entity the bump is suppressed. -/
theorem versionBump_suppressed_inOrder :
    NoOp tenantA (issueOfDay 2 "v3" "B")
      (ingestEvent plainRuntime noFaults (issueOfDay 2 "v2" "B").input (some tenantA)
        (ingestCalls [(tenantA, issueOfDay 1 "v1" "A")])).2 := by
  apply (versionBump_suppressed_iff [(tenantA, issueOfDay 1 "v1" "A")] tenantA
    (issueOfDay 2 "v2" "B") (issueOfDay 2 "v3" "B") rfl
    (ValidInput.fresh_iff.mpr (by decide +kernel))).mpr
  left
  decide +kernel

/-- Below a row of a later day the bump of an event just stored is answered `'updated'`. -/
theorem versionBump_backdated :
    ¬ ∀ (calls : List (ObjectId × ValidInput plainRuntime)) (tenantId : ObjectId)
      (e e' : ValidInput plainRuntime), e'.BumpOf e → Fresh tenantId e (ingestCalls calls) →
      NoOp tenantId e'
        (ingestEvent plainRuntime noFaults e.input (some tenantId) (ingestCalls calls)).2 := by
  intro h
  have hno := h [(tenantA, issueOfDay 2 "v2" "B")] tenantA (issueOfDay 1 "v1" "A")
    (issueOfDay 1 "v1+" "A") rfl (ValidInput.fresh_iff.mpr (by decide +kernel))
  rw [ValidInput.noOp_iff] at hno
  revert hno
  decide +kernel

end Shiplog
