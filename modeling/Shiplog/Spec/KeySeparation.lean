import Shiplog.ForStd.Join
import Shiplog.Spec.SpineSafety

/-!
# What the idempotency key tells apart

`idempotencyKey` hashes `tenantId|source|externalId|version`. The tenant has 24 digits, so
it is never mistaken; the other three are free texts, and a `|` in one of them can stand in
for the separator. Everything here assumes that `sha256Hex` never collides.

## Key results

- `Event.ownKey_inj`: equal keys have one tenant and one `source|externalId|version` text
- `Event.versionId_of_freeText`: that text gives the parts back when `source` and `externalId`
  hold as many `|` in both
- `idempotencyKey_separates`: the key, and the exact-version check, tell versions apart
  exactly then
-/

namespace Shiplog

/-- `String(tenantId)` has 24 characters. -/
theorem ObjectId.length_toStr (oid : ObjectId) : oid.toStr.toList.length = 24 := oid.isHex.1

theorem ObjectId.toStr_inj {a b : ObjectId} (h : a.toStr = b.toStr) : a = b := by
  cases a
  cases b
  simp only [ObjectId.toStr] at h
  subst h
  rfl

/-- The text a row's key is computed from, behind the tenant and its `|`. -/
def Event.freeText (r : Event) : String := r.source ++ "|" ++ (r.externalId ++ "|" ++ r.version)

/-- The sources, and the external ids, of two rows hold equally many `|`. -/
def Event.SameBars (r r' : Event) : Prop :=
  r.source.occurrences '|' = r'.source.occurrences '|' ∧
    r.externalId.occurrences '|' = r'.externalId.occurrences '|'

/-- Rows of one version have one text, cut at the same places. -/
private theorem Event.freeText_of_versionId {r r' : Event} (h : r.versionId = r'.versionId) :
    r.freeText = r'.freeText ∧ r.SameBars r' := by
  simp only [versionId, Prod.mk.injEq] at h
  obtain ⟨-, hs, he, hv⟩ := h
  simp only [freeText, SameBars, hs, he, hv, and_self]

/-- Every row sits under the key of its own fields. -/
def OwnKeys (rt : Runtime) (spine : Spine) : Prop := ∀ r ∈ spine, r.idempotencyKey = r.ownKey rt

theorem Event.ownKey_eq (rt : Runtime) (r : Event) :
    r.ownKey rt = rt.sha256Hex (r.tenantId.toStr ++ "|" ++ r.freeText) := by
  simp only [ownKey, Shiplog.idempotencyKey, freeText, String.append_assoc]

section Keys

variable {rt : Runtime} (hsha : Function.Injective rt.sha256Hex) {r r' : Event}
include hsha

/-- Equal keys: one tenant and one text. -/
theorem Event.ownKey_inj (h : r.ownKey rt = r'.ownKey rt) :
    r.tenantId = r'.tenantId ∧ r.freeText = r'.freeText := by
  rw [ownKey_eq, ownKey_eq] at h
  have hlen : r.tenantId.toStr.toList.length = r'.tenantId.toStr.toList.length := by
    rw [ObjectId.length_toStr, ObjectId.length_toStr]
  obtain ⟨ht, htext⟩ := String.append_sep_inj_of_length hlen (hsha h)
  exact ⟨ObjectId.toStr_inj ht, htext⟩

omit hsha in
/-- One text cut at the same places is the same three parts. -/
theorem Event.versionId_of_freeText (ht : r.tenantId = r'.tenantId)
    (htext : r.freeText = r'.freeText) (hbars : r.SameBars r') : r.versionId = r'.versionId := by
  simp only [freeText] at htext
  -- the first cut is behind the source, the second one behind the external id
  obtain ⟨hs, hrest⟩ := String.append_sep_inj_of_count rfl hbars.1 htext
  obtain ⟨he, hv⟩ := String.append_sep_inj_of_count rfl hbars.2 hrest
  simp only [versionId, ht, hs, he, hv]

/-- Two rows have one key exactly when they have one tenant and one text. -/
private theorem Event.ownKey_eq_iff :
    r.ownKey rt = r'.ownKey rt ↔ r.tenantId = r'.tenantId ∧ r.freeText = r'.freeText := by
  constructor
  · exact ownKey_inj hsha
  · intro ⟨ht, htext⟩
    rw [ownKey_eq, ownKey_eq, ht, htext]

/-- The key tells two rows apart exactly when one text means one cut. -/
private theorem Event.separates_iff :
    (r.ownKey rt = r'.ownKey rt → r.versionId = r'.versionId) ↔
      (r.tenantId = r'.tenantId → r.freeText = r'.freeText → r.SameBars r') := by
  rw [ownKey_eq_iff hsha]
  constructor
  · intro h ht htext
    exact (freeText_of_versionId (h ⟨ht, htext⟩)).2
  · intro h ⟨ht, htext⟩
    exact versionId_of_freeText ht htext (h ht htext)

omit hsha in
/-- A call carries the key of the row it would write. -/
theorem call_idemKey (e : ValidInput rt) (t : ObjectId) :
    (e.call t).idemKey = (e.call t).row.ownKey rt := rfl

/-- The exact-version check of a call finds its key under its own tenant and text. -/
theorem keyExists_iff {spine : Spine} (hown : OwnKeys rt spine) (t : ObjectId)
    (e : ValidInput rt) :
    (e.call t).keyExists spine = true ↔
      ∃ r ∈ spine, r.tenantId = t ∧ r.freeText = (e.call t).row.freeText := by
  simp only [IngestCall.keyExists, List.any_eq_true, Bool.and_eq_true, decide_eq_true_eq]
  constructor
  · rintro ⟨r, hr, ht, hkey⟩
    rw [hown r hr, call_idemKey] at hkey
    exact ⟨r, hr, ht, (Event.ownKey_inj hsha hkey).2⟩
  · rintro ⟨r, hr, ht, htext⟩
    have hkey : r.ownKey rt = (e.call t).row.ownKey rt :=
      (Event.ownKey_eq_iff hsha).mpr ⟨ht, htext⟩
    exact ⟨r, hr, ht, (hown r hr).trans hkey⟩

/-- **What the key separates.** For a collision-free hash, two inputs have different keys
    whenever their versions differ, exactly if equal `source|externalId|version` texts of one
    tenant hold as many `|` in the source and in the external id. So a version that is not
    stored passes the exact-version check exactly if no stored row of the tenant has the same
    text cut elsewhere. -/
theorem idempotencyKey_separates :
    (∀ (t t' : ObjectId) (e e' : ValidInput rt),
      ((e.call t).idemKey = (e'.call t').idemKey →
          (e.call t).row.versionId = (e'.call t').row.versionId) ↔
        (t = t' → (e.call t).row.freeText = (e'.call t').row.freeText →
          (e.call t).row.SameBars (e'.call t').row)) ∧
    ∀ spine, SpineInv rt spine → ∀ (t : ObjectId) (e : ValidInput rt),
      ((e.call t).keyExists spine = true →
          ∃ r ∈ spine, r.versionId = (e.call t).row.versionId) ↔
        ∀ r ∈ spine, r.tenantId = t → r.freeText = (e.call t).row.freeText →
          r.SameBars (e.call t).row := by
  refine ⟨fun t t' e e' => ?_, fun spine hinv t e => ?_⟩
  · rw [call_idemKey, call_idemKey]
    exact Event.separates_iff hsha
  rw [keyExists_iff hsha hinv.ownKey]
  constructor
  · intro h r hr ht htext
    obtain ⟨r', hr', hid⟩ := h ⟨r, hr, ht, htext⟩
    obtain ⟨htext', hbars⟩ := Event.freeText_of_versionId hid
    -- both rows have the call's tenant and text, so the index makes them one
    have ht' : r'.tenantId = t := congrArg Prod.fst hid
    have hkey : r'.idempotencyKey = r.idempotencyKey := by
      rw [hinv.ownKey r' hr', hinv.ownKey r hr]
      exact (Event.ownKey_eq_iff hsha).mpr ⟨ht'.trans ht.symm, htext'.trans htext.symm⟩
    have heq : r' = r := List.inj_on_of_nodup_map hinv.nodup hr' hr hkey
    rw [heq] at hbars
    exact hbars
  · intro h ⟨r, hr, ht, htext⟩
    exact ⟨r, hr, Event.versionId_of_freeText ht htext (h r hr ht htext)⟩

end Keys

/-! ## Two cuts of one text -/

/-- An input with the given source and external id. -/
def cutInput (source externalId : String) : JsVal :=
  .obj [("source", .str source), ("type", .str "issue"), ("externalId", .str externalId),
    ("actor", .str "ann"), ("title", .str "A"), ("url", .str "https://example.test/1"),
    ("occurredAt", .date (some 0)), ("version", .str "d")]

/-- The text `a|b|c|d` cut behind `a|b`. -/
def cutLate : ValidInput plainRuntime where
  input := cutInput "a|b" "c"
  ev := ⟨"a|b", .issue, "c", "ann", "A", "https://example.test/1", 0, "d"⟩
  parses := rfl

/-- The text `a|b|c|d` cut behind `a`. -/
def cutEarly : ValidInput plainRuntime where
  input := cutInput "a" "b|c"
  ev := ⟨"a", .issue, "b|c", "ann", "A", "https://example.test/1", 0, "d"⟩
  parses := rfl

/-- Two versions of an issue have different texts, and so different keys. -/
theorem idempotencyKey_separates_issue :
    ((issueVersion "v1" "A").call tenantA).idemKey ≠
      ((issueVersion "v2" "A").call tenantA).idemKey := by
  intro hkey
  have htext : ((issueVersion "v1" "A").call tenantA).row.freeText ≠
      ((issueVersion "v2" "A").call tenantA).row.freeText := by decide
  have hid := ((@idempotencyKey_separates plainRuntime Function.injective_id).1 tenantA tenantA
    (issueVersion "v1" "A") (issueVersion "v2" "A")).mpr (fun _ h => absurd h htext) hkey
  revert hid
  decide

/-- The key confuses two versions of different sources under a hash without collisions, and
    the second of them is dropped as a replay. -/
theorem idempotencyKey_confuses :
    Function.Injective plainRuntime.sha256Hex ∧
    (cutLate.call tenantA).idemKey = (cutEarly.call tenantA).idemKey ∧
    (cutLate.call tenantA).row.versionId ≠ (cutEarly.call tenantA).row.versionId ∧
    SpineInv plainRuntime [(cutLate.call tenantA).row] ∧
    (cutEarly.call tenantA).keyExists [(cutLate.call tenantA).row] = true ∧
    ∀ r ∈ [(cutLate.call tenantA).row], r.versionId ≠ (cutEarly.call tenantA).row.versionId := by
  refine ⟨Function.injective_id, by decide, by decide, ⟨by decide, ?_⟩, by decide, by decide⟩
  exact List.forall_mem_singleton.mpr rfl

end Shiplog
