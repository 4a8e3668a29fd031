import Shiplog.Native.Models

/-!
# Stored payloads

Mongoose stores a dead letter's payload without the nested objects that are empty. What has
none of them, no `undefined` member and none of the special keys is stored as it is, and
nothing else is.

## Key results

- `IngestJobData.stored_eq_self_iff`: which job data are stored as they are
- `IngestJobData.stored_stored`: a stored payload is, so storing it again changes nothing
-/

namespace Shiplog

mutual

/-- Storing the value drops nothing of it. -/
def JsVal.storedWhole : JsVal → Bool
  | .arr xs => JsVal.itemsStoredWhole xs
  | .obj fields => !fields.isEmpty && JsVal.fieldsStoredWhole fields
  | _ => true

/-- An item may be an empty object. -/
def JsVal.itemsStoredWhole : List JsVal → Bool
  | [] => true
  | .obj fields :: xs => JsVal.fieldsStoredWhole fields && JsVal.itemsStoredWhole xs
  | x :: xs => JsVal.storedWhole x && JsVal.itemsStoredWhole xs

/-- A member has a value and no special key. -/
def JsVal.fieldsStoredWhole : List (String × JsVal) → Bool
  | [] => true
  | (key, v) :: fields =>
    !(isSpecialProperty key || v.isUndefined) && JsVal.storedWhole v &&
      JsVal.fieldsStoredWhole fields

end

/-- Storing the job's data drops nothing of it. -/
def IngestJobData.storedWhole (data : IngestJobData) : Bool :=
  data.poison.storedWhole && data.record.all fun record =>
    !record.fields.isEmpty && JsVal.fieldsStoredWhole record.fields

/-! ## Nothing else is stored as it is -/

private theorem JsVal.fieldsStoredWhole_cons (key : String) (v : JsVal)
    (fields : List (String × JsVal)) :
    JsVal.fieldsStoredWhole ((key, v) :: fields) = true ↔
      (isSpecialProperty key || v.isUndefined) = false ∧ v.storedWhole = true ∧
        JsVal.fieldsStoredWhole fields = true := by
  rw [JsVal.fieldsStoredWhole, Bool.and_eq_true, Bool.and_eq_true, Bool.not_eq_true', and_assoc]

private theorem length_minimizedFields (fields : List (String × JsVal)) :
    (JsVal.minimizedFields fields).length ≤ fields.length := by
  induction fields with
  | nil => exact Nat.le_refl _
  | cons f fields ih =>
    rw [JsVal.minimizedFields]
    split
    · exact Nat.le_succ_of_le ih
    · exact Nat.succ_le_succ ih

mutual

/-- A value is stored as it is exactly if storing it drops nothing. -/
theorem JsVal.minimized_eq_self_iff : ∀ v : JsVal, v.minimized = v ↔ v.storedWhole = true
  | .undefined | .null | .bool _ | .num _ | .nonFinite _ | .str _ | .date _ => by
    simp [JsVal.minimized, JsVal.storedWhole]
  | .arr xs => by
    rw [JsVal.minimized, JsVal.storedWhole, ← JsVal.minimizedItems_eq_self_iff xs,
      JsVal.arr.injEq]
  | .obj fields => by
    rw [JsVal.minimized, JsVal.storedWhole, Bool.and_eq_true,
      ← JsVal.minimizedFields_eq_self_iff fields]
    split
    · next hempty =>
      rw [List.isEmpty_iff] at hempty
      rw [hempty]
      constructor
      · intro h
        cases h
      · rintro ⟨hne, rfl⟩
        cases hne
    · next hne =>
      rw [JsVal.obj.injEq]
      constructor
      · intro h
        rw [h] at hne
        exact ⟨by simpa using hne, h⟩
      · exact And.right

private theorem JsVal.minimizedItems_eq_self_iff :
    ∀ xs : List JsVal, JsVal.minimizedItems xs = xs ↔ JsVal.itemsStoredWhole xs = true
  | [] => by simp [JsVal.minimizedItems, JsVal.itemsStoredWhole]
  | .obj fields :: xs => by
    rw [JsVal.minimizedItems, JsVal.itemsStoredWhole, List.cons.injEq, JsVal.obj.injEq,
      Bool.and_eq_true, JsVal.minimizedFields_eq_self_iff fields,
      JsVal.minimizedItems_eq_self_iff xs]
  | .undefined :: xs | .null :: xs | .bool _ :: xs | .num _ :: xs | .nonFinite _ :: xs
  | .str _ :: xs | .date _ :: xs => by
    simp [JsVal.minimizedItems, JsVal.itemsStoredWhole, JsVal.minimized, JsVal.storedWhole,
      JsVal.minimizedItems_eq_self_iff xs]
  | .arr ys :: xs => by
    simp [JsVal.minimizedItems, JsVal.itemsStoredWhole, JsVal.minimized_eq_self_iff (.arr ys),
      JsVal.minimizedItems_eq_self_iff xs]

private theorem JsVal.minimizedFields_eq_self_iff :
    ∀ fields : List (String × JsVal),
      JsVal.minimizedFields fields = fields ↔ JsVal.fieldsStoredWhole fields = true
  | [] => by simp [JsVal.minimizedFields, JsVal.fieldsStoredWhole]
  | (key, v) :: fields => by
    rw [JsVal.fieldsStoredWhole_cons, JsVal.minimizedFields, ← JsVal.minimized_eq_self_iff v,
      ← JsVal.minimizedFields_eq_self_iff fields]
    split
    · next hdropped =>
      -- a dropped member makes the list shorter
      constructor
      · intro h
        have hlen := length_minimizedFields fields
        rw [h, List.length_cons] at hlen
        omega
      · rintro ⟨hkept, hv, -⟩
        rw [hv, hkept] at hdropped
        cases hdropped
    · next hkept =>
      rw [Bool.not_eq_true] at hkept
      rw [List.cons.injEq, Prod.mk.injEq, eq_self_iff_true, true_and]
      constructor
      · rintro ⟨hv, hfs⟩
        rw [hv] at hkept
        exact ⟨hkept, hv, hfs⟩
      · rintro ⟨-, hv, hfs⟩
        exact ⟨hv, hfs⟩

end

/-! ## Storing twice -/

mutual

theorem JsVal.storedWhole_minimized : ∀ v : JsVal, v.minimized.storedWhole = true
  | .undefined | .null | .bool _ | .num _ | .nonFinite _ | .str _ | .date _ => rfl
  | .arr xs => JsVal.itemsStoredWhole_minimizedItems xs
  | .obj fields => by
    rw [JsVal.minimized]
    split
    · rfl
    · next hne =>
      rw [JsVal.storedWhole, JsVal.fieldsStoredWhole_minimizedFields fields, Bool.and_true]
      simpa using hne

private theorem JsVal.itemsStoredWhole_minimizedItems :
    ∀ xs : List JsVal, JsVal.itemsStoredWhole (JsVal.minimizedItems xs) = true
  | [] => rfl
  | .obj fields :: xs => by
    rw [JsVal.minimizedItems, JsVal.itemsStoredWhole,
      JsVal.fieldsStoredWhole_minimizedFields fields, JsVal.itemsStoredWhole_minimizedItems xs]
    rfl
  | .undefined :: xs | .null :: xs | .bool _ :: xs | .num _ :: xs | .nonFinite _ :: xs
  | .str _ :: xs | .date _ :: xs => JsVal.itemsStoredWhole_minimizedItems xs
  | .arr ys :: xs => by
    show (JsVal.itemsStoredWhole (JsVal.minimizedItems ys) &&
      JsVal.itemsStoredWhole (JsVal.minimizedItems xs)) = true
    rw [JsVal.itemsStoredWhole_minimizedItems ys, JsVal.itemsStoredWhole_minimizedItems xs]
    rfl

private theorem JsVal.fieldsStoredWhole_minimizedFields :
    ∀ fields : List (String × JsVal),
      JsVal.fieldsStoredWhole (JsVal.minimizedFields fields) = true
  | [] => rfl
  | (key, v) :: fields => by
    rw [JsVal.minimizedFields]
    split
    · exact JsVal.fieldsStoredWhole_minimizedFields fields
    · next hkept =>
      rw [JsVal.fieldsStoredWhole_cons]
      exact ⟨Bool.not_eq_true _ ▸ hkept, JsVal.storedWhole_minimized v,
        JsVal.fieldsStoredWhole_minimizedFields fields⟩

end

/-- A record is stored as it is exactly if it has members and none of them is dropped. -/
theorem NangoRecord.stored_eq_self_iff (record : NangoRecord) :
    record.stored = some record ↔
      record.fields ≠ [] ∧ JsVal.fieldsStoredWhole record.fields = true := by
  obtain ⟨fields⟩ := record
  unfold NangoRecord.stored
  rw [← JsVal.minimizedFields_eq_self_iff]
  simp only
  split
  · next hempty =>
    rw [List.isEmpty_iff] at hempty
    rw [hempty]
    constructor
    · intro h
      cases h
    · rintro ⟨hne, h⟩
      exact absurd h.symm hne
  · next hne =>
    rw [Option.some.injEq, NangoRecord.mk.injEq]
    constructor
    · intro h
      rw [h] at hne
      exact ⟨by simpa using hne, h⟩
    · exact And.right

/-- **Stored as it is**: exactly the job data that hold nothing Mongoose drops. -/
theorem IngestJobData.stored_eq_self_iff (data : IngestJobData) :
    data.stored = data ↔ data.storedWhole = true := by
  obtain ⟨tenantId, connectionId, syncRunId, record, poison, demoFault⟩ := data
  unfold IngestJobData.stored IngestJobData.storedWhole
  simp only [IngestJobData.mk.injEq, true_and, and_true, Bool.and_eq_true]
  rw [JsVal.minimized_eq_self_iff, and_comm]
  refine and_congr_right fun _ => ?_
  cases record with
  | none => simp
  | some record => simpa using record.stored_eq_self_iff

/-- What storing a record leaves of it is stored as it is. -/
theorem NangoRecord.stored_bind_stored (record : NangoRecord) :
    record.stored.bind NangoRecord.stored = record.stored := by
  cases hstored : record.stored with
  | none => rfl
  | some kept =>
    show kept.stored = some kept
    rw [kept.stored_eq_self_iff]
    unfold NangoRecord.stored at hstored
    simp only at hstored
    split at hstored
    · cases hstored
    · next hne =>
      cases hstored
      exact ⟨by simpa using hne, JsVal.fieldsStoredWhole_minimizedFields record.fields⟩

/-- Storing a payload drops everything there is to drop. -/
theorem IngestJobData.stored_stored (data : IngestJobData) : data.stored.stored = data.stored := by
  have hpoison := (JsVal.minimized_eq_self_iff _).mpr (JsVal.storedWhole_minimized data.poison)
  unfold IngestJobData.stored
  simp only [hpoison]
  cases data.record with
  | none => rfl
  | some record => simp only [Option.bind_some, record.stored_bind_stored]

end Shiplog
