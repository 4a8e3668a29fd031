import Shiplog.Native.Collections
import Shiplog.Spec.DeliveryLoops
import Shiplog.Spec.Noninterference

/-!
# Concurrent upserts

The upserts of the ingest and delivery workers and of `POST /connections`, each a look-up
and an insert, in any interleaving. `events` and `sync_state` have a unique index on the
key their upserts look for; `raw_records` and `connections` have none, and there two upserts
of one key that have both found nothing insert it twice.

## Key results

- `landRawRecord_alone` and its siblings: an upsert that nothing interrupts does what the
  code's function does in one go
- `keyed_upserts_unique`: keys stay unique as long as no two upserts of one raw record or
  connection are between their look-up and their insert, and only as long
- `keyed_upserts_collide`: one record landed by two workers at once has two rows
-/

namespace Shiplog

/-! ## Upserts alone -/

section Alone

variable {rt : Runtime} {d : Drivers} (hd : d.CastsAlike)

/-- The upsert of step 3 in one go: nothing where the unique index holds the key. -/
theorem IngestCall.apply_upsert (call : IngestCall) (spine : Spine) :
    call.upsert.apply spine = if call.keyTaken spine then spine else spine ++ [call.row] := by
  cases htaken : call.keyTaken spine with
  | false => exact call.upsert.apply_of_absent htaken
  | true =>
    rw [if_pos rfl]
    -- the update is empty (`$setOnInsert` only), so the first match stays as it is
    show spine.upsert (fun event => event.idempotencyKey = call.idemKey) id call.row = spine
    induction spine with
    | nil => cases htaken
    | cons event spine ih =>
      simp only [List.upsert, id_eq]
      split
      · rfl
      · next hkey =>
        simp only [keyTaken, List.any_cons, hkey, Bool.false_or] at htaken
        rw [ih htaken]

theorem ingestEvent_alone (call : IngestCall) (db : collections.Store) :
    (upsertPool rt hd).Reaches ([.called .events call.upsert], db)
      ([.finished], Function.update db .events
        (if call.keyTaken (db .events) then db .events else db .events ++ [call.row])) := by
  rw [← call.apply_upsert]
  exact call.upsert.reaches_alone db

theorem storeCursor_alone (job : ReconcileJobData) (cursor : Option String)
    (db : collections.Store) :
    (upsertPool rt hd).Reaches ([.called .syncState (job.upsert cursor)], db)
      ([.finished], Function.update db .syncState (job.storeCursor cursor (db .syncState))) :=
  (job.upsert cursor).reaches_alone db

theorem landRawRecord_alone {record : NangoRecord} {ctx : LandRawContext} {row : RawRecord}
    (hrow : rawRow rt record ctx = .ok row) (db : collections.Store) :
    ∃ rows, landRawRecord rt record ctx (db .rawRecords) = .ok rows ∧
      (upsertPool rt hd).Reaches ([.called .rawRecords row.upsert], db)
        ([.finished], Function.update db .rawRecords rows) := by
  refine ⟨row.upsert.apply (db .rawRecords), ?_, row.upsert.reaches_alone db⟩
  unfold landRawRecord
  rw [hrow]
  rfl

theorem upsertConnection_alone (call : RegistrationCall d) (db : collections.Store) :
    (upsertPool rt hd).Reaches ([.called .connections (call.upsert hd)], db)
      ([.finished], Function.update db .connections (upsertConnection d call.env call.tenantId
        call.nangoConnectionId call.r (db .connections)).2) :=
  (call.upsert hd).reaches_alone db

end Alone

/-! ## One document per key -/

/-- What the keys of the four collections are to be: one document each. -/
structure OneDocumentPerKey (db : collections.Store) : Prop where
  events : ((db .events).map Event.idempotencyKey).Nodup
  syncState : ((db .syncState).map SyncState.key).Nodup
  rawRecords : ((db .rawRecords).map RawRecord.key).Nodup
  connections : ((db .connections).map fun connection : Connection =>
    (connection.tenantId, connection.nangoConnectionId)).Nodup

theorem unique_iff_oneDocumentPerKey (db : collections.Store) :
    db.Unique ↔ OneDocumentPerKey db := by
  constructor
  · intro h
    exact ⟨h .events, h .syncState, h .rawRecords, h .connections⟩
  · intro h c
    cases c with
    | events => exact h.events
    | syncState => exact h.syncState
    | rawRecords => exact h.rawRecords
    | connections => exact h.connections

/-- Two of the collections have no unique index on their key. -/
theorem Collection.hasUniqueKey_eq_false_iff (c : Collection) :
    c.hasUniqueKey = false ↔ c = .rawRecords ∨ c = .connections := by
  cases c <;> decide

/-- No two upserts of one raw record, and no two of one connection, stand between their
    look-up and their insert. -/
def NoRace (runs : List collections.Run) : Prop :=
  ∀ (i j : ℕ) (c : Collection) (u v : collections.Upsert c), i ≠ j →
    runs[i]? = some (.missed c u) → runs[j]? = some (.missed c v) →
    c = .rawRecords ∨ c = .connections → collections.key c u.fresh ≠ collections.key c v.fresh

theorem noRace_iff_apart (runs : List collections.Run) : NoRace runs ↔ Keyed.Apart runs := by
  unfold NoRace Keyed.Apart
  simp only [← Collection.hasUniqueKey_eq_false_iff]

/-- **Keyed upserts and their races.** Start the workers and the API on collections with one
    document per key. As long as no two upserts of one raw record or of one connection stand
    between their look-up and their insert when a step is taken, there is one document per key
    in every state reached; and from any state where two do, the pool can go on to one where
    a key has two documents. -/
theorem keyed_upserts_unique (rt : Runtime) {d : Drivers} (hd : d.CastsAlike)
    {db : collections.Store} (hdb : OneDocumentPerKey db) :
    (∀ st, Relation.ReflTransGen (fun st st' => NoRace st.1 ∧ (upsertPool rt hd).Step st st')
        ([], db) st → OneDocumentPerKey st.2) ∧
      ∀ st, (upsertPool rt hd).Reaches ([], db) st → ¬ NoRace st.1 →
        ∃ st', (upsertPool rt hd).Reaches st st' ∧ ¬ OneDocumentPerKey st'.2 := by
  simp only [noRace_iff_apart, ← unique_iff_oneDocumentPerKey] at hdb ⊢
  exact ⟨fun st hst => Keyed.unique_of_reachesApart hst hdb,
    fun st _ hrace => Keyed.race_breaks_unique hrace st.2⟩

/-! ## One record landed twice -/

/-- What a scalar that is no string renders to. -/
def scalarText (rt : Runtime) : JsVal → Option String
  | .bool b => ((JsVal.bool b).toStr rt).toOption
  | .num q => ((JsVal.num q).toStr rt).toOption
  | _ => none

/-- Drivers that cast these to strings, and nothing else. -/
def castingDrivers : Drivers where
  castFilter := plainDrivers.castFilter
  eventMeets := plainDrivers.eventMeets
  eventMeets_tenantId := plainDrivers.eventMeets_tenantId
  castConnectionId v := if (scalarText plainRuntime v).isSome then none else some v
  connectionIdMeets v connection := connection.nangoConnectionId = scalarText plainRuntime v
  castUpdate v :=
    match scalarText plainRuntime v with
    | some s => .ok (some (some s))
    | none => .error v
  rejectsId := plainDrivers.rejectsId

theorem castingDrivers_castsAlike : castingDrivers.CastsAlike where
  cast v r _ _ hr := by
    simp only [castingDrivers] at hr ⊢
    cases hs : scalarText plainRuntime v with
    | none => simp [hs] at hr
    | some s =>
      simp only [hs, Except.ok.injEq] at hr
      exact ⟨s, hr.symm, fun _ => rfl⟩

/-- Collections without documents. -/
def emptyStore : collections.Store := fun _ => []

private theorem emptyStore_oneDocumentPerKey : OneDocumentPerKey emptyStore :=
  ⟨List.nodup_nil, List.nodup_nil, List.nodup_nil, List.nodup_nil⟩

/-- Two upserts are no race unless both have found no match and have one key. -/
private theorem noRace_pair {r r' : collections.Run}
    (h : ∀ c u v, r = .missed c u → r' = .missed c v →
      collections.key c u.fresh ≠ collections.key c v.fresh) : NoRace [r, r'] := by
  intro i j c u v hij hi hj _
  match i, j with
  | 0, 0 => exact absurd rfl hij
  | 0, 1 => exact h c u v (Option.some.inj hi) (Option.some.inj hj)
  | 1, 0 => exact (h c v u (Option.some.inj hj) (Option.some.inj hi)).symm
  | 1, 1 => exact absurd rfl hij
  | i + 2, _ => cases hi
  | _, j + 2 => cases hj

/-- A run alone is no race. -/
private theorem noRace_singleton (r : collections.Run) : NoRace [r] := by
  intro i j c u v hij hi hj _
  have hlt := (List.getElem?_eq_some_iff.mp hi).1
  have hlt' := (List.getElem?_eq_some_iff.mp hj).1
  simp only [List.length_singleton] at hlt hlt'
  omega

/-- Two records landed at once: both look-ups find nothing before either row is inserted, and
    there are two rows under two keys. -/
theorem keyed_upserts_unique_landings :
    ∃ (row row' : RawRecord) (st : List collections.Run × collections.Store),
      rawRow plainRuntime (issueSync.stamp cursorRecord) issueSync.rawContext = .ok row ∧
      rawRow plainRuntime (issueSync.stamp laterRecord) issueSync.rawContext = .ok row' ∧
      st.2 .rawRecords = [row, row'] ∧ OneDocumentPerKey st.2 := by
  obtain ⟨row, hrow⟩ := @rawRow_of_printable plainRuntime (issueSync.stamp cursorRecord)
    issueSync.rawContext "r1" (nangoRecordId_stamped _ _ _)
  obtain ⟨row', hrow'⟩ := @rawRow_of_printable plainRuntime (issueSync.stamp laterRecord)
    issueSync.rawContext "r2" (nangoRecordId_stamped _ _ _)
  have hkeys : row.key ≠ row'.key := by
    have hid : Except.ok row.nangoRecordId = Except.ok "r1" :=
      (rawRow_ok hrow).2.2.symm.trans (nangoRecordId_stamped _ _ _)
    have hid' : Except.ok row'.nangoRecordId = Except.ok "r2" :=
      (rawRow_ok hrow').2.2.symm.trans (nangoRecordId_stamped _ _ _)
    intro hkey
    have hsame : row.nangoRecordId = row'.nangoRecordId := congrArg (fun key => key.2.2) hkey
    rw [Except.ok.inj hid, Except.ok.inj hid'] at hsame
    exact absurd hsame (by decide)
  have hissue : (upsertPool plainRuntime castingDrivers_castsAlike).Step ([], emptyStore)
      ([.called .rawRecords row.upsert], emptyStore) :=
    .environment ⟨rfl, _, _, .land hrow, rfl⟩
  have hissue' : (upsertPool plainRuntime castingDrivers_castsAlike).Step
      ([.called .rawRecords row.upsert], emptyStore)
      ([.called .rawRecords row.upsert, .called .rawRecords row'.upsert], emptyStore) :=
    .environment ⟨rfl, _, _, .land hrow', rfl⟩
  have hlook : (upsertPool plainRuntime castingDrivers_castsAlike).Step
      ([.called .rawRecords row.upsert, .called .rawRecords row'.upsert], emptyStore)
      ([.missed .rawRecords row.upsert, .called .rawRecords row'.upsert], emptyStore) :=
    .process 0 rfl ⟨.missed rfl, rfl⟩
  have hlook' : (upsertPool plainRuntime castingDrivers_castsAlike).Step
      ([.missed .rawRecords row.upsert, .called .rawRecords row'.upsert], emptyStore)
      ([.missed .rawRecords row.upsert, .missed .rawRecords row'.upsert], emptyStore) :=
    .process 1 rfl ⟨.missed rfl, rfl⟩
  have hinsert := @Keyed.insert_step _ collections _ (IssuedUpsert plainRuntime
    castingDrivers_castsAlike) [.missed .rawRecords row.upsert, .missed .rawRecords row'.upsert]
    0 .rawRecords row.upsert rfl rfl emptyStore
  have hinsert' := @Keyed.insert_step _ collections _ (IssuedUpsert plainRuntime
    castingDrivers_castsAlike) [.finished, .missed .rawRecords row'.upsert]
    1 .rawRecords row'.upsert rfl rfl
    (Function.update emptyStore .rawRecords (emptyStore .rawRecords ++ [row.upsert.fresh]))
  -- only in the fifth state are both between their look-up and their insert
  have hnone : NoRace [] := fun i j c u v _ hi => by cases hi
  have hcalled : NoRace [.called .rawRecords row.upsert, .called .rawRecords row'.upsert] :=
    noRace_pair fun c u v h => by cases h
  have hmissed : NoRace [.missed .rawRecords row.upsert, .called .rawRecords row'.upsert] :=
    noRace_pair fun c u v _ h => by cases h
  have hboth : NoRace [.missed .rawRecords row.upsert, .missed .rawRecords row'.upsert] := by
    refine noRace_pair fun c u v h h' => ?_
    cases h
    cases h'
    exact hkeys
  have hleft : NoRace [.finished, .missed .rawRecords row'.upsert] :=
    noRace_pair fun c u v h => by cases h
  have hunique := (keyed_upserts_unique plainRuntime castingDrivers_castsAlike
    emptyStore_oneDocumentPerKey).1 _
    (.head ⟨hnone, hissue⟩ (.head ⟨noRace_singleton _, hissue'⟩ (.head ⟨hcalled, hlook⟩
      (.head ⟨hmissed, hlook'⟩ (.head ⟨hboth, hinsert⟩ (.single ⟨hleft, hinsert'⟩))))))
  exact ⟨row, row', _, hrow, hrow', rfl, hunique⟩

/-- A record landed by the sync and the reconcile worker at once has two rows. -/
theorem keyed_upserts_collide :
    ∃ row st, rawRow plainRuntime (issueSync.stamp cursorRecord) issueSync.rawContext = .ok row ∧
      rawRow plainRuntime (issueReconcile.stamp cursorRecord) issueReconcile.rawContext = .ok row ∧
      (upsertPool plainRuntime castingDrivers_castsAlike).Reaches ([], emptyStore) st ∧
      st.2 .rawRecords = [row, row] ∧ ¬ OneDocumentPerKey st.2 := by
  obtain ⟨row, hrow⟩ := @rawRow_of_printable plainRuntime (issueSync.stamp cursorRecord)
    issueSync.rawContext "r1" (nangoRecordId_stamped _ _ _)
  have hland := @IssuedUpsert.land plainRuntime _ castingDrivers_castsAlike _ _ _ hrow
  refine ⟨row, _, hrow, hrow, Keyed.reaches_race hland hland rfl rfl rfl, rfl, fun h => ?_⟩
  have hnodup := h.rawRecords
  simp [emptyStore] at hnodup

end Shiplog
