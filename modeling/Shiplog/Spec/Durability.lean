import Shiplog.ForStd.Evolves
import Shiplog.Spec.Provenance
import Shiplog.Spec.SpineSafety

/-!
# What the system never takes back

Every write of the API and the workers inserts a document, changes some fields of one in
place, or adds a job. `System.Retains` collects what such writes leave alone, collection by
collection; every step of the system guarantees it, so every run does.

## Key results

- `DeliveryStore.Retains`, `Pipeline.Retains`, `System.Retains`: what a write leaves alone
- `Proc.Step.retains`: one step of the system
- `shiplogSystem_retains`: a whole run
-/

namespace Shiplog

/-! ## Documents -/

/-- A dead letter is stamped at most, and not unstamped. -/
def DeadLetter.Retains (a b : DeadLetter) : Prop :=
  b = { a with replayedAt := b.replayedAt } ∧
    (a.replayedAt.isSome = true → b.replayedAt.isSome = true)

/-- A raw row keeps its key. -/
def RawRecord.Retains (a b : RawRecord) : Prop := b.key = a.key

/-- A cursor row keeps its key, and a cursor once it has one. -/
def SyncState.Retains (a b : SyncState) : Prop :=
  b.key = a.key ∧ (a.cursor.isSome = true → b.cursor.isSome = true)

/-- A connection keeps its ids, its tenant and its models, and is not deactivated. -/
def Connection.Retains (a b : Connection) : Prop :=
  b = { a with
    provider := b.provider, nangoIntegrationId := b.nangoIntegrationId, status := b.status } ∧
    (a.status = "active" → b.status = "active")

theorem DeadLetter.Retains.refl (a : DeadLetter) : a.Retains a := ⟨rfl, fun h => h⟩

theorem DeadLetter.Retains.trans (a b c : DeadLetter) (hab : a.Retains b) (hbc : b.Retains c) :
    a.Retains c := by
  refine ⟨?_, fun h => hbc.2 (hab.2 h)⟩
  rw [hbc.1, hab.1]

theorem RawRecord.Retains.refl (a : RawRecord) : a.Retains a := rfl

theorem RawRecord.Retains.trans (a b c : RawRecord) (hab : a.Retains b) (hbc : b.Retains c) :
    a.Retains c :=
  Eq.trans hbc hab

theorem SyncState.Retains.refl (a : SyncState) : a.Retains a := ⟨rfl, fun h => h⟩

theorem SyncState.Retains.trans (a b c : SyncState) (hab : a.Retains b) (hbc : b.Retains c) :
    a.Retains c :=
  ⟨hbc.1.trans hab.1, fun h => hbc.2 (hab.2 h)⟩

theorem Connection.Retains.refl (a : Connection) : a.Retains a := ⟨rfl, fun h => h⟩

theorem Connection.Retains.trans (a b c : Connection) (hab : a.Retains b) (hbc : b.Retains c) :
    a.Retains c := by
  refine ⟨?_, fun h => hbc.2 (hab.2 h)⟩
  rw [hbc.1, hab.1]

/-! ## Collections -/

/-- What a delivery run's calls leave alone. -/
structure DeliveryStore.Retains (s s' : DeliveryStore) : Prop where
  rawRecords : s.rawRecords.Evolves RawRecord.Retains s'.rawRecords
  syncStates : s.syncStates.Evolves SyncState.Retains s'.syncStates
  ingestJobs : s.ingestJobs <+: s'.ingestJobs

/-- What an ingest job's calls leave alone. -/
structure Pipeline.Retains (s s' : Pipeline) : Prop where
  spine : s.spine <+: s'.spine
  deadLetters : s.deadLetters.Evolves DeadLetter.Retains s'.deadLetters
  dlq : s.dlq <+: s'.dlq

/-- What every step of the system leaves alone. -/
structure System.Retains (s s' : System) : Prop where
  pipeline : s.toPipeline.Retains s'.toPipeline
  delivery : s.toDeliveryStore.Retains s'.toDeliveryStore
  connections : s.connections.Evolves Connection.Retains s'.connections
  syncRuns : s'.syncRuns = s.syncRuns
  nangoSyncJobs : s.nangoSyncJobs <+: s'.nangoSyncJobs
  reconcileJobs : s.reconcileJobs <+: s'.reconcileJobs

theorem DeliveryStore.Retains.refl (s : DeliveryStore) : s.Retains s where
  rawRecords := .refl RawRecord.Retains.refl _
  syncStates := .refl SyncState.Retains.refl _
  ingestJobs := List.prefix_refl _

theorem Pipeline.Retains.refl (s : Pipeline) : s.Retains s where
  spine := List.prefix_refl _
  deadLetters := .refl DeadLetter.Retains.refl _
  dlq := List.prefix_refl _

theorem System.Retains.refl (s : System) : s.Retains s where
  pipeline := .refl _
  delivery := .refl _
  connections := .refl Connection.Retains.refl _
  syncRuns := rfl
  nangoSyncJobs := List.prefix_refl _
  reconcileJobs := List.prefix_refl _

theorem DeliveryStore.Retains.trans {s s' s'' : DeliveryStore} (h : s.Retains s')
    (h' : s'.Retains s'') : s.Retains s'' where
  rawRecords := h.rawRecords.trans RawRecord.Retains.trans h'.rawRecords
  syncStates := h.syncStates.trans SyncState.Retains.trans h'.syncStates
  ingestJobs := h.ingestJobs.trans h'.ingestJobs

theorem Pipeline.Retains.trans {s s' s'' : Pipeline} (h : s.Retains s') (h' : s'.Retains s'') :
    s.Retains s'' where
  spine := h.spine.trans h'.spine
  deadLetters := h.deadLetters.trans DeadLetter.Retains.trans h'.deadLetters
  dlq := h.dlq.trans h'.dlq

theorem System.Retains.trans {s s' s'' : System} (h : s.Retains s') (h' : s'.Retains s'') :
    s.Retains s'' where
  pipeline := h.pipeline.trans h'.pipeline
  delivery := h.delivery.trans h'.delivery
  connections := h.connections.trans Connection.Retains.trans h'.connections
  syncRuns := h'.syncRuns.trans h.syncRuns
  nangoSyncJobs := h.nangoSyncJobs.trans h'.nangoSyncJobs
  reconcileJobs := h.reconcileJobs.trans h'.reconcileJobs

/-- Evolving raw rows and growing jobs are the growth that deliveries are stable under. -/
theorem DeliveryStore.Retains.grows {s s' : DeliveryStore} (h : s.Retains s') : s.Grows s' where
  rows := fun _ hrow => h.rawRecords.exists_mem hrow
  jobs := fun _ hjob => h.ingestJobs.subset hjob

/-! ## Workers -/

section Delivery

variable {rt : Runtime} {s : DeliveryStore}

/-- Landing a record replaces a payload or inserts a row. -/
theorem landRawRecord_retains {record : NangoRecord} {ctx : LandRawContext}
    {rawRecords : List RawRecord} (h : landRawRecord rt record ctx s.rawRecords = .ok rawRecords) :
    s.Retains { s with rawRecords } := by
  obtain ⟨row, -, rfl⟩ := landRawRecord_ok h
  exact { DeliveryStore.Retains.refl s with
    rawRecords := List.evolves_put RawRecord.Retains.refl (fun _ hkey => hkey.symm) _ }

private theorem DeliveryStore.retains_enqueue (s : DeliveryStore) (job : IngestJobData) :
    s.Retains { s with ingestJobs := s.ingestJobs ++ [job] } :=
  { DeliveryStore.Retains.refl s with ingestJobs := List.prefix_append _ _ }

/-- A checkpoint without a cursor leaves the one before. -/
private theorem ReconcileJobData.storeCursor_retains (job : ReconcileJobData)
    (cursor : Option String) :
    s.Retains { s with syncStates := job.storeCursor cursor s.syncStates } := by
  have hchange : ∀ state : SyncState,
      state.Retains { state with cursor := cursor.or state.cursor, mode := "incremental" } := by
    intro state
    refine ⟨rfl, fun hsome => ?_⟩
    cases cursor with
    | none => exact hsome
    | some c => rfl
  exact { DeliveryStore.Retains.refl s with
    syncStates := List.evolves_upsert SyncState.Retains.refl (fun state _ => hchange state) _ _ }

private theorem ReconcileRun.next_retains (nango : NangoListParams → Page) (run : ReconcileRun) :
    s.Retains (run.next rt nango s).2 := by
  cases run with
  | load job => exact .refl s
  | fetch job vars =>
    simp only [ReconcileRun.next]
    split <;> exact .refl s
  | land job vars page record rest =>
    simp only [ReconcileRun.next]
    cases hland : landRawRecord rt (job.stamp record) job.rawContext s.rawRecords with
    | error err => exact .refl s
    | ok rawRecords => exact landRawRecord_retains hland
  | enqueue job vars page record rest => exact s.retains_enqueue _
  | checkpoint job vars page =>
    rw [ReconcileRun.next_checkpoint_snd]
    exact job.storeCursor_retains _
  | finished result => exact .refl s

private theorem NangoSyncRun.next_retains (nango : NangoListParams → Page) (run : NangoSyncRun) :
    s.Retains (run.next rt nango s).2 := by
  cases run with
  | fetch job vars => exact .refl s
  | land job vars page record rest =>
    simp only [NangoSyncRun.next]
    cases hland : landRawRecord rt (job.stamp record) job.rawContext s.rawRecords with
    | error err => exact .refl s
    | ok rawRecords => exact landRawRecord_retains hland
  | enqueue job vars page record rest => exact s.retains_enqueue _
  | finished result => exact .refl s

end Delivery

/-- A step of an ingest job appends to one of its three collections, or to none. -/
theorem JobProc.Step.retains {rt : Runtime} {createThrows : Prop} {p p' : JobProc}
    {s s' : Pipeline} {new : List JobProc} (h : JobProc.Step rt createThrows p s p' s' new) :
    s.Retains s' := by
  cases h with
  | ingest now h => exact { Pipeline.Retains.refl s with spine := h.grows }
  | create id now h hdoc =>
    exact { Pipeline.Retains.refl s with
      deadLetters := List.evolves_append DeadLetter.Retains.refl _ _ }
  | park => exact { Pipeline.Retains.refl s with dlq := List.prefix_append _ _ }
  | _ => exact .refl s

/-! ## Handlers -/

section Handlers

variable {d : Drivers} {options : AppOptions} {env : RequestEnv} {t : ObjectId} {s : System}

/-- A registration sets the provider, the integration and the status. -/
private theorem Registration.set_retains (r : Registration) (connection : Connection) :
    connection.Retains (r.set connection) := ⟨rfl, fun _ => rfl⟩

private theorem ApiRequest.plan_retains (req : ApiRequest) :
    s.Retains (req.plan d options env t s).2 := by
  rcases @ApiRequest.plan_state d options env t s req with heq | ⟨v, r, heq⟩
  · rw [heq]
    exact .refl s
  · rw [heq]
    exact { System.Retains.refl s with
      connections := List.evolves_upsert Connection.Retains.refl
        (fun connection _ => r.set_retains connection) _ _ }

theorem System.add_retains (add : QueueAdd) : s.Retains (s.add add) := by
  cases add with
  | ingest data =>
    exact { System.Retains.refl s with delivery := s.toDeliveryStore.retains_enqueue data }
  | nangoSync data => exact { System.Retains.refl s with nangoSyncJobs := List.prefix_append _ _ }
  | reconcile data jobId =>
    exact { System.Retains.refl s with reconcileJobs := List.prefix_append _ _ }

private theorem stampPlan_retains (replayed : Option (ObjectId × ObjectId)) :
    s.Retains (stampPlan env replayed s) := by
  cases replayed with
  | none => exact .refl s
  | some item =>
    have hstamp := @List.evolves_updateOne _ _ (DeadLetter.isItem item.1 item.2)
      (fun doc => { doc with replayedAt := some env.now }) DeadLetter.Retains.refl
      (fun doc _ => ⟨rfl, fun _ => rfl⟩) s.deadLetters
    exact { System.Retains.refl s with
      pipeline := { Pipeline.Retains.refl s.toPipeline with deadLetters := hstamp } }

end Handlers

/-! ## The system -/

/-- **One step of the system** takes nothing back. -/
theorem Proc.Step.retains {rt : Runtime} {d : Drivers} {options : AppOptions} {p p' : Proc}
    {s s' : System} {new : List Proc} (h : Proc.Step rt d options p s p' s' new) :
    s.Retains s' := by
  cases h with
  | @request tenantId req _ env hid => exact ApiRequest.plan_retains req
  | webhook => exact .refl s
  | sweep => exact .refl s
  | @add add adds replayed _ hok => exact System.add_retains add
  | @stamp replayed _ env => exact stampPlan_retains replayed
  | @nangoSync run _ nango hlive =>
    exact { System.Retains.refl s with delivery := run.next_retains nango }
  | @reconcile run _ nango hlive =>
    exact { System.Retains.refl s with delivery := run.next_retains nango }
  | ingest hstep => exact { System.Retains.refl s with pipeline := hstep.retains }
  | throw hcan => exact .refl s

/-- What arrives changes no document and takes back no job. -/
theorem Arrival.retains {s s' : SystemStore} {new : List Proc} (h : Arrival s s' new) :
    s'.1 = s.1 ∧ s.2 <+: s'.2 := by
  cases h with
  | ingest hdata => exact ⟨rfl, List.prefix_append _ _⟩
  | _ => exact ⟨rfl, List.prefix_refl _⟩

/-- **Nothing is taken back.** Along any run of the system, whatever arrives and however its
    steps interleave and throw: events are only appended and never changed; dead letters,
    raw rows, cursor rows and connections stay, in their order, with a dead letter's replay
    stamp, a cursor and a connection's activation never undone; and no job leaves its
    queue's history. -/
theorem shiplogSystem_retains (rt : Runtime) (d : Drivers) (options : AppOptions)
    (procs procs' : List Proc) (s s' : System) (taken taken' : List IngestJobData)
    (h : (shiplogSystem rt d options).Reaches (procs, (s, taken)) (procs', (s', taken'))) :
    s.Retains s' ∧ taken <+: taken' := by
  refine h.rely (R := fun a b : SystemStore => a.1.Retains b.1 ∧ a.2 <+: b.2) ?_ ?_ ?_ ?_
  · exact fun a => ⟨.refl a.1, List.prefix_refl a.2⟩
  · exact fun a b c hab hbc => ⟨hab.1.trans hbc.1, hab.2.trans hbc.2⟩
  · intro p a p' b new hstep
    obtain ⟨hstep, htaken⟩ := hstep
    rw [htaken]
    exact ⟨hstep.retains, List.prefix_refl a.2⟩
  · intro a b new henv
    obtain ⟨hsame, htaken⟩ := henv.retains
    rw [hsame]
    exact ⟨.refl a.1, htaken⟩

/-- A registered connection is registered again, for another integration. -/
theorem shiplogSystem_retains_registered :
    registered.Retains (handle plainDrivers ⟨true, true, true⟩
      { plainEnv with newId := tenantA } tenantA
      (.postConnections (.obj [("nangoConnectionId", .str "nango-1"),
        ("nangoIntegrationId", .str "github-app")])) registered).2.2 :=
  (shiplogSystem_retains plainRuntime plainDrivers ⟨true, true, true⟩ _ _ _ _ [] []
    (handle_reaches plainRuntime plainDrivers ⟨true, true, true⟩
      { plainEnv with newId := tenantA } tenantA _ registered [] (by decide +kernel))).1

end Shiplog
