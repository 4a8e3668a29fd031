import Shiplog.ForStd.Join
import Shiplog.Native.ReconcileQueue
import Shiplog.Spec.KeySeparation
import Shiplog.Spec.Provenance

/-!
# One writer per cursor

A reconcile job's id spells its connection and model, and the connection fixes the tenant, so
ids and `sync_state` rows determine each other. Ids are unique in the queue, hence no two jobs
address one row; and since ended jobs are removed on both paths, an id that exists is a live
job's, so a trigger is only ever absorbed by a live job of its own row.

## Key results

- `IsReconcileJob.key_inj`: jobs with one id address one row, and conversely
- `triggerPool_invariant`: the invariant of queue, documents and producers
- `Trigger.Step.planned`: a trigger plans an add for each row it is for
- `single_writer`: one live job a row, no trigger absorbed by another row's job, one job
  after every trigger
-/

namespace Shiplog

/-- A reconcile job for a connection of its own tenant, under the id that spells its row. -/
structure IsReconcileJob (owner : ObjectId → ObjectId) (jobId : String) (data : ReconcileJobData) :
    Prop where
  tenant : data.tenantId = owner data.connectionId
  spells : jobId = "reconcile:" ++ data.connectionId.toStr ++ ":" ++ data.model

namespace IsReconcileJob

variable {owner : ObjectId → ObjectId} {jobId jobId' : String} {data data' : ReconcileJobData}

/-- One id is one row: the connection's 24 digits end where the model begins. -/
theorem key_inj (h : IsReconcileJob owner jobId data) (h' : IsReconcileJob owner jobId data') :
    data.key = data'.key := by
  have hlen : ("reconcile:" ++ data.connectionId.toStr).toList.length =
      ("reconcile:" ++ data'.connectionId.toStr).toList.length := by
    simp only [String.toList_append, List.length_append, ObjectId.length_toStr]
  obtain ⟨hconn, hmodel⟩ := String.append_sep_inj_of_length hlen (h.spells.symm.trans h'.spells)
  have hid : data.connectionId = data'.connectionId :=
    ObjectId.toStr_inj ((String.append_right_inj "reconcile:").mp hconn)
  simp only [ReconcileJobData.key, h.tenant, h'.tenant, hid, hmodel]

/-- One row is one id. -/
theorem id_of_key (h : IsReconcileJob owner jobId data) (h' : IsReconcileJob owner jobId' data')
    (hkey : data.key = data'.key) : jobId = jobId' := by
  simp only [ReconcileJobData.key, Prod.mk.injEq] at hkey
  rw [h.spells, h'.spells, hkey.2.1, hkey.2.2]

end IsReconcileJob

/-! ## The producers -/

section Producers

variable {owner : ObjectId → ObjectId} {connections : List Connection}

/-- An add of one model of one of the connections. -/
def IsTrigger (connections : List Connection) (add : QueueAdd) : Prop :=
  ∃ connection ∈ connections, ∃ model, add = enqueueReconcileJob connection model

theorem sweepAdds_isTrigger {add : QueueAdd} (h : add ∈ sweepAdds connections) :
    IsTrigger connections add :=
  sweepAdds_adds h

private theorem postReconcile_isTrigger {options : AppOptions} {env : RequestEnv} {t : ObjectId}
    {id : String} {body : JsVal} {s : System} {add : QueueAdd}
    (h : add ∈ (postReconcile options env t id body s).adds) : IsTrigger s.connections add := by
  obtain ⟨connection, hmem, -, hadd⟩ := (postReconcile_reconciles options env id body).adds add h
  exact ⟨connection, hmem, hadd⟩

/-- What a trigger adds is a reconcile job under its own id. -/
theorem IsTrigger.job (hdocs : Documents owner connections) {add : QueueAdd}
    (h : IsTrigger connections add) :
    ∃ data jobId, add = .reconcile data jobId ∧ IsReconcileJob owner jobId data := by
  obtain ⟨connection, hmem, model, rfl⟩ := h
  exact ⟨_, _, rfl, hdocs.tenants connection hmem, rfl⟩

/-- Two triggers about one connection and model are one add: they read one document. -/
theorem IsTrigger.unique (hdocs : Documents owner connections) {data data' : ReconcileJobData}
    {jobId jobId' : String} (h : IsTrigger connections (.reconcile data jobId))
    (h' : IsTrigger connections (.reconcile data' jobId'))
    (hconn : data.connectionId = data'.connectionId) (hmodel : data.model = data'.model) :
    data = data' ∧ jobId = jobId' := by
  obtain ⟨connection, hmem, model, heq⟩ := h
  obtain ⟨connection', hmem', model', heq'⟩ := h'
  simp only [enqueueReconcileJob, QueueAdd.reconcile.injEq] at heq heq'
  obtain ⟨rfl, rfl⟩ := heq
  obtain ⟨rfl, rfl⟩ := heq'
  -- the connection id tells the document, and the document all else
  have hsame : connection = connection' := List.inj_on_of_nodup_map hdocs.ids hmem hmem' hconn
  have hsame' : model = model' := hmodel
  rw [hsame, hsame']
  exact ⟨rfl, rfl⟩

/-- The models a reconcile request is for: the one it names, or all of its connection's. -/
def requestedModels (body : JsVal) (connection : Connection) : List String :=
  match body.get "model" with
  | .undefined => connection.modelsOrDefault
  | .str model => if model = "" then connection.modelsOrDefault else [model]
  | _ => []

/-- The rows a trigger is for: for a tick all models of every active connection with a Nango
    id, for a valid request those it asks for of a connection of its tenant. -/
def Trigger.IsFor (options : AppOptions) (connection : Connection) (model : String) :
    Trigger → Prop
  | .sweep => connection.status = "active" ∧ connection.nangoConnectionId ≠ none ∧
      model ∈ connection.modelsOrDefault
  | .request tenantId id body => options.reconcileQueue = true ∧
      ObjectId.ofString? id = some connection.id ∧ connection.tenantId = tenantId ∧
      model ∈ requestedModels body connection
  | _ => False

private theorem mem_sweepAdds {connection : Connection} {model : String}
    (hmem : connection ∈ connections) (hactive : connection.status = "active")
    (hnango : connection.nangoConnectionId ≠ none) (hmodel : model ∈ connection.modelsOrDefault) :
    enqueueReconcileJob connection model ∈ sweepAdds connections := by
  have hswept : connection.isSwept = true := by
    simp [Connection.isSwept, hactive, Option.isSome_iff_ne_none, hnango]
  exact List.mem_flatMap.mpr ⟨connection, List.mem_filter.mpr ⟨hmem, hswept⟩,
    List.mem_map_of_mem hmodel⟩

/-- The connection a request names is the one its handler finds. -/
private theorem mem_reconcilePlan (hdocs : Documents owner connections) {env : RequestEnv}
    (hlook : env.lookFault = none) {connection : Connection} (hmem : connection ∈ connections)
    {models : Connection → List String} {model : String} (hmodel : model ∈ models connection)
    {s : System} (hs : s.connections = connections) :
    enqueueReconcileJob connection model ∈
      (reconcilePlan env connection.tenantId connection.id models s).adds := by
  have hfind : s.connections.find? (fun c => c.id = connection.id &&
      c.tenantId = connection.tenantId) = some connection := by
    subst hs
    obtain ⟨found, hfound⟩ : ∃ found, s.connections.find? (fun c => c.id = connection.id &&
        c.tenantId = connection.tenantId) = some found :=
      Option.isSome_iff_exists.mp (List.find?_isSome.mpr ⟨connection, hmem, by simp⟩)
    -- `_id`s are unique
    have hid : found.id = connection.id := by
      have htest := List.find?_some hfound
      rw [Bool.and_eq_true, decide_eq_true_eq] at htest
      exact htest.1
    rw [hfound, List.inj_on_of_nodup_map hdocs.ids (List.mem_of_find?_eq_some hfound) hmem hid]
  simp only [reconcilePlan, RequestEnv.look, hlook, hfind]
  exact List.mem_map_of_mem hmodel

private theorem mem_postReconcile (hdocs : Documents owner connections) {options : AppOptions}
    {env : RequestEnv} (hlook : env.lookFault = none) {connection : Connection}
    (hmem : connection ∈ connections) {t : ObjectId} {id model : String} {body : JsVal}
    (h : (Trigger.request t id body).IsFor options connection model) {s : System}
    (hs : s.connections = connections) :
    enqueueReconcileJob connection model ∈ (postReconcile options env t id body s).adds := by
  obtain ⟨hqueue, hid, rfl, hmodel⟩ := h
  unfold postReconcile
  rw [if_neg (by simp [hqueue]), hid]
  unfold requestedModels at hmodel
  cases hbody : body.get "model" with
  | undefined =>
    rw [hbody] at hmodel
    exact mem_reconcilePlan hdocs hlook hmem hmodel hs
  | str requested =>
    rw [hbody] at hmodel
    simp only at hmodel ⊢
    -- an empty name asks for all models
    split at hmodel
    · rw [if_pos ‹_›]
      exact mem_reconcilePlan hdocs hlook hmem hmodel hs
    · rw [if_neg ‹_›]
      exact mem_reconcilePlan hdocs hlook hmem hmodel hs
  | _ =>
    rw [hbody] at hmodel
    exact absurd hmodel List.not_mem_nil

/-- What a trigger is for it plans, unless it ends in a throw. -/
theorem Trigger.Step.planned {options : AppOptions} {p q : Trigger} {s s' : TriggerStore}
    (hdocs : Documents owner s.system.connections) (hstep : Trigger.Step options p s q s')
    (hq : q ≠ .done) {connection : Connection} (hmem : connection ∈ s.system.connections)
    {model : String} (h : p.IsFor options connection model) :
    ∃ adds, q = .adding adds ∧ enqueueReconcileJob connection model ∈ adds := by
  cases hstep with
  | sweep =>
    obtain ⟨hactive, hnango, hmodel⟩ := h
    exact ⟨_, rfl, mem_sweepAdds hmem hactive hnango hmodel⟩
  | request env hlook => exact ⟨_, rfl, mem_postReconcile hdocs hlook hmem h rfl⟩
  | add => exact h.elim
  | answer => exact h.elim
  | throw => exact absurd rfl hq

/-- A planned add is carried out, unless its trigger ends in a throw. -/
theorem Trigger.Step.kept {options : AppOptions} {adds : List QueueAdd} {add : QueueAdd}
    {q : Trigger} {s s' : TriggerStore} (hstep : Trigger.Step options (.adding adds) s q s')
    (hadd : add ∈ adds) (hq : q ≠ .done) :
    ∃ rest, q = .adding rest ∧ (add ∈ rest ∨ s'.queue = addReconcile add s.queue) := by
  cases hstep with
  | add =>
    rcases List.mem_cons.mp hadd with rfl | hrest
    · exact ⟨_, rfl, .inr rfl⟩
    · exact ⟨_, rfl, .inl hrest⟩
  | answer => exact absurd hadd List.not_mem_nil
  | throw => exact absurd rfl hq

end Producers

/-! ## The invariant -/

/-- The documents are in order, and the queue holds live jobs only, each under its own id. -/
structure TriggerInv (owner : ObjectId → ObjectId) (s : TriggerStore) : Prop where
  documents : Documents owner s.system.connections
  ids : (s.queue.map JobQueue.Entry.id).Nodup
  jobs : ∀ e ∈ s.queue, IsReconcileJob owner e.id e.data
  live : ∀ e ∈ s.queue, e.phase.live = true

/-- A producer adds reconcile jobs under their own ids. -/
def TriggerOk (owner : ObjectId → ObjectId) : Trigger → Prop
  | .adding adds => ∀ add ∈ adds,
      ∃ data jobId, add = .reconcile data jobId ∧ IsReconcileJob owner jobId data
  | _ => True

section Invariant

variable {owner : ObjectId → ObjectId} {s : TriggerStore}

theorem TriggerInv.add (h : TriggerInv owner s) {jobId : String} {data : ReconcileJobData}
    (hjob : IsReconcileJob owner jobId data) :
    TriggerInv owner { s with queue := JobQueue.add jobId data s.queue } where
  documents := h.documents
  ids := JobQueue.nodup_add h.ids
  jobs := by
    intro e he
    rcases JobQueue.mem_add he with he | ⟨rfl, -⟩
    · exact h.jobs e he
    · exact hjob
  live := by
    intro e he
    rcases JobQueue.mem_add he with he | ⟨rfl, -⟩
    · exact h.live e he
    · rfl

theorem TriggerInv.work (h : TriggerInv owner s) {queue : List ReconcileEntry}
    (hstep : JobQueue.Step reconcileJobOptions s.queue queue) :
    TriggerInv owner { s with queue } where
  documents := h.documents
  ids := hstep.nodup h.ids
  jobs := by
    intro e he
    obtain ⟨e₀, he₀, hid, hdata⟩ := hstep.mem he
    rw [hid, hdata]
    exact h.jobs e₀ he₀
  -- both terminal paths remove the job
  live := hstep.live rfl rfl h.live

/-- Every step of producers and workers keeps the invariant. -/
theorem triggerPool_invariant (owner : ObjectId → ObjectId) (options : AppOptions) :
    (triggerPool owner options).Invariant (TriggerInv owner) (fun _ => TriggerOk owner) where
  step := by
    intro p s p' s' new hI hp hstep
    obtain ⟨hstep, rfl⟩ := hstep
    suffices h : TriggerInv owner s' ∧ TriggerOk owner p' by
      exact ⟨h.1, h.2, fun q hq => absurd hq List.not_mem_nil, fun q hq => hq⟩
    cases hstep with
    | sweep => exact ⟨hI, fun add hadd => (sweepAdds_isTrigger hadd).job hI.documents⟩
    | request env =>
      exact ⟨hI, fun add hadd => (postReconcile_isTrigger hadd).job hI.documents⟩
    | add =>
      -- the next add of a plan read earlier, whatever the queue holds by now
      obtain ⟨⟨data, jobId, rfl, hjob⟩, hadds⟩ := List.forall_mem_cons.mp hp
      exact ⟨hI.add hjob, hadds⟩
    | answer => exact ⟨hI, trivial⟩
    | throw => exact ⟨hI, trivial⟩
  env := by
    intro s s' new hI henv
    cases henv with
    | sweep => exact ⟨hI, List.forall_mem_singleton.mpr trivial, fun q hq => hq⟩
    | request t id body => exact ⟨hI, List.forall_mem_singleton.mpr trivial, fun q hq => hq⟩
    | work h => exact ⟨hI.work h, fun q hq => absurd hq List.not_mem_nil, fun q hq => hq⟩
    | documents h =>
      exact ⟨⟨h, hI.ids, hI.jobs, hI.live⟩, fun q hq => absurd hq List.not_mem_nil, fun q hq => hq⟩

end Invariant

/-! ## The guarantees -/

/-- The live jobs that address a `sync_state` row. -/
def liveJobs (key : ObjectId × ObjectId × String) (queue : List ReconcileEntry) :
    List ReconcileEntry :=
  queue.filter fun e => e.phase.live && e.data.key = key

/-- What holds of the reconcile queue and its producers at any time. -/
structure SingleWriter (options : AppOptions) (procs : List Trigger) (s : TriggerStore) : Prop where
  /-- no two live jobs address one row -/
  oneWriter : ((s.queue.filter (·.phase.live)).map (·.data.key)).Nodup
  /-- jobs of different rows do not share an id -/
  idsApart : ∀ e ∈ s.queue, ∀ e' ∈ s.queue, e.data.key ≠ e'.data.key → e.id ≠ e'.id
  /-- an add is absorbed by a live job of its own row only -/
  absorbed : ∀ adds data jobId, .adding adds ∈ procs → .reconcile data jobId ∈ adds →
    ∀ e ∈ s.queue, e.id = jobId → e.phase.live = true ∧ e.data.key = data.key
  /-- a manual trigger and a tick for one connection and model carry the same data -/
  sameData : ∀ env t id body data jobId data' jobId',
    .reconcile data jobId ∈ (postReconcile options env t id body s.system).adds →
    .reconcile data' jobId' ∈ sweepAdds s.system.connections →
    data.connectionId = data'.connectionId → data.model = data'.model →
    data = data' ∧ jobId = jobId'
  /-- a trigger that does not throw at its read plans an add for each row it is for -/
  planned : ∀ p ∈ procs, ∀ q s', Trigger.Step options p s q s' → q ≠ .done →
    ∀ connection ∈ s.system.connections, ∀ model, p.IsFor options connection model →
      ∃ adds, q = .adding adds ∧ enqueueReconcileJob connection model ∈ adds
  /-- a planned add stays planned until it is carried out, unless its trigger throws -/
  kept : ∀ adds q s', .adding adds ∈ procs → Trigger.Step options (.adding adds) s q s' →
    q ≠ .done → ∀ add ∈ adds,
      ∃ rest, q = .adding rest ∧ (add ∈ rest ∨ s'.queue = addReconcile add s.queue)
  /-- an add leaves exactly one live job for its row, its own if there was none -/
  leavesOne : ∀ adds data jobId, .adding adds ∈ procs → .reconcile data jobId ∈ adds →
    ∃ e, liveJobs data.key (addReconcile (.reconcile data jobId) s.queue) = [e] ∧
      (liveJobs data.key s.queue = [] → e = ⟨jobId, data, 0, .waiting⟩)

section Guarantees

variable {owner : ObjectId → ObjectId} {s : TriggerStore} (h : TriggerInv owner s)
include h

/-- Jobs address different rows. -/
private theorem TriggerInv.keys_nodup : (s.queue.map (·.data.key)).Nodup := by
  refine (List.nodup_map_iff_inj_on h.ids.of_map).mpr fun e he e' he' hkey => ?_
  exact List.inj_on_of_nodup_map h.ids he he' ((h.jobs e he).id_of_key (h.jobs e' he') hkey)

/-- The live job of a row is the job with the row's id. -/
private theorem TriggerInv.liveJobs_eq {jobId : String} {data : ReconcileJobData}
    (hjob : IsReconcileJob owner jobId data) :
    liveJobs data.key s.queue = s.queue.filter (·.id = jobId) := by
  refine List.filter_congr fun e he => ?_
  rw [h.live e he, Bool.true_and, decide_eq_decide]
  constructor
  · exact (h.jobs e he).id_of_key hjob
  · intro hid
    exact (hid ▸ h.jobs e he).key_inj hjob

/-- An add leaves exactly one live job for its row. -/
theorem TriggerInv.leavesOne {jobId : String} {data : ReconcileJobData}
    (hjob : IsReconcileJob owner jobId data) :
    ∃ e, liveJobs data.key (JobQueue.add jobId data s.queue) = [e] ∧
      (liveJobs data.key s.queue = [] → e = ⟨jobId, data, 0, .waiting⟩) := by
  obtain ⟨e, he⟩ := JobQueue.filter_add h.ids jobId data
  have hlive : liveJobs data.key (JobQueue.add jobId data s.queue) = [e] := by
    rw [← he]
    exact (h.add hjob).liveJobs_eq hjob
  refine ⟨e, hlive, fun hnone => ?_⟩
  rw [h.liveJobs_eq hjob, List.filter_eq_nil_iff] at hnone
  -- the id is free, so the job added is the one with the id
  have hadd : JobQueue.add jobId data s.queue = s.queue ++ [⟨jobId, data, 0, .waiting⟩] :=
    JobQueue.add_of_free fun e' he' hid => hnone e' he' (decide_eq_true hid)
  have hnew : (⟨jobId, data, 0, .waiting⟩ : ReconcileEntry) ∈
      (JobQueue.add jobId data s.queue).filter (·.id = jobId) := by
    rw [hadd]
    exact List.mem_filter.mpr ⟨List.mem_concat_self, decide_eq_true rfl⟩
  rw [he] at hnew
  exact (List.mem_singleton.mp hnew).symm

end Guarantees

/-- **Single writer, and no swallowed trigger.** From an empty queue and any documents, however
    ticks, requests, workers and changes of the documents interleave: in every state reached
    no two live jobs address one `sync_state` row, jobs of different rows have different ids,
    an add is absorbed by a live job of its own row only, and manual and scheduled triggers
    carry the same data. A tick plans an add for every model of every active connection, a
    valid request for those it asks for; each is carried out unless its trigger throws, and
    leaves exactly one live job for its row. -/
theorem single_writer (owner : ObjectId → ObjectId) (options : AppOptions) (s₀ s : TriggerStore)
    (procs : List Trigger) (hdocs : Documents owner s₀.system.connections)
    (hempty : s₀.queue = [])
    (h : (triggerPool owner options).Reaches ([], s₀) (procs, s)) :
    SingleWriter options procs s := by
  have hstart : TriggerInv owner s₀ := by
    constructor
    · exact hdocs
    · rw [hempty]
      exact List.nodup_nil
    · rw [hempty]
      exact fun e he => absurd he List.not_mem_nil
    · rw [hempty]
      exact fun e he => absurd he List.not_mem_nil
  obtain ⟨hinv, hprocs⟩ := (triggerPool_invariant owner options).reaches h hstart
    fun p hp => absurd hp List.not_mem_nil
  -- what a trigger is about to add is a job under its own id
  have hadds : ∀ {adds data jobId}, Trigger.adding adds ∈ procs →
      QueueAdd.reconcile data jobId ∈ adds → IsReconcileJob owner jobId data := by
    intro adds data jobId hp hadd
    obtain ⟨data', jobId', heq, hjob⟩ := hprocs _ hp _ hadd
    cases heq
    exact hjob
  constructor
  · exact hinv.keys_nodup.sublist (List.filter_sublist.map _)
  · intro e he e' he' hkey hid
    exact hkey ((hid ▸ hinv.jobs e he).key_inj (hinv.jobs e' he'))
  · intro adds data jobId hp hadd e he hid
    exact ⟨hinv.live e he, (hid ▸ hinv.jobs e he).key_inj (hadds hp hadd)⟩
  · intro env t id body data jobId data' jobId' hmanual htick
    exact (postReconcile_isTrigger hmanual).unique hinv.documents (sweepAdds_isTrigger htick)
  · intro p _ q s' hstep hq connection hmem model hfor
    exact hstep.planned hinv.documents hq hmem hfor
  · intro adds q s' _ hstep hq add hadd
    exact hstep.kept hadd hq
  · intro adds data jobId hp hadd
    exact hinv.leavesOne (hadds hp hadd)

/-! ## A manual trigger during a scheduled run -/

/-- The add of the registered connection's only model. -/
def commitAdd : QueueAdd := .reconcile sweptJob "reconcile:bbbbbbbbbbbbbbbbbbbbbbbb:Commit"

/-- A tick has added the job; a request for the same connection is about to. -/
def tickThenRequest : List Trigger × TriggerStore :=
  ([.adding [], .adding [commitAdd]], ⟨registered, addReconcile commitAdd []⟩)

private theorem tickThenRequest_reaches :
    (triggerPool (fun _ => tenantA) ⟨true, true, true⟩).Reaches ([], ⟨registered, []⟩)
      tickThenRequest := by
  have htick : (triggerPool (fun _ => tenantA) ⟨true, true, true⟩).Step ([], ⟨registered, []⟩)
      ([.sweep], ⟨registered, []⟩) := .environment .sweep
  have hread : (triggerPool (fun _ => tenantA) ⟨true, true, true⟩).Step
      ([.sweep], ⟨registered, []⟩) ([.adding [commitAdd]], ⟨registered, []⟩) :=
    .alone ⟨.sweep, rfl⟩
  have hadd : (triggerPool (fun _ => tenantA) ⟨true, true, true⟩).Step
      ([.adding [commitAdd]], ⟨registered, []⟩)
      ([.adding []], ⟨registered, addReconcile commitAdd []⟩) :=
    .alone ⟨.add, rfl⟩
  have hrequest : (triggerPool (fun _ => tenantA) ⟨true, true, true⟩).Step
      ([.adding []], ⟨registered, addReconcile commitAdd []⟩)
      ([.adding [], .request tenantA tenantB.hex (.obj [])],
        ⟨registered, addReconcile commitAdd []⟩) :=
    .environment (.request tenantA tenantB.hex (.obj []))
  have hlookup : (triggerPool (fun _ => tenantA) ⟨true, true, true⟩).Step
      ([.adding [], .request tenantA tenantB.hex (.obj [])],
        ⟨registered, addReconcile commitAdd []⟩) tickThenRequest :=
    .process 1 rfl ⟨.request plainEnv rfl, rfl⟩
  exact .head htick (.head hread (.head hadd (.head hrequest (.single hlookup))))

theorem single_writer_tickThenRequest :
    ∃ e, liveJobs sweptJob.key (addReconcile commitAdd tickThenRequest.2.queue) = [e] := by
  have hdocs : Documents (fun _ => tenantA) registered.connections := ⟨by decide, by decide⟩
  have hsafe := single_writer (fun _ => tenantA) ⟨true, true, true⟩ ⟨registered, []⟩
    tickThenRequest.2 tickThenRequest.1 hdocs rfl tickThenRequest_reaches
  obtain ⟨e, he, -⟩ := hsafe.leavesOne [commitAdd] _ _
    (List.mem_cons_of_mem _ List.mem_cons_self) List.mem_cons_self
  exact ⟨e, he⟩

end Shiplog
