import Shiplog.Native.App

/-!
# The jobs of a handler

What a handler adds it copies from a document it has found: a reconcile job from a
connection of the caller's, an ingest job from a dead letter or a raw record of the
caller's. A webhook has no caller, and copies from any connection.

## Key results

- `ApiRequest.plan_madeFor`: where the jobs of a handler come from
- `webhookNango_adds`: where the job of a webhook comes from
-/

namespace Shiplog

/-- A job that a handler of the tenant's makes from one of the documents. -/
inductive AddFrom (t : ObjectId) (s : System) : QueueAdd → Prop where
  | replay {item : DeadLetter} (hitem : item ∈ s.deadLetters) (ht : item.tenantId = t) :
      AddFrom t s (.ingest item.payload)
  | reconcile {connection : Connection} (hconnection : connection ∈ s.connections)
      (ht : connection.tenantId = t) (model : String) :
      AddFrom t s (enqueueReconcileJob connection model)
  | backfill {raw : RawRecord} {id : ObjectId} (hraw : raw ∈ s.rawRecords)
      (hid : raw.connectionId = some id) (ht : raw.tenantId = t) :
      AddFrom t s (.ingest { tenantId := t, connectionId := some id, record := some raw.payload })

/-- The jobs of a plan are made from documents of the tenant's, and the dead letter it stamps
    is looked for under the tenant. -/
structure Plan.MadeFor (plan : Plan) (t : ObjectId) (s : System) : Prop where
  adds : ∀ add ∈ plan.adds, AddFrom t s add
  replayed : ∀ id u, plan.replayed = some (id, u) → u = t

/-- The jobs of a plan are reconcile jobs of connections of the tenant's. -/
structure Plan.Reconciles (plan : Plan) (t : ObjectId) (s : System) : Prop where
  adds : ∀ add ∈ plan.adds, ∃ connection ∈ s.connections, connection.tenantId = t ∧
    ∃ model, add = enqueueReconcileJob connection model
  replayed : plan.replayed = none

section Handlers

variable (d : Drivers) (options : AppOptions) (env : RequestEnv) {t : ObjectId} {s : System}

/-- A plan that adds and stamps nothing. -/
private theorem Plan.MadeFor.of_response {response : Response} :
    Plan.MadeFor ⟨response, [], none⟩ t s where
  adds := fun _ h => absurd h List.not_mem_nil
  replayed := nofun

/-- A handler whose query throws adds and stamps nothing. -/
theorem Plan.MadeFor.look {plan : Plan} (h : plan.MadeFor t s) : (env.look plan).MadeFor t s := by
  unfold RequestEnv.look
  split
  · exact .of_response
  · exact h

private theorem Plan.Reconciles.of_response {response : Response} :
    Plan.Reconciles ⟨response, [], none⟩ t s where
  adds := fun _ h => absurd h List.not_mem_nil
  replayed := rfl

theorem Plan.Reconciles.look {plan : Plan} (h : plan.Reconciles t s) :
    (env.look plan).Reconciles t s := by
  unfold RequestEnv.look
  split
  · exact .of_response
  · exact h

private theorem Plan.Reconciles.madeFor {plan : Plan} (h : plan.Reconciles t s) :
    plan.MadeFor t s where
  adds := by
    intro add hadd
    obtain ⟨connection, hmem, ht, model, rfl⟩ := h.adds add hadd
    exact .reconcile hmem ht model
  replayed := by
    intro id u hsome
    rw [h.replayed] at hsome
    cases hsome

private theorem postReplay_madeFor (id : String) : (postReplay options env t id s).MadeFor t s := by
  unfold postReplay
  split
  · exact .of_response
  · split
    · exact .of_response
    · refine Plan.MadeFor.look env ?_
      split
      · exact .of_response
      · next item hitem =>
        have htest := List.find?_some hitem
        unfold DeadLetter.isItem at htest
        rw [Bool.and_eq_true, decide_eq_true_eq, decide_eq_true_eq] at htest
        constructor
        · intro add hadd
          rw [List.mem_singleton.mp hadd]
          exact .replay (List.mem_of_find?_eq_some hitem) htest.2
        · intro id u h
          cases h
          rfl

private theorem reconcilePlan_reconciles (id : ObjectId) (models : Connection → List String) :
    (reconcilePlan env t id models s).Reconciles t s := by
  unfold reconcilePlan
  refine Plan.Reconciles.look env ?_
  split
  · exact .of_response
  · next connection hconnection =>
    have htest := List.find?_some hconnection
    rw [Bool.and_eq_true, decide_eq_true_eq, decide_eq_true_eq] at htest
    constructor
    · intro add hadd
      obtain ⟨model, -, rfl⟩ := List.mem_map.mp hadd
      exact ⟨connection, List.mem_of_find?_eq_some hconnection, htest.2, model, rfl⟩
    · rfl

/-- A manual reconcile is about a connection of the tenant's. -/
theorem postReconcile_reconciles (id : String) (body : JsVal) :
    (postReconcile options env t id body s).Reconciles t s := by
  unfold postReconcile
  split
  · exact .of_response
  · split
    · exact .of_response
    · -- all models of the connection, or the one requested
      split
      · exact reconcilePlan_reconciles env _ _
      · split
        · exact reconcilePlan_reconciles env _ _
        · exact reconcilePlan_reconciles env _ _
      · exact .of_response

/-- A backfill takes the connection id from the request, but only makes jobs from raw rows
    that carry it together with the tenant. -/
private theorem postBackfill_madeFor (id : String) :
    (postBackfill options env t id s).MadeFor t s := by
  unfold postBackfill
  split
  · exact .of_response
  · split
    · exact .of_response
    · refine Plan.MadeFor.look env ?_
      constructor
      · intro add hadd
        obtain ⟨job, hjob, rfl⟩ := List.mem_map.mp hadd
        obtain ⟨raw, hraw, rfl⟩ := List.mem_map.mp hjob
        obtain ⟨hmem, htest⟩ := List.mem_filter.mp hraw
        unfold RawRecord.isOf at htest
        rw [Bool.and_eq_true, decide_eq_true_eq, decide_eq_true_eq] at htest
        exact .backfill hmem htest.2 htest.1
      · exact nofun

/-- **A handler's plan** is made from documents of its tenant. -/
theorem ApiRequest.plan_madeFor (req : ApiRequest) :
    (req.plan d options env t s).1.MadeFor t s := by
  cases req with
  | getEvents type =>
    show (Shiplog.getEvents d env t type s).MadeFor t s
    unfold Shiplog.getEvents
    -- a filter that does not cast answers 500, and reads plan no add either way
    simp only
    generalize withTenant.find _ _ _ _ = found
    cases found with
    | error err => exact .of_response
    | ok rows => exact Plan.MadeFor.look env .of_response
  | getConnections => exact Plan.MadeFor.look env .of_response
  | getSyncRuns => exact Plan.MadeFor.look env .of_response
  | getDlq => exact Plan.MadeFor.look env .of_response
  | postConnections body =>
    show (Shiplog.postConnections d env t body s).1.MadeFor t s
    unfold Shiplog.postConnections
    simp only
    split
    · exact .of_response
    · split
      · exact .of_response
      · split
        · exact .of_response
        · exact .of_response
  | postReplay id => exact postReplay_madeFor options env id
  | postReconcile id body => exact (postReconcile_reconciles options env id body).madeFor
  | postBackfill id => exact postBackfill_madeFor options env id

end Handlers

/-- The job of a webhook takes its ids from a connection, whoever sent it. -/
theorem webhookNango_adds {rt : Runtime} {d : Drivers} {options : AppOptions} {payload : JsVal}
    {s : System} {add : QueueAdd}
    (h : add ∈ (webhookNango rt d options payload s).adds) :
    ∃ connection ∈ s.connections, ∃ data, add = .nangoSync data ∧
      data.connectionId = connection.id ∧ data.tenantId = connection.tenantId := by
  unfold webhookNango at h
  split at h
  · cases h
  · split at h
    · cases h
    · simp only at h
      split at h
      · cases h
      · split at h
        · cases h
        · next connection hconnection =>
          split at h
          · cases h
          · rw [List.mem_singleton.mp h]
            exact ⟨connection, List.mem_of_find?_eq_some hconnection, _, rfl, rfl, rfl⟩

/-- The jobs of a sweep tick are made from the connections. -/
theorem sweepAdds_adds {connections : List Connection} {add : QueueAdd}
    (h : add ∈ sweepAdds connections) :
    ∃ connection ∈ connections, ∃ model, add = enqueueReconcileJob connection model := by
  obtain ⟨connection, hmem, hadd⟩ := List.mem_flatMap.mp h
  obtain ⟨model, -, rfl⟩ := List.mem_map.mp hadd
  exact ⟨connection, (List.mem_filter.mp hmem).1, model, rfl⟩

end Shiplog
