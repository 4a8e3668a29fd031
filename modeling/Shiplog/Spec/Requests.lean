import Shiplog.Native.Collections
import Shiplog.Spec.Noninterference

/-!
# What the answer to a request says

A handler looks at the collections, adds its jobs one by one, and answers. `Planned` lists
what a plan can be, route by route and refusal by refusal; everything else is a case analysis
over it.

## Key results

- `ApiRequest.planned`: what a handler plans
- `addAll_spec`: jobs are added up to the first that is rejected
- `serve_atomic`: a request that fails leaves every document alone, and adds a first part of its
  jobs at most
- `serve_truthful`: a request that succeeds has read what its answer lists, and has written and
  added what its answer speaks of
-/

namespace Shiplog

/-! ## Plans -/

/-- The filter of `GET /events`. -/
def eventsFilter (type : JsVal) : Filter := if type.truthy then [("type", .js type)] else []

/-- The provider a registration asks for: a destructuring default stands in for `undefined`. -/
def providerOf (body : JsVal) : JsVal :=
  match body.get "provider" with
  | .undefined => .str "github"
  | v => v

/-- What a handler may plan, having looked at `s`, and the state it goes on from. -/
inductive Planned (d : Drivers) (env : RequestEnv) (t : ObjectId) (s : System) :
    ApiRequest → Plan → System → Prop where
  | refused {req : ApiRequest} {response : Response} (h : 400 ≤ response.status) :
      Planned d env t s req { response := response } s
  | events {type : JsVal} {found : List Event}
      (h : withTenant.find d t (eventsFilter type) s.spine = .ok found) :
      Planned d env t s (.getEvents type)
        { response := ⟨200, .events (sortDesc Event.occurredAt found).length
            (sortDesc Event.occurredAt found)⟩ } s
  | connections {found : List Connection} (h : found = (sortAsc Connection.createdAt
      (s.connections.filter (·.tenantId = t))).take 100) :
      Planned d env t s .getConnections
        { response := ⟨200, .connections found.length found⟩ } s
  | syncRuns {found : List SyncRun} (h : found = (sortDesc SyncRun.createdAt
      (s.syncRuns.filter (·.tenantId = t))).take 50) :
      Planned d env t s .getSyncRuns { response := ⟨200, .syncRuns found.length found⟩ } s
  | deadLetters {found : List DeadLetter} (h : found = (sortDesc DeadLetter.failedAt
      (s.deadLetters.filter (·.tenantId = t))).take 100) :
      Planned d env t s .getDlq { response := ⟨200, .deadLetters found.length found⟩ } s
  | registered {body provider : JsVal} {r : Registration} {integrationId : JsVal}
      (hprovider : provider = providerOf body)
      (hcast : Registration.cast d (body.get "nangoConnectionId") integrationId provider = .ok r) :
      Planned d env t s (.postConnections body)
        { response := ⟨201, .registered
          (upsertConnection d env t (body.get "nangoConnectionId") r s.connections).1.id
          (body.get "nangoConnectionId") provider⟩ }
        { s with connections :=
          (upsertConnection d env t (body.get "nangoConnectionId") r s.connections).2 }
  | replayed {id : String} {oid : ObjectId} {item : DeadLetter}
      (hid : ObjectId.ofString? id = some oid)
      (h : s.deadLetters.find? (DeadLetter.isItem oid t) = some item) :
      Planned d env t s (.postReplay id)
        { response := ⟨200, .replayed item.id env.jobId item.payload⟩
          adds := [.ingest item.payload], replayed := some (oid, t) } s
  | reconciling {id : String} {body : JsVal} {connection : Connection} {models : List String}
      (hid : ObjectId.ofString? id = some connection.id)
      (hmem : connection ∈ s.connections) (ht : connection.tenantId = t)
      (hmodels : models = connection.modelsOrDefault ∨ ∃ model, body.get "model" = .str model ∧
        models = [model]) :
      Planned d env t s (.postReconcile id body)
        { response := ⟨202, .reconciling connection.id models models.length⟩
          adds := models.map (enqueueReconcileJob connection) } s
  | backfilled {id : String} {oid : ObjectId} (hid : ObjectId.ofString? id = some oid) :
      Planned d env t s (.postBackfill id)
        { response := ⟨200, .backfilled (backfillJobs oid t s.rawRecords).length⟩
          adds := (backfillJobs oid t s.rawRecords).map .ingest } s

section Plans

variable {d : Drivers} {options : AppOptions} {env : RequestEnv} {t : ObjectId} {s : System}

/-- A handler whose query throws answers with a 500. -/
private theorem Planned.look {req : ApiRequest} {plan : Plan} (h : Planned d env t s req plan s) :
    Planned d env t s req (env.look plan) s := by
  unfold RequestEnv.look
  split
  · exact .refused (Nat.le_of_ble_eq_true rfl)
  · exact h

private theorem getEvents_planned (type : JsVal) :
    Planned d env t s (.getEvents type) (getEvents d env t type s) s := by
  unfold getEvents
  simp only
  split
  · exact .refused (Nat.le_of_ble_eq_true rfl)
  · next found hfound => exact Planned.look (.events hfound)

private theorem postConnections_planned (body : JsVal) :
    Planned d env t s (.postConnections body) (postConnections d env t body s).1
      (postConnections d env t body s).2 := by
  unfold postConnections
  simp only
  split
  · exact .refused (by decide)
  · split
    · exact .refused (Nat.le_of_ble_eq_true rfl)
    · next r hr =>
      split
      · exact .refused (Nat.le_of_ble_eq_true rfl)
      · exact .registered rfl hr

private theorem postReplay_planned (id : String) :
    Planned d env t s (.postReplay id) (postReplay options env t id s) s := by
  unfold postReplay
  split
  · exact .refused (by decide)
  · split
    · exact .refused (by decide)
    · next oid hid =>
      refine Planned.look ?_
      split
      · exact .refused (by decide)
      · next item hitem => exact .replayed hid hitem

private theorem reconcilePlan_planned {id : String} {body : JsVal} {oid : ObjectId}
    {models : Connection → List String} (hid : ObjectId.ofString? id = some oid)
    (hmodels : ∀ connection, models connection = connection.modelsOrDefault ∨
      ∃ model, body.get "model" = .str model ∧ models connection = [model]) :
    Planned d env t s (.postReconcile id body) (reconcilePlan env t oid models s) s := by
  unfold reconcilePlan
  refine Planned.look ?_
  split
  · exact .refused (by decide)
  · next connection hconnection =>
    have htest := List.find?_some hconnection
    rw [Bool.and_eq_true, decide_eq_true_eq, decide_eq_true_eq] at htest
    rw [← htest.1] at hid
    exact .reconciling hid (List.mem_of_find?_eq_some hconnection) htest.2 (hmodels connection)

private theorem postReconcile_planned (id : String) (body : JsVal) :
    Planned d env t s (.postReconcile id body) (postReconcile options env t id body s) s := by
  unfold postReconcile
  split
  · exact .refused (by decide)
  · split
    · exact .refused (by decide)
    · next oid hid =>
      split
      · exact reconcilePlan_planned hid fun _ => Or.inl rfl
      · next model hmodel =>
        split
        · exact reconcilePlan_planned hid fun _ => Or.inl rfl
        · exact reconcilePlan_planned hid fun _ => Or.inr ⟨model, hmodel, rfl⟩
      · exact .refused (by decide)

private theorem postBackfill_planned (id : String) :
    Planned d env t s (.postBackfill id) (postBackfill options env t id s) s := by
  unfold postBackfill
  split
  · exact .refused (by decide)
  · split
    · exact .refused (by decide)
    · next oid hid => exact Planned.look (.backfilled hid)

/-- **What a handler plans.** -/
theorem ApiRequest.planned (req : ApiRequest) :
    Planned d env t s req (req.plan d options env t s).1 (req.plan d options env t s).2 := by
  cases req with
  | getEvents type => exact getEvents_planned type
  | getConnections => exact Planned.look (.connections rfl)
  | getSyncRuns => exact Planned.look (.syncRuns rfl)
  | getDlq => exact Planned.look (.deadLetters rfl)
  | postConnections body => exact postConnections_planned body
  | postReplay id => exact postReplay_planned id
  | postReconcile id body => exact postReconcile_planned id body
  | postBackfill id => exact postBackfill_planned id

/-- A refusal plans nothing, and a plan that adds jobs or stamps has changed nothing before. -/
theorem Planned.unchanged {req : ApiRequest} {plan : Plan} {s' : System}
    (h : Planned d env t s req plan s') :
    (400 ≤ plan.response.status → plan.adds = [] ∧ plan.replayed = none ∧ s' = s) ∧
      (plan.adds ≠ [] ∨ plan.replayed ≠ none → s' = s) := by
  have hno : ∀ status : Nat, status < 400 → 400 ≤ status → plan.adds = [] ∧
      plan.replayed = none ∧ s' = s := fun _ hlt hge => absurd hlt (Nat.not_lt_of_le hge)
  cases h with
  | refused h => exact ⟨fun _ => ⟨rfl, rfl, rfl⟩, fun _ => rfl⟩
  | registered => exact ⟨hno 201 (by decide), fun hne => (hne.elim (· rfl) (· rfl)).elim⟩
  | reconciling => exact ⟨hno 202 (by decide), fun _ => rfl⟩
  | events | connections | syncRuns | deadLetters | replayed | backfilled =>
    exact ⟨hno 200 (by decide), fun _ => rfl⟩

end Plans

/-! ## Adding jobs -/

/-- The documents of all collections, without the queues. -/
def System.documents (s : System) : System :=
  { s with ingestJobs := [], nangoSyncJobs := [], reconcileJobs := [] }

theorem documents_add (s : System) (add : QueueAdd) : (s.add add).documents = s.documents := by
  cases add <;> rfl

/-- The state with these jobs added. -/
def System.addJobs (s : System) (adds : List QueueAdd) : System := adds.foldl System.add s

private theorem documents_addJobs (s : System) (adds : List QueueAdd) :
    (s.addJobs adds).documents = s.documents := by
  induction adds generalizing s with
  | nil => rfl
  | cons add adds ih => exact (ih (s.add add)).trans (documents_add s add)

/-- The queues without the documents. -/
def System.queues (s : System) :
    List IngestJobData × List NangoSyncJobData × List ReconcileJobData :=
  (s.ingestJobs, s.nangoSyncJobs, s.reconcileJobs)

private theorem queues_addJobs {s s' : System} (h : s'.queues = s.queues) (adds : List QueueAdd) :
    (s'.addJobs adds).queues = (s.addJobs adds).queues := by
  induction adds generalizing s s' with
  | nil => exact h
  | cons add adds ih =>
    refine ih ?_
    simp only [System.queues, Prod.mk.injEq] at h ⊢
    obtain ⟨hingest, hsync, hreconcile⟩ := h
    cases add with
    | ingest data => exact ⟨congrArg (· ++ [data]) hingest, hsync, hreconcile⟩
    | nangoSync data => exact ⟨hingest, congrArg (· ++ [data]) hsync, hreconcile⟩
    | reconcile data jobId => exact ⟨hingest, hsync, congrArg (· ++ [data]) hreconcile⟩

/-- A plan carried out leaves its jobs on the queues and nothing else. -/
private theorem Planned.queues {d : Drivers} {env : RequestEnv} {t : ObjectId} {s s' : System}
    {req : ApiRequest} {plan : Plan} (h : Planned d env t s req plan s') :
    (stampPlan env plan.replayed (s'.addJobs plan.adds)).queues =
      (s.addJobs plan.adds).queues := by
  have hsame : s'.queues = s.queues := by
    cases h <;> rfl
  have hstamp : ∀ replayed s, (stampPlan env replayed s).queues = s.queues := by
    intro replayed s
    cases replayed <;> rfl
  rw [hstamp, queues_addJobs hsame]

/-- What adding jobs comes to: all of them, or those before the first whose `add` throws. -/
inductive Adding (d : Drivers) (addFault : ℕ → Option JsVal) (adds : List QueueAdd) (s : System) :
    Option JsVal × List QueueAdd × System → Prop where
  | all : Adding d addFault adds s (none, adds, s.addJobs adds)
  | thrown {added rest : List QueueAdd} {add : QueueAdd} {err : JsVal}
      (hadds : adds = added ++ add :: rest)
      (hthrow : (d.rejects add).or (addFault added.length) = some err) :
      Adding d addFault adds s (some err, added, s.addJobs added)

theorem addAll_spec (d : Drivers) (addFault : ℕ → Option JsVal) (adds : List QueueAdd)
    (s : System) : Adding d addFault adds s (addAll d addFault adds s) := by
  induction adds generalizing s addFault with
  | nil => exact .all
  | cons add adds ih =>
    unfold addAll
    cases hthrow : (d.rejects add).or (addFault 0) with
    | some err => exact .thrown (List.nil_append _).symm hthrow
    | none =>
      have hrest := ih (fun n => addFault (n + 1)) (s.add add)
      generalize addAll d _ adds (s.add add) = r at hrest
      cases hrest with
      | all => exact .all
      | thrown hadds hthrow => exact .thrown (congrArg (add :: ·) hadds) hthrow

/-- How a handler is cut short while it carries its plan out: an `add` throws, or, with all jobs
    added, the stamp does. -/
inductive Plan.CutShort (d : Drivers) (env : RequestEnv) (plan : Plan) :
    JsVal → List QueueAdd → Prop where
  | add {added rest : List QueueAdd} {add : QueueAdd} {err : JsVal}
      (hadds : plan.adds = added ++ add :: rest)
      (hthrow : (d.rejects add).or (env.addFault added.length) = some err) :
      CutShort d env plan err added
  | save {err : JsVal} (hreplayed : plan.replayed ≠ none) (hthrow : env.saveFault = some err) :
      CutShort d env plan err plan.adds

private theorem Plan.CutShort.initial {d : Drivers} {env : RequestEnv} {plan : Plan} {err : JsVal}
    {added : List QueueAdd} (h : plan.CutShort d env err added) : added <+: plan.adds := by
  cases h with
  | @add added rest add err hadds hthrow => exact ⟨add :: rest, hadds.symm⟩
  | save hreplayed hthrow => exact List.prefix_refl _

/-- **A handler** carries its plan out, or is cut short with a 500. -/
private theorem handle_spec (d : Drivers) (options : AppOptions) (env : RequestEnv) (t : ObjectId)
    (req : ApiRequest) (s : System) :
    ∃ plan s', req.plan d options env t s = (plan, s') ∧ Planned d env t s req plan s' ∧
      (handle d options env t req s =
          (plan.response, plan.adds, stampPlan env plan.replayed (s'.addJobs plan.adds)) ∨
        ∃ err added, plan.CutShort d env err added ∧
          handle d options env t req s = (serverError err, added, s.addJobs added)) := by
  have hplanned := @ApiRequest.planned d options env t s req
  unfold handle
  generalize req.plan d options env t s = p at hplanned ⊢
  obtain ⟨plan, s'⟩ := p
  refine ⟨plan, s', rfl, hplanned, ?_⟩
  have hadds := addAll_spec d env.addFault plan.adds s'
  simp only
  generalize addAll d env.addFault plan.adds s' = r at hadds
  cases hadds with
  | all =>
    simp only
    cases hsave : plan.replayed.bind fun _ => env.saveFault with
    | none => exact Or.inl rfl
    | some err =>
      -- a plan with something to stamp has changed no document yet
      obtain ⟨replayed, hreplayed, hthrow⟩ := Option.bind_eq_some_iff.mp hsave
      have hne : plan.replayed ≠ none := hreplayed ▸ Option.some_ne_none replayed
      rw [← hplanned.unchanged.2 (Or.inr hne)]
      exact Or.inr ⟨err, _, .save hne hthrow, rfl⟩
  | thrown hadds hthrow =>
    -- nor has one with something to add
    have hne : plan.adds ≠ [] :=
      hadds ▸ List.append_ne_nil_of_right_ne_nil _ (List.cons_ne_nil _ _)
    rw [← hplanned.unchanged.2 (Or.inl hne)]
    exact Or.inr ⟨_, _, .add hadds hthrow, rfl⟩

/-! ## Answers -/

/-- What a successful answer to a request of the tenant `t` says of the jobs added and of the
    state left. -/
def ApiRequest.Answered (d : Drivers) (t : ObjectId) (now : Int) (adds : List QueueAdd)
    (s : System) : ApiRequest → ResponseBody → Prop
  | .getEvents type, .events count found => adds = [] ∧ count = found.length ∧
      List.FirstBy (fun a b : Event => b.occurredAt ≤ a.occurredAt) s.spine.length
        (s.spine.filter fun event => event.tenantId = t &&
          (!type.truthy || d.eventMeets "type" (.js type) event)) found
  | .getConnections, .connections count found => adds = [] ∧ count = found.length ∧
      List.FirstBy (fun a b : Connection => a.createdAt ≤ b.createdAt) 100
        (s.connections.filter (·.tenantId = t)) found
  | .getSyncRuns, .syncRuns count found => adds = [] ∧ count = found.length ∧
      List.FirstBy (fun a b : SyncRun => b.createdAt ≤ a.createdAt) 50
        (s.syncRuns.filter (·.tenantId = t)) found
  | .getDlq, .deadLetters count found => adds = [] ∧ count = found.length ∧
      List.FirstBy (fun a b : DeadLetter => b.failedAt ≤ a.failedAt) 100
        (s.deadLetters.filter (·.tenantId = t)) found
  | .postConnections body, .registered id nangoConnectionId provider => adds = [] ∧
      nangoConnectionId = body.get "nangoConnectionId" ∧ provider = providerOf body ∧
      ∃ connection ∈ s.connections, connection.id = id ∧ connection.tenantId = t ∧
        connection.status = "active" ∧
        (∀ text, nangoConnectionId = .str text → connection.nangoConnectionId = some text) ∧
        ∀ text, provider = .str text → connection.provider = some text
  | .postReplay id, .replayed oid _ payload => adds = [.ingest payload] ∧
      ObjectId.ofString? id = some oid ∧
      ∃ item ∈ s.deadLetters, item.id = oid ∧ item.tenantId = t ∧ item.payload = payload ∧
        item.replayedAt = some now
  | .postReconcile id body, .reconciling oid models enqueued => adds.length = enqueued ∧
      ObjectId.ofString? id = some oid ∧
      ∃ connection ∈ s.connections, connection.id = oid ∧ connection.tenantId = t ∧
        adds = models.map (enqueueReconcileJob connection) ∧
        (models = connection.modelsOrDefault ∨
          ∃ model, body.get "model" = .str model ∧ models = [model])
  | .postBackfill id, .backfilled enqueued => adds.length = enqueued ∧
      ∃ oid, ObjectId.ofString? id = some oid ∧
        adds = (backfillJobs oid t s.rawRecords).map .ingest
  | _, _ => False

section Answers

variable {d : Drivers} {options : AppOptions} {env : RequestEnv} {t : ObjectId} {s : System}

/-- Oldest first, cut off. -/
private theorem firstBy_sortAsc {α : Type} (key : α → Int) (n : Nat) (docs : List α) :
    List.FirstBy (fun a b => key a ≤ key b) n docs ((sortAsc key docs).take n) := by
  have hfirst := @List.firstBy_take_mergeSort _ (fun a b => key a ≤ key b)
    (fun a b c hab hbc => by simp only [decide_eq_true_eq] at *; omega)
    (fun a b => by simp only [Bool.or_eq_true, decide_eq_true_eq]; omega) n docs
  simp only [decide_eq_true_eq] at hfirst
  exact hfirst

/-- Newest first, cut off. -/
private theorem firstBy_sortDesc {α : Type} (key : α → Int) (n : Nat) (docs : List α) :
    List.FirstBy (fun a b => key b ≤ key a) n docs ((sortDesc key docs).take n) := by
  have hfirst := @List.firstBy_take_mergeSort _ (fun a b => key b ≤ key a)
    (fun a b c hab hbc => by simp only [decide_eq_true_eq] at *; omega)
    (fun a b => by simp only [Bool.or_eq_true, decide_eq_true_eq]; omega) n docs
  simp only [decide_eq_true_eq] at hfirst
  exact hfirst

/-- The query of `GET /events` asks for the tenant and, where one is named, for the type. -/
private theorem meets_eventsFilter (d : Drivers) (t : ObjectId) (type : JsVal) (event : Event) :
    (withTenant.scopedFilter t (eventsFilter type)).meets d event =
      (decide (event.tenantId = t) && (!type.truthy || d.eventMeets "type" (.js type) event)) := by
  unfold eventsFilter
  cases htruthy : type.truthy with
  | false =>
    have hfilter : withTenant.scopedFilter t [] = [("tenantId", .id t)] := rfl
    simp only [Bool.false_eq_true, if_false, hfilter, Filter.meets, List.all_cons, List.all_nil,
      d.eventMeets_tenantId, Bool.and_true, Bool.not_false, Bool.true_or]
  | true =>
    have hfilter : withTenant.scopedFilter t [("type", .js type)] =
        [("type", .js type), ("tenantId", .id t)] := rfl
    simp only [if_true, hfilter, Filter.meets, List.all_cons, List.all_nil,
      d.eventMeets_tenantId, Bool.and_true, Bool.not_true, Bool.false_or]
    exact Bool.and_comm _ _

/-- The rows `GET /events` answers with. -/
private theorem firstBy_events {type : JsVal} {found : List Event}
    (h : withTenant.find d t (eventsFilter type) s.spine = .ok found) :
    List.FirstBy (fun a b : Event => b.occurredAt ≤ a.occurredAt) s.spine.length
      (s.spine.filter fun event => event.tenantId = t &&
        (!type.truthy || d.eventMeets "type" (.js type) event))
      (sortDesc Event.occurredAt found) := by
  unfold withTenant.find at h
  split at h
  · cases h
  · cases h
    rw [List.filter_congr fun event _ => meets_eventsFilter d t type event]
    have hfirst := firstBy_sortDesc Event.occurredAt s.spine.length (s.spine.filter fun event =>
      event.tenantId = t && (!type.truthy || d.eventMeets "type" (.js type) event))
    -- nothing is cut off: there are no more rows than that
    rwa [List.take_of_length_le] at hfirst
    unfold sortDesc
    rw [List.length_mergeSort]
    exact List.length_filter_le _ _

/-- The update of a registration holds its provider. -/
private theorem Registration.cast_provider {v nangoIntegrationId provider : JsVal}
    {r : Registration} (h : Registration.cast d v nangoIntegrationId provider = .ok r) :
    d.castString provider = .ok r.provider := by
  unfold Registration.cast at h
  cases hfilter : d.castConnectionIdFilter v with
  | some err =>
    rw [hfilter] at h
    cases h
  | none =>
    simp only [hfilter] at h
    obtain ⟨_, -, h⟩ := Except.bind_ok h
    obtain ⟨_, hcast, h⟩ := Except.bind_ok h
    obtain ⟨_, -, h⟩ := Except.bind_ok h
    cases h
    exact hcast

/-- The connection a registration answers with is stored, active, the tenant's, and under the
    id and the provider that were sent. -/
private theorem upsertConnection_mem {v nangoIntegrationId provider : JsVal} {r : Registration}
    (hcast : Registration.cast d v nangoIntegrationId provider = .ok r)
    (connections : List Connection) :
    ∃ connection ∈ (upsertConnection d env t v r connections).2,
      connection.id = (upsertConnection d env t v r connections).1.id ∧
      connection.tenantId = t ∧ connection.status = "active" ∧
      (∀ text, v = .str text → connection.nangoConnectionId = some text) ∧
      ∀ text, provider = .str text → connection.provider = some text := by
  have hmem := connections.upserted_mem (d.isRegistration t v) r.set (r.inserted env t)
  have hprovider : ∀ text, provider = .str text → r.provider = some (some text) := by
    intro text htext
    subst htext
    exact (Except.ok.inj (Registration.cast_provider hcast)).symm
  unfold upsertConnection
  cases hfind : connections.find? (d.isRegistration t v) with
  | some connection =>
    rw [hfind] at hmem
    simp only [hfind]
    have htest := List.find?_some hfind
    unfold Drivers.isRegistration at htest
    rw [Bool.and_eq_true, decide_eq_true_eq] at htest
    refine ⟨r.set connection, hmem, rfl, htest.1, rfl, fun text htext => ?_, fun text htext => ?_⟩
    · -- `$set` leaves the id alone that the filter asked for
      subst htext
      exact of_decide_eq_true htest.2
    · simp only [Registration.set, hprovider text htext, Option.getD_some]
  | none =>
    rw [hfind] at hmem
    simp only [hfind]
    refine ⟨r.inserted env t, hmem, rfl, rfl, rfl, fun text htext => ?_, fun text htext => ?_⟩
    · subst htext
      have hid := (Registration.cast_ok hcast).2
      simp only [Drivers.castString, Except.ok.injEq] at hid
      show r.nangoConnectionId.getD none = some text
      rw [← hid]
      rfl
    · simp only [Registration.inserted, hprovider text htext, Option.getD_some]

private theorem stampReplayed_mem {id : ObjectId} {now : Int} {deadLetters : List DeadLetter}
    {item : DeadLetter} (h : deadLetters.find? (DeadLetter.isItem id t) = some item) :
    { item with replayedAt := some now } ∈ stampReplayed id t now deadLetters := by
  unfold stampReplayed
  exact List.updated_mem h

/-- **A plan carried out**: what its answer says is so. -/
theorem Planned.answered {req : ApiRequest} {plan : Plan} {s' : System}
    (h : Planned d env t s req plan s') (hstatus : plan.response.status < 400) :
    req.Answered d t env.now plan.adds (stampPlan env plan.replayed (s'.addJobs plan.adds))
      plan.response.body := by
  cases h with
  | refused h => exact absurd h (Nat.not_le_of_lt hstatus)
  | events h => exact ⟨rfl, rfl, firstBy_events h⟩
  | connections h => exact ⟨rfl, rfl, h ▸ firstBy_sortAsc _ _ _⟩
  | syncRuns h => exact ⟨rfl, rfl, h ▸ firstBy_sortDesc _ _ _⟩
  | deadLetters h => exact ⟨rfl, rfl, h ▸ firstBy_sortDesc _ _ _⟩
  | registered hprovider hcast =>
    exact ⟨rfl, rfl, hprovider, upsertConnection_mem hcast s.connections⟩
  | @replayed id oid item hid hitem =>
    -- the stamped letter is the one that `findOne` gave
    have htest := List.find?_some hitem
    unfold DeadLetter.isItem at htest
    rw [Bool.and_eq_true, decide_eq_true_eq, decide_eq_true_eq] at htest
    refine ⟨rfl, ?_, _, stampReplayed_mem hitem, rfl, htest.2, rfl, rfl⟩
    rw [hid, htest.1]
  | @reconciling id body connection models hid hmem ht hmodels =>
    -- adds change no document, so the connection is still in the state left
    have hkept := congrArg System.connections
      (documents_addJobs s (models.map (enqueueReconcileJob connection)))
    exact ⟨List.length_map _, hid, connection, hkept.symm ▸ hmem, rfl, ht, rfl, hmodels⟩
  | @backfilled id oid hid =>
    have hkept := congrArg (fun s : System => s.rawRecords)
      (documents_addJobs s ((backfillJobs oid t s.rawRecords).map .ingest))
    refine ⟨List.length_map _, oid, hid, ?_⟩
    exact congrArg (fun raws => (backfillJobs oid t raws).map QueueAdd.ingest) hkept.symm

end Answers

/-! ## Requests -/

/-- A request is turned away, or is its tenant's to handle. -/
private theorem serve_cases (d : Drivers) (options : AppOptions) (env : RequestEnv)
    (tenants : List Tenant) (credentials : Credentials) (req : ApiRequest) (s : System) :
    (∃ response : Response, 400 ≤ response.status ∧
        serve d options env tenants credentials req s = (response, [], s)) ∨
      ∃ t, tenantAuth env tenants credentials = .ok t ∧
        serve d options env tenants credentials req s = handle d options env t req s := by
  unfold serve
  cases hauth : tenantAuth env tenants credentials with
  | ok t => exact Or.inr ⟨t, rfl, rfl⟩
  | error response =>
    refine Or.inl ⟨response, ?_, rfl⟩
    -- no key, no look at the tenants, or no such tenant
    unfold tenantAuth at hauth
    split at hauth
    · cases hauth
      exact (by decide : 400 ≤ 401)
    · split at hauth
      · cases hauth
        exact (by decide : 400 ≤ 401)
      · split at hauth
        · cases hauth
          exact (by decide : 400 ≤ 500)
        · split at hauth
          · cases hauth
            exact (by decide : 400 ≤ 401)
          · cases hauth

/-- **A request that fails is without effect** on the documents, whichever call on its way has
    thrown: the look at the tenants or at the collections, an `add`, or the stamp of a dead
    letter. Every job it has added is on its queue and is one its handler planned, in order;
    and without an error thrown on the way it has added none. -/
theorem serve_atomic (d : Drivers) (options : AppOptions) (env : RequestEnv)
    (tenants : List Tenant) (credentials : Credentials) (req : ApiRequest) (s : System)
    (hstatus : 400 ≤ (serve d options env tenants credentials req s).1.status) :
    let answered := serve d options env tenants credentials req s
    answered.2.2 = s.addJobs answered.2.1 ∧ answered.2.2.documents = s.documents ∧
      (answered.1.status ≠ 500 → answered.2.1 = []) ∧
      (answered.2.1 ≠ [] → ∃ t, tenantAuth env tenants credentials = .ok t ∧
        answered.2.1 <+: (req.plan d options env t s).1.adds) := by
  intro answered
  cases serve_cases d options env tenants credentials req s with
  | inl hdenied =>
    obtain ⟨response, -, hserve⟩ := hdenied
    have hanswered : answered = (response, [], s) := hserve
    rw [hanswered]
    exact ⟨rfl, rfl, fun _ => rfl, fun hne => absurd rfl hne⟩
  | inr hallowed =>
    obtain ⟨t, hauth, hserve⟩ := hallowed
    obtain ⟨plan, s', hplan, hplanned, hcase⟩ := handle_spec d options env t req s
    rw [hserve] at hstatus
    simp only [answered, hserve]
    cases hcase with
    | inl hall =>
      -- no call threw: an error of the handler's own, which plans nothing
      rw [hall] at hstatus ⊢
      obtain ⟨hadds, hreplayed, hs⟩ := hplanned.unchanged.1 hstatus
      rw [hadds, hreplayed, hs]
      exact ⟨rfl, rfl, fun _ => rfl, fun hne => absurd rfl hne⟩
    | inr hcut =>
      -- a call threw after some of the adds
      obtain ⟨err, added, hcut, hhandle⟩ := hcut
      rw [hhandle]
      refine ⟨rfl, documents_addJobs s added, fun hne => absurd rfl hne,
        fun _ => ⟨t, hauth, ?_⟩⟩
      rw [hplan]
      exact hcut.initial

/-- A tenant's connection with two models, the second with a colon in its name. -/
def twoModelState : System :=
  { deadLetterState [] with connections :=
    [{ id := tenantB, tenantId := tenantA, provider := none, nangoConnectionId := some "c",
       nangoIntegrationId := some "i", status := "active", models := ["Commit", "a:b"],
       createdAt := 0 }] }

/-- Redis is lost after the first `add`. -/
def lostQueue : RequestEnv :=
  { plainEnv with addFault := fun n => if n = 1 then some (.str "Connection is closed.") else none }

/-- The job of the first model is on its queue when the second one's `add` throws. -/
theorem serve_atomic_reconcile :
    let answered := serve plainDrivers ⟨true, true, true⟩ lostQueue [⟨tenantA, "key-a"⟩]
      ⟨none, some "key-a"⟩ (.postReconcile tenantB.hex .undefined) twoModelState
    answered.1.status = 500 ∧ answered.2.1.length = 1 ∧
      answered.2.2.documents = twoModelState.documents := by
  have hstatus : (serve plainDrivers ⟨true, true, true⟩ lostQueue [⟨tenantA, "key-a"⟩]
      ⟨none, some "key-a"⟩ (.postReconcile tenantB.hex .undefined) twoModelState).1.status = 500 :=
    by decide +kernel
  have hatomic := serve_atomic plainDrivers ⟨true, true, true⟩ lostQueue
    [⟨tenantA, "key-a"⟩] ⟨none, some "key-a"⟩ (.postReconcile tenantB.hex .undefined)
    twoModelState (by rw [hstatus]; decide)
  exact ⟨hstatus, by decide +kernel, hatomic.2.1⟩

/-- **A request that succeeds** has been made by a tenant, has put every job its handler planned
    on its queue, and what it answers is so: what it lists is what there is of that tenant, and
    what it says to have stored, stamped or enqueued is stored, stamped or enqueued. -/
theorem serve_truthful (d : Drivers) (options : AppOptions) (env : RequestEnv)
    (tenants : List Tenant) (credentials : Credentials) (req : ApiRequest) (s : System)
    (hstatus : (serve d options env tenants credentials req s).1.status < 400) :
    let answered := serve d options env tenants credentials req s
    ∃ t, tenantAuth env tenants credentials = .ok t ∧
      answered.2.1 = (req.plan d options env t s).1.adds ∧
      answered.2.2.queues = (s.addJobs answered.2.1).queues ∧
      req.Answered d t env.now answered.2.1 answered.2.2 answered.1.body := by
  intro answered
  cases serve_cases d options env tenants credentials req s with
  | inl hdenied =>
    obtain ⟨response, hdenied, hserve⟩ := hdenied
    rw [hserve] at hstatus
    exact absurd hstatus (Nat.not_lt_of_le hdenied)
  | inr hallowed =>
    obtain ⟨t, hauth, hserve⟩ := hallowed
    obtain ⟨plan, s', hplan, hplanned, hcase⟩ := handle_spec d options env t req s
    rw [hserve] at hstatus
    simp only [answered, hserve]
    refine ⟨t, hauth, ?_⟩
    cases hcase with
    | inl hall =>
      rw [hall] at hstatus ⊢
      rw [hplan]
      exact ⟨rfl, hplanned.queues, hplanned.answered hstatus⟩
    | inr hcut =>
      -- a call that throws makes the answer a 500
      obtain ⟨err, added, -, hhandle⟩ := hcut
      rw [hhandle] at hstatus
      exact absurd (show 500 < 400 from hstatus) (by decide)

/-- The dead letter that was replayed is stamped, and its payload is on the queue. -/
theorem serve_truthful_replay :
    ∃ item ∈ (replayOwn [emptyDeadLetter tenantA tenantA]).2.2.deadLetters,
      item.replayedAt = some 0 ∧
      (replayOwn [emptyDeadLetter tenantA tenantA]).2.1 = [.ingest item.payload] := by
  have hstatus : (replayOwn [emptyDeadLetter tenantA tenantA]).1.status < 400 := by decide +kernel
  obtain ⟨t, -, -, -, hanswered⟩ := serve_truthful plainDrivers ⟨true, true, true⟩
    plainEnv [⟨tenantA, "key-a"⟩] ⟨none, some "key-a"⟩ (.postReplay tenantA.hex)
    (deadLetterState [emptyDeadLetter tenantA tenantA]) hstatus
  obtain ⟨hadds, -, item, hitem, -, -, hpayload, hstamp⟩ := hanswered
  exact ⟨item, hitem, hstamp, hpayload ▸ hadds⟩

end Shiplog
