import Shiplog.Spec.HandlerAdds
import Shiplog.Spec.IngestCorrect

/-!
# Tenant noninterference of the HTTP API

`System.part p` is what a state holds of the tenants that pass `p`. Every query of a
handler stays within its tenant's part, so a handler makes the same plan in a state and in
the tenant's part of it; every write and every added job is the tenant's own, so it shows
in the tenant's part and in no other.

## Key results

- `ApiRequest.plan_part`: a handler's plan is made from its tenant's part
- `ApiRequest.part_plan_of_not`: what a handler changes on the way shows in its tenant's part only
- `handle_part`: a request is answered in the tenant's part as in the whole state
- `api_noninterference`: two states that agree on a tenant's documents and jobs cannot be
  told apart by that tenant's requests
-/

namespace Shiplog

/-! ## Parts of a state -/

/-- The documents and jobs of the tenants that pass `p`. -/
def System.part (p : ObjectId → Bool) (s : System) : System where
  spine := s.spine.filter fun row => p row.tenantId
  deadLetters := s.deadLetters.filter fun doc => p doc.tenantId
  dlq := s.dlq.filter fun job => p job.2.tenantId
  rawRecords := s.rawRecords.filter fun row => p row.tenantId
  syncStates := s.syncStates.filter fun state => p state.tenantId
  ingestJobs := s.ingestJobs.filter fun job => p job.tenantId
  connections := s.connections.filter fun connection => p connection.tenantId
  syncRuns := s.syncRuns.filter fun run => p run.tenantId
  nangoSyncJobs := s.nangoSyncJobs.filter fun job => p job.tenantId
  reconcileJobs := s.reconcileJobs.filter fun job => p job.tenantId

/-- What a state holds of one tenant. -/
abbrev System.ofTenant (t : ObjectId) : System → System := System.part fun u => u = t

/-- What a state holds of all the others. -/
abbrev System.ofOthers (t : ObjectId) : System → System := System.part fun u => u ≠ t

/-- Every dead letter's payload has the tenant of its document. -/
def PayloadsOwned (s : System) : Prop := ∀ doc ∈ s.deadLetters, doc.payload.tenantId = doc.tenantId

/-- A job added shows in its tenant's part. -/
private theorem System.part_add {p : ObjectId → Bool} {add : QueueAdd} (h : p add.tenantId = true)
    (s : System) : (s.add add).part p = (s.part p).add add := by
  unfold System.add System.part
  cases add with
  | ingest data =>
    have hp : [data].filter (fun job => p job.tenantId) = [data] := List.filter_cons_of_pos h
    simp only [List.filter_append, hp]
  | nangoSync data =>
    have hp : [data].filter (fun job => p job.tenantId) = [data] := List.filter_cons_of_pos h
    simp only [List.filter_append, hp]
  | reconcile data jobId =>
    have hp : [data].filter (fun job => p job.tenantId) = [data] := List.filter_cons_of_pos h
    simp only [List.filter_append, hp]

/-- A job added does not show in the part of others. -/
private theorem System.part_add_of_not {p : ObjectId → Bool} {add : QueueAdd}
    (h : p add.tenantId = false) (s : System) : (s.add add).part p = s.part p := by
  have hneg : ¬ p add.tenantId = true := by
    rw [h]
    exact Bool.false_ne_true
  unfold System.add System.part
  cases add with
  | ingest data =>
    have hp : [data].filter (fun job => p job.tenantId) = [] := List.filter_cons_of_neg hneg
    simp only [List.filter_append, hp, List.append_nil]
  | nangoSync data =>
    have hp : [data].filter (fun job => p job.tenantId) = [] := List.filter_cons_of_neg hneg
    simp only [List.filter_append, hp, List.append_nil]
  | reconcile data jobId =>
    have hp : [data].filter (fun job => p job.tenantId) = [] := List.filter_cons_of_neg hneg
    simp only [List.filter_append, hp, List.append_nil]

private theorem DeadLetter.tenantId_of_isItem {id t : ObjectId} {doc : DeadLetter}
    (h : doc.isItem id t = true) : doc.tenantId = t := by
  unfold DeadLetter.isItem at h
  simp only [Bool.and_eq_true, decide_eq_true_eq] at h
  exact h.2

/-- A stamped dead letter shows in its tenant's part. -/
private theorem part_stampPlan {p : ObjectId → Bool} {t : ObjectId} (h : p t = true)
    (env : RequestEnv) (id : ObjectId) (s : System) :
    (stampPlan env (some (id, t)) s).part p = stampPlan env (some (id, t)) (s.part p) := by
  have hitem : ∀ doc : DeadLetter, doc.isItem id t = true → p doc.tenantId = true := by
    intro doc hdoc
    rw [DeadLetter.tenantId_of_isItem hdoc, h]
  have hstamp : (stampReplayed id t env.now s.deadLetters).filter (fun doc => p doc.tenantId) =
      stampReplayed id t env.now (s.deadLetters.filter fun doc => p doc.tenantId) := by
    apply List.filter_updateOne hitem
    exact hitem
  unfold stampPlan System.part
  simp only [hstamp]

/-- A stamped dead letter does not show in the part of others. -/
private theorem part_stampPlan_of_not {p : ObjectId → Bool} {t : ObjectId} (h : p t = false)
    (env : RequestEnv) (id : ObjectId) (s : System) :
    (stampPlan env (some (id, t)) s).part p = s.part p := by
  have hitem : ∀ doc : DeadLetter, doc.isItem id t = true → p doc.tenantId = false := by
    intro doc hdoc
    rw [DeadLetter.tenantId_of_isItem hdoc, h]
  have hstamp : (stampReplayed id t env.now s.deadLetters).filter (fun doc => p doc.tenantId) =
      s.deadLetters.filter fun doc => p doc.tenantId := by
    apply List.filter_updateOne_of_not hitem
    exact hitem
  unfold stampPlan System.part
  simp only [hstamp]

/-! ## Scoped queries -/

/-- A scoped filter asks for the tenant, whatever the filter says about it. -/
private theorem mem_scopedFilter (t : ObjectId) (filter : Filter) :
    ("tenantId", FilterValue.id t) ∈ withTenant.scopedFilter t filter := by
  unfold withTenant.scopedFilter
  rcases List.exists_mem_upsert (fun entry : String × FilterValue => decide (entry.1 = "tenantId"))
    (fun entry => (entry.1, .id t)) ("tenantId", .id t) filter with ⟨entry, -, hkey, hmem⟩ | hmem
  · rw [decide_eq_true_eq] at hkey
    rw [hkey] at hmem
    exact hmem
  · exact hmem

/-- A row that meets a scoped filter is the tenant's. -/
private theorem tenantId_of_meets {d : Drivers} {t : ObjectId} {filter : Filter} {row : Event}
    (h : (withTenant.scopedFilter t filter).meets d row = true) : row.tenantId = t := by
  unfold Filter.meets at h
  -- the tenant's own condition is one of those the row meets
  have hentry := List.all_eq_true.mp h _ (mem_scopedFilter t filter)
  rw [d.eventMeets_tenantId, decide_eq_true_eq] at hentry
  exact hentry

section WithTenant

variable (d : Drivers) (t : ObjectId) (filter : Filter) {spine spine' : Spine}

private theorem withTenant_find_agree
    (h : spine.filter (·.tenantId = t) = spine'.filter (·.tenantId = t)) :
    withTenant.find d t filter spine = withTenant.find d t filter spine' := by
  unfold withTenant.find
  rw [List.filter_eq_of_agree h fun row hrow => decide_eq_true (tenantId_of_meets hrow)]

private theorem withTenant_findOne_agree
    (h : spine.filter (·.tenantId = t) = spine'.filter (·.tenantId = t)) :
    withTenant.findOne d t filter spine = withTenant.findOne d t filter spine' := by
  unfold withTenant.findOne
  rw [List.find?_eq_of_agree h fun row hrow => decide_eq_true (tenantId_of_meets hrow)]

private theorem withTenant_countDocuments_agree
    (h : spine.filter (·.tenantId = t) = spine'.filter (·.tenantId = t)) :
    withTenant.countDocuments d t filter spine = withTenant.countDocuments d t filter spine' := by
  unfold withTenant.countDocuments
  rw [List.countP_eq_of_agree h fun row hrow => decide_eq_true (tenantId_of_meets hrow)]

/-- `find` answers with the tenant's rows only. -/
private theorem withTenant_find_own {rows : List Event}
    (h : withTenant.find d t filter spine = .ok rows) :
    ∀ row ∈ rows, row.tenantId = t := by
  intro row hrow
  unfold withTenant.find at h
  split at h
  · exact nomatch h
  · cases h
    exact tenantId_of_meets (List.mem_filter.mp hrow).2

/-- `findOne` answers with a row of the tenant. -/
private theorem withTenant_findOne_own {row : Event}
    (h : withTenant.findOne d t filter spine = .ok (some row)) : row.tenantId = t := by
  unfold withTenant.findOne at h
  split at h
  · exact nomatch h
  · exact tenantId_of_meets (List.find?_some (Except.ok.inj h))

end WithTenant

/-! ## Handlers -/

/-- A connection found by its registration is the tenant's. -/
private theorem tenantId_of_isRegistration {d : Drivers} {t : ObjectId} {v : JsVal} {c : Connection}
    (h : d.isRegistration t v c = true) : c.tenantId = t := by
  unfold Drivers.isRegistration at h
  rw [Bool.and_eq_true, decide_eq_true_eq] at h
  exact h.1

section Part

variable {p : ObjectId → Bool} {t : ObjectId}

/-- A document of the tenant is in a part that holds it. -/
private theorem own_part (hp : p t = true) {u : ObjectId} (hu : decide (u = t) = true) :
    p u = true := by
  rw [of_decide_eq_true hu, hp]

/-- The upsert of a registration, seen from the tenant's part. -/
private theorem upsertConnection_part (hp : p t = true) (d : Drivers) (env : RequestEnv) (v : JsVal)
    (r : Registration) (connections : List Connection) :
    upsertConnection d env t v r (connections.filter fun c => p c.tenantId) =
      ((upsertConnection d env t v r connections).1,
        (upsertConnection d env t v r connections).2.filter fun c => p c.tenantId) := by
  have hreg : ∀ c, d.isRegistration t v c = true → p c.tenantId = true := by
    intro c hc
    rw [tenantId_of_isRegistration hc, hp]
  have hupsert : (connections.upsert (d.isRegistration t v) r.set (r.inserted env t)).filter
      (fun c => p c.tenantId) =
      (connections.filter fun c => p c.tenantId).upsert (d.isRegistration t v) r.set
        (r.inserted env t) := by
    apply List.filter_upsert hreg
    · exact hreg
    · exact hp
  unfold upsertConnection
  simp only [hupsert, List.find?_filter_of_imp hreg]

/-- The upsert of a registration does not show in the part of others. -/
private theorem upsertConnection_part_of_not (hp : p t = false) (d : Drivers) (env : RequestEnv)
    (v : JsVal) (r : Registration) (connections : List Connection) :
    ((upsertConnection d env t v r connections).2.filter fun c => p c.tenantId) =
      connections.filter fun c => p c.tenantId := by
  have hreg : ∀ c, d.isRegistration t v c = true → p c.tenantId = false := by
    intro c hc
    rw [tenantId_of_isRegistration hc, hp]
  unfold upsertConnection
  apply List.filter_upsert_of_not hreg
  · exact hreg
  · exact hp

variable (d : Drivers) (options : AppOptions) (env : RequestEnv) (req : ApiRequest) (s : System)

private theorem postConnections_part (hp : p t = true) (body : JsVal) :
    postConnections d env t body (s.part p) =
      ((postConnections d env t body s).1, (postConnections d env t body s).2.part p) := by
  unfold postConnections
  simp only
  split
  · rfl
  · split
    · rfl
    · next r hcast =>
      split
      · rfl
      have hconn : (s.part p).connections = s.connections.filter fun c => p c.tenantId := rfl
      rw [hconn, upsertConnection_part hp]
      rfl

private theorem postConnections_part_of_not (hp : p t = false) (body : JsVal) :
    (postConnections d env t body s).2.part p = s.part p := by
  unfold postConnections
  simp only
  split
  · rfl
  · split
    · rfl
    · next r hcast =>
      split
      · rfl
      unfold System.part
      simp only [upsertConnection_part_of_not hp]

private theorem getEvents_part (hp : p t = true) (type : JsVal) :
    getEvents d env t type (s.part p) = getEvents d env t type s := by
  have hfind : ∀ filter, withTenant.find d t filter (s.part p).spine =
      withTenant.find d t filter s.spine := by
    intro filter
    apply withTenant_find_agree
    exact List.filter_filter_of_imp (fun row hrow => own_part hp hrow) s.spine
  unfold getEvents
  simp only [hfind]

private theorem getConnections_part (hp : p t = true) :
    getConnections env t (s.part p) = getConnections env t s := by
  have hconn : (s.part p).connections.filter (·.tenantId = t) =
      s.connections.filter (·.tenantId = t) :=
    List.filter_filter_of_imp (fun c hc => own_part hp hc) s.connections
  unfold getConnections
  rw [hconn]

private theorem getSyncRuns_part (hp : p t = true) :
    getSyncRuns env t (s.part p) = getSyncRuns env t s := by
  have hruns : (s.part p).syncRuns.filter (·.tenantId = t) =
      s.syncRuns.filter (·.tenantId = t) :=
    List.filter_filter_of_imp (fun run hrun => own_part hp hrun) s.syncRuns
  unfold getSyncRuns
  rw [hruns]

private theorem getDlq_part (hp : p t = true) : getDlq env t (s.part p) = getDlq env t s := by
  have hdocs : (s.part p).deadLetters.filter (·.tenantId = t) =
      s.deadLetters.filter (·.tenantId = t) :=
    List.filter_filter_of_imp (fun doc hdoc => own_part hp hdoc) s.deadLetters
  unfold getDlq
  rw [hdocs]

private theorem postReplay_part (hp : p t = true) (id : String) :
    postReplay options env t id (s.part p) = postReplay options env t id s := by
  have hitem : ∀ id, (s.part p).deadLetters.find? (DeadLetter.isItem id t) =
      s.deadLetters.find? (DeadLetter.isItem id t) := by
    intro id
    apply List.find?_filter_of_imp
    intro doc hdoc
    rw [DeadLetter.tenantId_of_isItem hdoc, hp]
  unfold postReplay
  simp only [hitem]

private theorem reconcilePlan_part (hp : p t = true) (id : ObjectId)
    (models : Connection → List String) :
    reconcilePlan env t id models (s.part p) = reconcilePlan env t id models s := by
  have hconn : (s.part p).connections.find? (fun c => c.id = id && c.tenantId = t) =
      s.connections.find? (fun c => c.id = id && c.tenantId = t) := by
    apply List.find?_filter_of_imp
    intro c hc
    rw [Bool.and_eq_true] at hc
    exact own_part hp hc.2
  unfold reconcilePlan
  rw [hconn]

private theorem postReconcile_part (hp : p t = true) (id : String) (body : JsVal) :
    postReconcile options env t id body (s.part p) = postReconcile options env t id body s := by
  unfold postReconcile
  simp only [reconcilePlan_part env s hp]

private theorem backfillJobs_part (hp : p t = true) (id : ObjectId) :
    backfillJobs id t (s.part p).rawRecords = backfillJobs id t s.rawRecords := by
  have hraws : (s.part p).rawRecords.filter (RawRecord.isOf id t) =
      s.rawRecords.filter (RawRecord.isOf id t) := by
    apply List.filter_filter_of_imp
    intro raw hraw
    unfold RawRecord.isOf at hraw
    rw [Bool.and_eq_true] at hraw
    exact own_part hp hraw.1
  unfold backfillJobs
  rw [hraws]

private theorem postBackfill_part (hp : p t = true) (id : String) :
    postBackfill options env t id (s.part p) = postBackfill options env t id s := by
  unfold postBackfill
  simp only [backfillJobs_part s hp]

/-- **A handler sees its tenant's part.** Its plan, and what it changes on the way, are the
    same there. -/
theorem ApiRequest.plan_part (hp : p t = true) :
    req.plan d options env t (s.part p) =
      ((req.plan d options env t s).1, (req.plan d options env t s).2.part p) := by
  cases req with
  | getEvents type => exact Prod.ext (getEvents_part d env s hp type) rfl
  | getConnections => exact Prod.ext (getConnections_part env s hp) rfl
  | getSyncRuns => exact Prod.ext (getSyncRuns_part env s hp) rfl
  | getDlq => exact Prod.ext (getDlq_part env s hp) rfl
  | postConnections body => exact postConnections_part d env s hp body
  | postReplay id => exact Prod.ext (postReplay_part options env s hp id) rfl
  | postReconcile id body => exact Prod.ext (postReconcile_part options env s hp id body) rfl
  | postBackfill id => exact Prod.ext (postBackfill_part options env s hp id) rfl

/-- What a handler changes on the way does not show in the part of others. -/
theorem ApiRequest.part_plan_of_not (hp : p t = false) :
    (req.plan d options env t s).2.part p = s.part p := by
  cases req with
  | postConnections body => exact postConnections_part_of_not d env s hp body
  | _ => rfl

/-! ## Plans -/

/-- The jobs of a plan are the tenant's, and so is the dead letter it stamps. -/
structure Plan.OwnedBy (plan : Plan) (t : ObjectId) : Prop where
  adds : ∀ add ∈ plan.adds, add.tenantId = t
  replayed : ∀ id u, plan.replayed = some (id, u) → u = t

/-- **A handler's plan is its tenant's.** -/
private theorem ApiRequest.plan_ownedBy (hs : PayloadsOwned s) :
    (req.plan d options env t s).1.OwnedBy t where
  adds := by
    intro add hadd
    cases (req.plan_madeFor d options env).adds add hadd with
    | replay hitem ht =>
      -- the payload is replayed as it is, under the tenant it says
      exact (hs _ hitem).trans ht
    | reconcile hconnection ht model => exact ht
    | backfill hraw hid ht => rfl
  replayed := (req.plan_madeFor d options env).replayed

/-! ## Carrying a plan out -/

/-- Adding jobs of tenants in the part, seen from the part. -/
private theorem addAll_part {adds : List QueueAdd} (h : ∀ add ∈ adds, p add.tenantId = true)
    (addFault : ℕ → Option JsVal) : addAll d addFault adds (s.part p) =
      ((addAll d addFault adds s).1, (addAll d addFault adds s).2.1,
        (addAll d addFault adds s).2.2.part p) := by
  induction adds generalizing s addFault with
  | nil => rfl
  | cons add adds ih =>
    obtain ⟨hadd, hadds⟩ := List.forall_mem_cons.mp h
    simp only [addAll]
    split
    · rfl
    · rw [← System.part_add hadd, ih (s.add add) hadds]

/-- Adding jobs of tenants outside the part does not show in it. -/
private theorem addAll_part_of_not {adds : List QueueAdd} (h : ∀ add ∈ adds, p add.tenantId = false)
    (addFault : ℕ → Option JsVal) : (addAll d addFault adds s).2.2.part p = s.part p := by
  induction adds generalizing s addFault with
  | nil => rfl
  | cons add adds ih =>
    obtain ⟨hadd, hadds⟩ := List.forall_mem_cons.mp h
    simp only [addAll]
    split
    · rfl
    · rw [ih (s.add add) hadds, System.part_add_of_not hadd]

/-- The jobs added are the plan's, up to one whose `add` throws. -/
private theorem addAll_added (addFault : ℕ → Option JsVal) (adds : List QueueAdd) :
    (addAll d addFault adds s).2.1 <+: adds := by
  induction adds generalizing s addFault with
  | nil => exact List.prefix_refl _
  | cons add adds ih =>
    simp only [addAll]
    split
    · exact List.nil_prefix
    · exact List.prefix_cons_inj add |>.mpr (ih (s.add add) _)

/-- **A request in its tenant's part** is answered as in the whole state, adds the same jobs,
    and leaves the part of what it leaves there. -/
theorem handle_part (hp : p t = true) (hs : PayloadsOwned s) :
    handle d options env t req (s.part p) =
      ((handle d options env t req s).1, (handle d options env t req s).2.1,
        (handle d options env t req s).2.2.part p) := by
  have hown : (req.plan d options env t s).1.OwnedBy t := req.plan_ownedBy d options env s hs
  unfold handle
  rw [req.plan_part d options env s hp]
  -- from here on only the plan matters, not how it was made
  generalize req.plan d options env t s = planned at hown ⊢
  obtain ⟨plan, s'⟩ := planned
  have hadds : ∀ add ∈ plan.adds, p add.tenantId = true := by
    intro add hadd
    rw [hown.adds add hadd, hp]
  simp only [addAll_part d s' hadds]
  generalize addAll d env.addFault plan.adds s' = done
  obtain ⟨err, added, s''⟩ := done
  cases err with
  | some err => rfl
  | none =>
    simp only
    cases hrep : plan.replayed with
    | none => rfl
    | some item =>
      -- the stamp is the tenant's too
      obtain ⟨id, u⟩ := item
      rw [hown.replayed id u hrep, Option.bind_some]
      cases env.saveFault with
      | some err => rfl
      | none => simp only [part_stampPlan hp]

/-- **A request does not show in the part of others.** -/
private theorem handle_part_of_not (hp : p t = false) (hs : PayloadsOwned s) :
    (handle d options env t req s).2.2.part p = s.part p := by
  have hown : (req.plan d options env t s).1.OwnedBy t := req.plan_ownedBy d options env s hs
  have hplan := req.part_plan_of_not d options env s hp
  unfold handle
  generalize req.plan d options env t s = planned at hown hplan ⊢
  obtain ⟨plan, s'⟩ := planned
  -- the adds carry the caller's tenant, which is not of the part
  have hadds : ∀ add ∈ plan.adds, p add.tenantId = false := by
    intro add hadd
    rw [hown.adds add hadd, hp]
  have hdone := addAll_part_of_not d s' hadds env.addFault
  simp only
  generalize addAll d env.addFault plan.adds s' = done at hdone ⊢
  obtain ⟨err, added, s''⟩ := done
  cases err with
  | some err => exact hdone.trans hplan
  | none =>
    simp only
    cases hrep : plan.replayed with
    | none => exact hdone.trans hplan
    | some item =>
      obtain ⟨id, u⟩ := item
      -- so does the letter a replay stamps
      rw [hown.replayed id u hrep, Option.bind_some]
      cases env.saveFault with
      | some err => exact hdone.trans hplan
      | none =>
        simp only [part_stampPlan_of_not hp]
        exact hdone.trans hplan

/-- Every job a request adds carries its tenant. -/
private theorem handle_added (hs : PayloadsOwned s) :
    ∀ add ∈ (handle d options env t req s).2.1, add.tenantId = t := by
  intro add hadd
  have hown : (req.plan d options env t s).1.OwnedBy t := req.plan_ownedBy d options env s hs
  unfold handle at hadd
  generalize req.plan d options env t s = planned at hown hadd
  obtain ⟨plan, s'⟩ := planned
  have hsub := (addAll_added d s' env.addFault plan.adds).subset
  simp only at hadd
  generalize addAll d env.addFault plan.adds s' = done at hsub hadd
  obtain ⟨err, added, s''⟩ := done
  cases err with
  | some err => exact hown.adds add (hsub hadd)
  | none =>
    simp only at hadd
    split at hadd
    · exact hown.adds add (hsub hadd)
    · exact hown.adds add (hsub hadd)

end Part

/-- **Tenant noninterference.** In two states that agree on the documents and jobs of `t`, a
    request authenticated as `t` is answered alike and adds the same jobs, all of them `t`'s;
    the states still agree on `t` and nothing of any other tenant has changed. Reads through
    `withTenant(t)` agree for every filter and answer with rows of `t` only. -/
theorem api_noninterference (d : Drivers) (options : AppOptions) (env : RequestEnv)
    (tenants₁ tenants₂ : List Tenant) (credentials : Credentials) (t : ObjectId)
    (req : ApiRequest) (s₁ s₂ s₁' s₂' : System) (res₁ res₂ : Response)
    (added₁ added₂ : List QueueAdd)
    (hauth₁ : tenantAuth env tenants₁ credentials = .ok t)
    (hauth₂ : tenantAuth env tenants₂ credentials = .ok t)
    (hs₁ : PayloadsOwned s₁) (hs₂ : PayloadsOwned s₂) (hagree : s₁.ofTenant t = s₂.ofTenant t)
    (h₁ : serve d options env tenants₁ credentials req s₁ = (res₁, added₁, s₁'))
    (h₂ : serve d options env tenants₂ credentials req s₂ = (res₂, added₂, s₂')) :
    res₁ = res₂ ∧ added₁ = added₂ ∧ (∀ add ∈ added₁, add.tenantId = t) ∧
      s₁'.ofTenant t = s₂'.ofTenant t ∧ s₁'.ofOthers t = s₁.ofOthers t ∧
      ∀ filter : Filter,
        withTenant.find d t filter s₁.spine = withTenant.find d t filter s₂.spine ∧
        withTenant.findOne d t filter s₁.spine = withTenant.findOne d t filter s₂.spine ∧
        withTenant.countDocuments d t filter s₁.spine =
          withTenant.countDocuments d t filter s₂.spine ∧
        (∀ rows, withTenant.find d t filter s₁.spine = .ok rows →
          ∀ row ∈ rows, row.tenantId = t) ∧
        ∀ row, withTenant.findOne d t filter s₁.spine = .ok (some row) → row.tenantId = t := by
  unfold serve at h₁ h₂
  rw [hauth₁] at h₁
  rw [hauth₂] at h₂
  simp only at h₁ h₂
  have hin : (fun u => decide (u = t)) t = true := decide_eq_true rfl
  have hout : (fun u => decide (u ≠ t)) t = false := decide_eq_false fun h => h rfl
  -- both runs are the run in the part they share
  have hpart₁ := @handle_part (fun u => u = t) t d options env req s₁ hin hs₁
  have hpart₂ := @handle_part (fun u => u = t) t d options env req s₂ hin hs₂
  have hsame : s₁.part (fun u => u = t) = s₂.part (fun u => u = t) := hagree
  rw [h₁, hsame] at hpart₁
  rw [h₂, hpart₁] at hpart₂
  simp only [Prod.mk.injEq] at hpart₂
  obtain ⟨hres, hadded, hstate⟩ := hpart₂
  have hothers := @handle_part_of_not (fun u => u ≠ t) t d options env req s₁ hout hs₁
  have hown := @handle_added t d options env req s₁ hs₁
  rw [h₁] at hothers hown
  have hspine : s₁.spine.filter (·.tenantId = t) = s₂.spine.filter (·.tenantId = t) :=
    congrArg (fun s : System => s.spine) hagree
  refine ⟨hres, hadded, hown, hstate, hothers, fun filter => ?_⟩
  exact ⟨withTenant_find_agree d t filter hspine, withTenant_findOne_agree d t filter hspine,
    withTenant_countDocuments_agree d t filter hspine,
    fun rows hrows => withTenant_find_own d t filter hrows,
    fun row hrow => withTenant_findOne_own d t filter hrow⟩

/-! ## A replay beside another tenant's data -/

/-- Drivers that know equality and cast nothing else. -/
def plainDrivers : Drivers where
  castFilter := fun _ => none
  eventMeets := fun path value row =>
    match path, value with
    | "tenantId", .id oid => row.tenantId = oid
    | "type", .js v => v.isStr row.type.name
    | _, _ => true
  eventMeets_tenantId := fun _ _ => rfl
  castConnectionId := fun _ => none
  connectionIdMeets := fun _ _ => false
  castUpdate := fun _ => .ok none
  rejectsId := fun _ => none

/-- A dead letter without a record. -/
def emptyDeadLetter (id tenantId : ObjectId) : DeadLetter where
  id := id
  tenantId := tenantId
  connectionId := none
  syncRunId := none
  payload := { tenantId, record := none }
  errorMessage := .undefined
  errorStack := .undefined
  attemptsMade := 5
  failedAt := 0
  replayedAt := none

/-- A state with the given dead letters and nothing else. -/
def deadLetterState (deadLetters : List DeadLetter) : System where
  spine := []
  deadLetters := deadLetters
  dlq := []
  rawRecords := []
  syncStates := []
  ingestJobs := []
  connections := []
  syncRuns := []
  nangoSyncJobs := []
  reconcileJobs := []

/-- A request none of whose calls fails. -/
def plainEnv : RequestEnv where
  newId := tenantB
  jobId := "1"
  now := 0

/-- One tenant replays its dead letter, with or without another tenant's before it. -/
def replayOwn (deadLetters : List DeadLetter) : Response × List QueueAdd × System :=
  serve plainDrivers ⟨true, true, true⟩ plainEnv [⟨tenantA, "key-a"⟩] ⟨none, some "key-a"⟩
    (.postReplay tenantA.hex) (deadLetterState deadLetters)

theorem api_noninterference_replay :
    (replayOwn [emptyDeadLetter tenantA tenantB, emptyDeadLetter tenantA tenantA]).1 =
        (replayOwn [emptyDeadLetter tenantA tenantA]).1 ∧
      (replayOwn [emptyDeadLetter tenantA tenantA]).2.1.length = 1 := by
  have hauth : tenantAuth plainEnv [⟨tenantA, "key-a"⟩] ⟨none, some "key-a"⟩ = .ok tenantA :=
    rfl
  have hboth : PayloadsOwned
      (deadLetterState [emptyDeadLetter tenantA tenantB, emptyDeadLetter tenantA tenantA]) := by
    intro doc hdoc
    rcases List.mem_cons.mp hdoc with rfl | hdoc
    · rfl
    · rw [List.mem_singleton.mp hdoc]
      rfl
  have hone : PayloadsOwned (deadLetterState [emptyDeadLetter tenantA tenantA]) := by
    intro doc hdoc
    rw [List.mem_singleton.mp hdoc]
    rfl
  have hagree := api_noninterference plainDrivers ⟨true, true, true⟩ plainEnv
    [⟨tenantA, "key-a"⟩] [⟨tenantA, "key-a"⟩] ⟨none, some "key-a"⟩ tenantA
    (.postReplay tenantA.hex)
    (deadLetterState [emptyDeadLetter tenantA tenantB, emptyDeadLetter tenantA tenantA])
    (deadLetterState [emptyDeadLetter tenantA tenantA]) _ _ _ _ _ _ hauth hauth hboth hone rfl
    rfl rfl
  exact ⟨hagree.1, by decide +kernel⟩

end Shiplog
