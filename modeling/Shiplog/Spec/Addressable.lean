import Shiplog.Spec.SingleWriter
import Shiplog.Spec.UpsertRace

/-!
# Addressable reconcile jobs

A reconcile job copies the Nango connection id and the integration id of its connection,
whatever they are. The route that registers a connection insists on the first only: a
registration without an integration id leaves a connection whose jobs have no provider
config key.

## Key results

- `shiplogSystem_fromConnections`: what registrations keep true of all connections holds of
  the connection behind every reconcile job
- `postConnections_named`, `postConnections_addressable`: what a registration leaves
- `exists_unaddressable_add`: what the next tick adds after one without an integration id
- `reconcileJobs_addressable`: in which runs every reconcile job is addressable
-/

namespace Shiplog

variable {rt : Runtime} {d : Drivers} {options : AppOptions}

/-! ## Registrations -/

/-- Mongoose casts a value for a string path to a string, or refuses it. -/
structure Drivers.CastsToString (d : Drivers) : Prop where
  cast : ∀ v r, v.isNullish = false → d.castUpdate v = .ok r → ∃ s, r = some (some s)

/-- A value that is there is cast to a string. -/
theorem Drivers.CastsToString.castString (hd : d.CastsToString) {v : JsVal}
    {r : Option (Option String)} (hv : v.isNullish = false) (h : d.castString v = .ok r) :
    ∃ s, r = some (some s) := by
  cases v with
  | undefined => cases hv
  | null => cases hv
  | str s => exact ⟨s, (Except.ok.inj h).symm⟩
  | _ => exact hd.cast _ r rfl h

/-- The body of a `POST /connections` that gets as far as the upsert, and its cast. -/
structure Accepted (d : Drivers) (body : JsVal) (r : Registration) : Prop where
  truthy : (body.get "nangoConnectionId").truthy = true
  cast : Registration.cast d (body.get "nangoConnectionId") (body.get "nangoIntegrationId")
    (match body.get "provider" with
      | .undefined => .str "github"
      | v => v) = .ok r

private theorem Registration.cast_integration
    {nangoConnectionId nangoIntegrationId provider : JsVal} {r : Registration}
    (h : Registration.cast d nangoConnectionId nangoIntegrationId provider = .ok r) :
    d.castString nangoIntegrationId = .ok r.nangoIntegrationId := by
  unfold Registration.cast at h
  split at h
  · cases h
  · obtain ⟨_, hcast, h⟩ := Except.bind_ok h
    obtain ⟨_, -, h⟩ := Except.bind_ok h
    obtain ⟨_, -, h⟩ := Except.bind_ok h
    cases h
    exact hcast

private theorem Accepted.integration {body : JsVal} {r : Registration} (h : Accepted d body r) :
    d.castString (body.get "nangoIntegrationId") = .ok r.nangoIntegrationId :=
  Registration.cast_integration h.cast

/-- An accepted registration names its Nango connection. -/
theorem Accepted.connection (hd : d.CastsToString) {body : JsVal} {r : Registration}
    (h : Accepted d body r) : ∃ s, r.nangoConnectionId = some (some s) := by
  refine hd.castString ?_ (Registration.cast_ok h.cast).2
  have htruthy := h.truthy
  cases hv : body.get "nangoConnectionId" with
  | undefined =>
    rw [hv] at htruthy
    cases htruthy
  | null =>
    rw [hv] at htruthy
    cases htruthy
  | _ => rfl

/-- A registration that is not accepted, or whose update throws, changes nothing; any other is
    the upsert. -/
private theorem postConnections_cases (env : RequestEnv) (t : ObjectId) (body : JsVal)
    (s : System) :
    ((postConnections d env t body s).2 = s ∧ (env.lookFault = none → ∀ r, ¬ Accepted d body r)) ∨
      ∃ r, Accepted d body r ∧ (postConnections d env t body s).2 =
        { s with connections :=
            (upsertConnection d env t (body.get "nangoConnectionId") r s.connections).2 } := by
  unfold postConnections
  simp only
  split
  · next hfalsy =>
    exact Or.inl ⟨rfl, fun _ r h => absurd (h.truthy.symm.trans hfalsy) (by decide)⟩
  · next htruthy =>
    rw [Bool.not_eq_false] at htruthy
    split
    · next err hcast =>
      exact Or.inl ⟨rfl, fun _ r h => absurd (hcast.symm.trans h.cast) (fun heq => nomatch heq)⟩
    · next r hcast =>
      split
      · next err hlook => exact Or.inl ⟨rfl, fun hnone => absurd (hlook.symm.trans hnone) nofun⟩
      · exact Or.inr ⟨r, ⟨htruthy, hcast⟩, rfl⟩

/-- The registration gives its connection an integration id, or leaves the one of a
    connection that exists; one that is not accepted does no harm. -/
def GivesIntegration (d : Drivers) (t : ObjectId) (body : JsVal) (connections : List Connection) :
    Prop :=
  ∀ r, Accepted d body r → body.get "nangoIntegrationId" ≠ .null ∧
    (body.get "nangoIntegrationId" = .undefined →
      ∃ c ∈ connections, d.isRegistration t (body.get "nangoConnectionId") c = true)

/-- The connection has the Nango connection id its jobs need. -/
def Connection.Named (c : Connection) : Prop := c.nangoConnectionId.isSome = true

/-- It has the integration id as well. -/
def Connection.Addressable (c : Connection) : Prop :=
  c.Named ∧ c.nangoIntegrationId.isSome = true

/-- Every registration leaves named connections. -/
theorem postConnections_named (hd : d.CastsToString) (env : RequestEnv) (t : ObjectId)
    (body : JsVal) {s : System} (h : ∀ c ∈ s.connections, c.Named) :
    ∀ c ∈ (postConnections d env t body s).2.connections, c.Named := by
  rcases @postConnections_cases d env t body s with ⟨hsame, -⟩ | ⟨r, hacc, hconn⟩
  · rw [hsame]
    exact h
  · rw [hconn]
    intro c hc
    unfold upsertConnection at hc
    rcases List.mem_upsert hc with hold | ⟨old, hold, -, rfl⟩ | rfl
    · exact h c hold
    · exact h old hold
    · obtain ⟨name, hname⟩ := hacc.connection hd
      show (r.nangoConnectionId.getD none).isSome = true
      rw [hname]
      rfl

/-- A registration with an integration id leaves addressable connections. -/
theorem postConnections_addressable (hd : d.CastsToString) (env : RequestEnv) {t : ObjectId}
    {body : JsVal} {s : System} (hgives : GivesIntegration d t body s.connections)
    (h : ∀ c ∈ s.connections, c.Addressable) :
    ∀ c ∈ (postConnections d env t body s).2.connections, c.Addressable := by
  have hnamed := postConnections_named hd env t body fun c hc => (h c hc).1
  intro c hc
  refine ⟨hnamed c hc, ?_⟩
  rcases @postConnections_cases d env t body s with ⟨hsame, -⟩ | ⟨r, hacc, hconn⟩
  · rw [hsame] at hc
    exact (h c hc).2
  · rw [hconn] at hc
    obtain ⟨hnull, hfound⟩ := hgives r hacc
    have hcast := hacc.integration
    unfold upsertConnection at hc
    by_cases hundef : body.get "nangoIntegrationId" = .undefined
    · -- nothing is set, and the document is there
      rw [hundef] at hcast
      have hkeep : r.nangoIntegrationId = none := (Except.ok.inj hcast).symm
      rcases List.mem_upsert_of_exists (hfound hundef) hc with hold | ⟨old, hold, -, rfl⟩
      · exact (h c hold).2
      · show (r.nangoIntegrationId.getD old.nangoIntegrationId).isSome = true
        rw [hkeep]
        exact (h old hold).2
    · have hthere : (body.get "nangoIntegrationId").isNullish = false := by
        cases hv : body.get "nangoIntegrationId" with
        | undefined => exact absurd hv hundef
        | null => exact absurd hv hnull
        | _ => rfl
      obtain ⟨key, hkey⟩ := hd.castString hthere hcast
      rcases List.mem_upsert hc with hold | ⟨old, hold, -, rfl⟩ | rfl
      · exact (h c hold).2
      · show (r.nangoIntegrationId.getD old.nangoIntegrationId).isSome = true
        rw [hkey]
        rfl
      · show (r.nangoIntegrationId.getD none).isSome = true
        rw [hkey]
        rfl

/-- The document an upsert writes has no integration id, if the body gives none and the
    document had none to keep. -/
private theorem exists_upserted (env : RequestEnv) {t : ObjectId} {body : JsVal} {r : Registration}
    {connections : List Connection} (hacc : Accepted d body r)
    (hmissing : body.get "nangoIntegrationId" ≠ .null →
      body.get "nangoIntegrationId" = .undefined ∧
        ∀ c ∈ connections, d.isRegistration t (body.get "nangoConnectionId") c ≠ true) :
    ∃ c ∈ (upsertConnection d env t (body.get "nangoConnectionId") r connections).2,
      c.status = "active" ∧ c.nangoIntegrationId = none := by
  have hcast := hacc.integration
  unfold upsertConnection
  rcases List.exists_mem_upsert (d.isRegistration t (body.get "nangoConnectionId")) r.set
    (r.inserted env t) connections with ⟨old, hold, hmatch, hmem⟩ | hmem
  · -- the document is there: a `null` overwrites the id it had
    refine ⟨_, hmem, rfl, ?_⟩
    by_cases hnull : body.get "nangoIntegrationId" = .null
    · rw [hnull] at hcast
      show r.nangoIntegrationId.getD old.nangoIntegrationId = none
      rw [← Except.ok.inj hcast]
      rfl
    · exact absurd hmatch ((hmissing hnull).2 old hold)
  · refine ⟨_, hmem, rfl, ?_⟩
    show r.nangoIntegrationId.getD none = none
    by_cases hnull : body.get "nangoIntegrationId" = .null
    · rw [hnull] at hcast
      rw [← Except.ok.inj hcast]
      rfl
    · rw [(hmissing hnull).1] at hcast
      rw [← Except.ok.inj hcast]
      rfl

/-- A registration without an integration id leaves a named connection that the sweep takes
    and that has none. -/
private theorem exists_unaddressable (hd : d.CastsToString) {env : RequestEnv}
    (hlook : env.lookFault = none) {t : ObjectId} {body : JsVal} {s : System}
    (hnamed : ∀ c ∈ s.connections, c.Named)
    (h : ¬ GivesIntegration d t body s.connections) :
    ∃ c ∈ (postConnections d env t body s).2.connections,
      c.isSwept = true ∧ c.nangoIntegrationId = none := by
  unfold GivesIntegration at h
  push Not at h
  obtain ⟨r, hacc, hmissing⟩ := h
  rcases @postConnections_cases d env t body s with ⟨-, hnot⟩ | ⟨r', hacc', hconn⟩
  · exact absurd hacc (hnot hlook r)
  · have hsame : r' = r := Except.ok.inj (hacc'.cast.symm.trans hacc.cast)
    subst hsame
    have hafter := postConnections_named hd env t body hnamed
    rw [hconn] at hafter ⊢
    obtain ⟨c, hc, hactive, hnone⟩ := exists_upserted env hacc hmissing
    refine ⟨c, hc, ?_, hnone⟩
    unfold Connection.isSwept
    rw [hactive, hafter c hc]
    rfl

/-! ## Reconcile jobs -/

/-- A job made from a connection of which `Q` holds. -/
def FromConnection (Q : Connection → Prop) (job : ReconcileJobData) : Prop :=
  ∃ connection model, Q connection ∧ job = (reconcileJobFor connection model).1

/-- A trigger about one of the connections makes its job from it. -/
private theorem IsTrigger.fromConnection {Q : Connection → Prop} {connections : List Connection}
    {data : ReconcileJobData} {jobId : String}
    (h : IsTrigger connections (.reconcile data jobId)) (hQ : ∀ c ∈ connections, Q c) :
    FromConnection Q data := by
  obtain ⟨connection, hmem, model, hadd⟩ := h
  unfold enqueueReconcileJob at hadd
  cases hadd
  exact ⟨connection, model, hQ connection hmem, rfl⟩

/-- The reconcile jobs of a handler are triggers about the connections it found. -/
private theorem ApiRequest.plan_isTrigger {env : RequestEnv} {t : ObjectId} {req : ApiRequest}
    {s : System} {data : ReconcileJobData} {jobId : String}
    (h : .reconcile data jobId ∈ (req.plan d options env t s).1.adds) :
    IsTrigger s.connections (.reconcile data jobId) := by
  cases (req.plan_madeFor d options env).adds _ h with
  | @reconcile connection hmem ht model => exact ⟨connection, hmem, model, rfl⟩

/-- A webhook adds no reconcile job. -/
private theorem reconcile_not_mem_webhookNango {payload : JsVal} {s : System}
    {data : ReconcileJobData} {jobId : String} :
    .reconcile data jobId ∉ (webhookNango rt d options payload s).adds := by
  intro h
  obtain ⟨connection, -, data', heq, -⟩ := webhookNango_adds h
  cases heq

/-! ## The system -/

/-- `Q` holds of the connections, and of what each reconcile job was made from. -/
structure FromConnections (Q : Connection → Prop) (s : SystemStore) : Prop where
  connections : ∀ c ∈ s.1.connections, Q c
  reconcileJobs : ∀ job ∈ s.1.reconcileJobs, FromConnection Q job

/-- `Q` holds of what the reconcile jobs about to be added are made from. -/
def Proc.FromConnections (Q : Connection → Prop) : Proc → Prop
  | .adding adds _ => ∀ data jobId, .reconcile data jobId ∈ adds → FromConnection Q data
  | _ => True

theorem FromConnections.add {Q : Connection → Prop} {s : SystemStore} {add : QueueAdd}
    (h : FromConnections Q s)
    (hadd : ∀ data jobId, add = .reconcile data jobId → FromConnection Q data) :
    FromConnections Q (s.1.add add, s.2) := by
  cases add with
  | ingest data => exact ⟨h.connections, h.reconcileJobs⟩
  | nangoSync data => exact ⟨h.connections, h.reconcileJobs⟩
  | reconcile data jobId =>
    exact ⟨h.connections, List.forall_mem_concat h.reconcileJobs (hadd data jobId rfl)⟩

/-- **What registrations keep true of all connections** holds of the connection behind every
    reconcile job. -/
theorem shiplogSystem_fromConnections {ok : Proc → SystemStore → Prop} {Q : Connection → Prop}
    (hQ : ∀ env t body s, ok (.request t (.postConnections body)) s →
      (∀ c ∈ s.1.connections, Q c) →
      ∀ c ∈ (postConnections d env t body s.1).2.connections, Q c) :
    ((shiplogSystem rt d options).restrict ok).Invariant (FromConnections Q)
      (fun _ => Proc.FromConnections Q) where
  env := by
    intro s s' new hI henv
    have hone : ∀ {p : Proc}, p.FromConnections Q → ∀ q ∈ [p], q.FromConnections Q :=
      fun hp q hq => List.mem_singleton.mp hq ▸ hp
    cases henv with
    | ingest h => exact ⟨⟨hI.connections, hI.reconcileJobs⟩, hone trivial, fun q hq => hq⟩
    | _ => exact ⟨hI, hone trivial, fun q hq => hq⟩
  step := by
    intro p s p' s' new hI hL hstep
    obtain ⟨sys', taken'⟩ := s'
    obtain ⟨hok, hstep, htaken⟩ := hstep
    have htaken' : taken' = s.2 := htaken
    subst htaken'
    suffices h : FromConnections Q (sys', s.2) ∧ p'.FromConnections Q ∧
        ∀ q ∈ new, q.FromConnections Q by
      exact ⟨h.1, h.2.1, h.2.2, fun q hq => hq⟩
    have hnil : ∀ q ∈ ([] : List Proc), q.FromConnections Q :=
      fun q hq => absurd hq List.not_mem_nil
    cases hstep with
    | @request tenantId req _ env hid =>
      -- its jobs are made from the connections it finds, whatever it makes of them
      refine ⟨?_, fun data jobId h => (ApiRequest.plan_isTrigger h).fromConnection hI.connections,
        hnil⟩
      cases req with
      | postConnections body =>
        have hkeep := hQ env tenantId body s hok hI.connections
        refine ⟨hkeep, ?_⟩
        show ∀ job ∈ (postConnections d env tenantId body s.1).2.reconcileJobs, _
        rcases @postConnections_cases d env tenantId body s.1 with ⟨hsame, -⟩ | ⟨r, -, hconn⟩
        · rw [hsame]
          exact hI.reconcileJobs
        · rw [hconn]
          exact hI.reconcileJobs
      | _ => exact ⟨hI.connections, hI.reconcileJobs⟩
    | webhook =>
      exact ⟨hI, fun data jobId h => absurd h reconcile_not_mem_webhookNango, hnil⟩
    | sweep =>
      exact ⟨hI, fun data jobId h => (sweepAdds_isTrigger h).fromConnection hI.connections, hnil⟩
    | @add add adds replayed _ hrej =>
      refine ⟨hI.add fun data jobId heq => hL data jobId (heq ▸ List.mem_cons_self),
        fun data jobId h => hL data jobId (List.mem_cons_of_mem _ h), hnil⟩
    | @stamp replayed _ env =>
      refine ⟨?_, trivial, hnil⟩
      cases replayed with
      | none => exact ⟨hI.connections, hI.reconcileJobs⟩
      | some item => exact ⟨hI.connections, hI.reconcileJobs⟩
    | nangoSync nango hlive => exact ⟨⟨hI.connections, hI.reconcileJobs⟩, trivial, hnil⟩
    | reconcile nango hlive => exact ⟨⟨hI.connections, hI.reconcileJobs⟩, trivial, hnil⟩
    | ingest h =>
      refine ⟨⟨hI.connections, hI.reconcileJobs⟩, trivial, fun q hq => ?_⟩
      obtain ⟨q', -, rfl⟩ := List.mem_map.mp hq
      trivial
    | throw hcan => exact ⟨hI, trivial, hnil⟩

/-! ## The guarantee -/

/-- The job names the connection and the integration that `listRecords` asks for. -/
def ReconcileJobData.Addressable (job : ReconcileJobData) : Prop :=
  job.nangoConnectionId.isSome = true ∧ job.providerConfigKey.isSome = true

/-- A handler about to register a connection gives it an integration id, or leaves the one
    of a connection that exists. -/
def RegistersIntegration (d : Drivers) : Proc → SystemStore → Prop
  | .request t (.postConnections body), s => GivesIntegration d t body s.1.connections
  | _, _ => True

private theorem fromConnections_empty (Q : Connection → Prop) :
    FromConnections Q (emptySystem, []) :=
  ⟨fun _ h => absurd h List.not_mem_nil, fun _ h => absurd h List.not_mem_nil⟩

/-- In every run of the system all connections, and so all reconcile jobs, are named. -/
theorem reconcileJobs_named (hd : d.CastsToString) {procs : List Proc} {s : SystemStore}
    (h : (shiplogSystem rt d options).Reaches ([], (emptySystem, [])) (procs, s)) :
    FromConnections Connection.Named s := by
  have hinv := @shiplogSystem_fromConnections rt d options (fun _ _ => True) Connection.Named
    fun env t body s _ hnamed => postConnections_named hd env t body hnamed
  exact (hinv.reaches (h.restrict fun _ _ => trivial) (fromConnections_empty _)
    fun p hp => absurd hp List.not_mem_nil).1

/-- **Addressable reconcile jobs.** Start from no connections. In every run whose
    registrations all give their connection an integration id, or leave the one of a
    connection that exists, every reconcile job has a Nango connection id and a provider
    config key. In any run it has the first, and a registration that does neither, its update
    carried out, leaves a connection for which the next tick adds a job without the second. -/
theorem reconcileJobs_addressable (rt : Runtime) (d : Drivers) (options : AppOptions)
    (hd : d.CastsToString) :
    (∀ procs s, ((shiplogSystem rt d options).restrict (RegistersIntegration d)).Reaches
      ([], (emptySystem, [])) (procs, s) → ∀ job ∈ s.1.reconcileJobs, job.Addressable) ∧
      ∀ procs s, (shiplogSystem rt d options).Reaches ([], (emptySystem, [])) (procs, s) →
        (∀ job ∈ s.1.reconcileJobs, job.nangoConnectionId.isSome = true) ∧
          ∀ env, env.lookFault = none → ∀ t body, ¬ GivesIntegration d t body s.1.connections →
            ∃ data jobId, .reconcile data jobId ∈
              sweepAdds (postConnections d env t body s.1).2.connections ∧
                data.providerConfigKey = none := by
  constructor
  · -- every job is made of a connection, and all connections are addressable
    intro procs s h job hjob
    have hinv := @shiplogSystem_fromConnections rt d options (RegistersIntegration d)
      Connection.Addressable fun env t body s hgives haddr =>
        postConnections_addressable hd env hgives haddr
    obtain ⟨hI, -⟩ := hinv.reaches h (fromConnections_empty _)
      fun p hp => absurd hp List.not_mem_nil
    obtain ⟨connection, model, hQ, rfl⟩ := hI.reconcileJobs job hjob
    exact hQ
  · intro procs s h
    have hI := reconcileJobs_named hd h
    refine ⟨fun job hjob => ?_, fun env hlook t body hgives => ?_⟩
    · obtain ⟨connection, model, hQ, rfl⟩ := hI.reconcileJobs job hjob
      exact hQ
    · obtain ⟨c, hc, hswept, hnone⟩ := exists_unaddressable hd hlook hI.connections hgives
      -- the tick adds a job for each model, and there is one by default
      have hmodels : c.modelsOrDefault ≠ [] := by
        unfold Connection.modelsOrDefault
        cases hm : c.models with
        | nil => simp
        | cons m ms => simp
      obtain ⟨model, hmodel⟩ := List.exists_mem_of_ne_nil _ hmodels
      refine ⟨(reconcileJobFor c model).1, (reconcileJobFor c model).2, ?_, hnone⟩
      exact List.mem_flatMap.mpr ⟨c, List.mem_filter.mpr ⟨hc, hswept⟩,
        List.mem_map.mpr ⟨model, hmodel, rfl⟩⟩

/-! ## A connection registered and swept -/

theorem castingDrivers_castsToString : castingDrivers.CastsToString where
  cast v r _ hr := by
    simp only [castingDrivers] at hr
    cases hs : scalarText plainRuntime v with
    | none => simp [hs] at hr
    | some s =>
      simp only [hs, Except.ok.injEq] at hr
      exact ⟨s, hr.symm⟩

/-- The system with these drivers. -/
abbrev castingSystem : Pool Proc SystemStore :=
  shiplogSystem plainRuntime castingDrivers ⟨true, true, true⟩

/-- A handler of the first request, at its look at the empty collections. -/
def firstLook (req : ApiRequest) : Plan × System :=
  req.plan castingDrivers ⟨true, true, true⟩ plainEnv tenantA emptySystem

/-- A first request that adds no job, then a tick, up to the add of its only job. -/
private theorem firstLook_sweep_reaches {ok : Proc → SystemStore → Prop} {req : ApiRequest}
    {data : ReconcileJobData} {jobId : String}
    (hreq : ok (.request tenantA req) (emptySystem, []))
    (hok : ∀ p s, (∀ t r, p ≠ .request t r) → ok p s)
    (hadds : sweepAdds (firstLook req).2.connections = [.reconcile data jobId]) :
    ∃ procs, (castingSystem.restrict ok).Reaches ([], (emptySystem, []))
      (procs, ((firstLook req).2.add (.reconcile data jobId), [])) := by
  have hstart : (castingSystem.restrict ok).Step ([], (emptySystem, []))
      ([.request tenantA req], (emptySystem, [])) :=
    .environment (.request tenantA req _)
  -- the handler's look registers the connection
  have hregister : (castingSystem.restrict ok).Step
      ([.request tenantA req], (emptySystem, []))
      ([.adding (firstLook req).1.adds (firstLook req).1.replayed], ((firstLook req).2, [])) :=
    .alone ⟨hreq, .request plainEnv List.not_mem_nil, rfl⟩
  have htick : (castingSystem.restrict ok).Step
      ([.adding (firstLook req).1.adds (firstLook req).1.replayed], ((firstLook req).2, []))
      ([.adding (firstLook req).1.adds (firstLook req).1.replayed, .sweep],
        ((firstLook req).2, [])) :=
    .environment (.sweep _)
  -- the tick reads the connections before it adds its job
  have hsweep : (castingSystem.restrict ok).Step
      ([.adding (firstLook req).1.adds (firstLook req).1.replayed, .sweep],
        ((firstLook req).2, []))
      ([.adding (firstLook req).1.adds (firstLook req).1.replayed,
        .adding [.reconcile data jobId] none], ((firstLook req).2, [])) :=
    .process 1 rfl ⟨hok _ _ fun _ _ => nofun, hadds ▸ .sweep, rfl⟩
  have hadd : (castingSystem.restrict ok).Step
      ([.adding (firstLook req).1.adds (firstLook req).1.replayed,
        .adding [.reconcile data jobId] none], ((firstLook req).2, []))
      ([.adding (firstLook req).1.adds (firstLook req).1.replayed, .adding [] none],
        ((firstLook req).2.add (.reconcile data jobId), [])) :=
    .process 1 rfl ⟨hok _ _ fun _ _ => nofun, .add rfl, rfl⟩
  exact ⟨_, .head hstart (.head hregister (.head htick (.head hsweep (.single hadd))))⟩

theorem reconcileJobs_addressable_swept : sweptJob.Addressable := by
  obtain ⟨procs, hreaches⟩ := @firstLook_sweep_reaches (RegistersIntegration castingDrivers)
    registerIssues sweptJob "reconcile:bbbbbbbbbbbbbbbbbbbbbbbb:Commit"
    (fun r hr => ⟨nofun, nofun⟩)
    (fun p s hp => by
      cases p with
      | request t r => exact absurd rfl (hp t r)
      | _ => trivial)
    rfl
  exact (reconcileJobs_addressable plainRuntime castingDrivers ⟨true, true, true⟩
    castingDrivers_castsToString).1 _ _ hreaches sweptJob List.mem_cons_self

/-- A request that registers a connection without an integration id. -/
def registerBare : ApiRequest := .postConnections (.obj [("nangoConnectionId", .str "nango-1")])

/-- The job the next tick adds for it. -/
def bareJob : ReconcileJobData := { sweptJob with providerConfigKey := none }

/-- After it and a tick there is a job without a provider config key. -/
theorem reconcileJobs_not_addressable_bare :
    ¬ ∀ procs s, castingSystem.Reaches ([], (emptySystem, [])) (procs, s) →
      ∀ job ∈ s.1.reconcileJobs, job.Addressable := by
  intro hall
  obtain ⟨procs, hreaches⟩ := @firstLook_sweep_reaches (fun _ _ => True) registerBare bareJob
    "reconcile:bbbbbbbbbbbbbbbbbbbbbbbb:Commit" trivial (fun _ _ _ => trivial) rfl
  have hjob := hall _ _ hreaches.of_restrict bareJob List.mem_cons_self
  exact absurd hjob.2 (by decide)

end Shiplog
