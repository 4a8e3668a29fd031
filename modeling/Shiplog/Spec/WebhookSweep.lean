import Shiplog.Spec.Provenance

/-!
# Webhook and sweep

A sync webhook names a Nango connection, and so does every reconcile job of a sweep. The
sweep polls all active connections that carry the name; the webhook feeds the first
connection that does, whatever its status. With tenants that share a Nango connection the
two are different sets.

## Key results

- `webhookFed_eq`, `mem_sweepPolled`: which connections the two feed
- `webhook_feeds_polled_iff`: when they are the same, and what registering a connection
  does to the others
- `webhook_feeds_one_of_two`: two tenants with one Nango connection
-/

namespace Shiplog

/-- The tenant and `_id` of a connection. -/
def Connection.ids (connection : Connection) : ObjectId × ObjectId :=
  (connection.tenantId, connection.id)

/-- The connection carries the Nango id. -/
def Connection.carries (n : String) (connection : Connection) : Bool :=
  connection.nangoConnectionId = some n

/-- The connection a nango-sync job is for. -/
def QueueAdd.synced : QueueAdd → Option (ObjectId × ObjectId)
  | .nangoSync data => some (data.tenantId, data.connectionId)
  | _ => none

/-- The connection a reconcile job polls, if it asks Nango for `n`. -/
def QueueAdd.polled (n : String) : QueueAdd → Option (ObjectId × ObjectId)
  | .reconcile data _ =>
    if data.nangoConnectionId = some n then some (data.tenantId, data.connectionId) else none
  | _ => none

/-- The connections a webhook enqueues a sync for. -/
def webhookFed (rt : Runtime) (d : Drivers) (options : AppOptions) (payload : JsVal) (s : System) :
    List (ObjectId × ObjectId) :=
  (webhookNango rt d options payload s).adds.filterMap QueueAdd.synced

/-- The connections a sweep polls Nango's `n` for. -/
def sweepPolled (n : String) (connections : List Connection) : List (ObjectId × ObjectId) :=
  (sweepAdds connections).filterMap (QueueAdd.polled n)

/-! ## Which connections are fed -/

section Fed

variable {rt : Runtime} {d : Drivers} {options : AppOptions} {payload : JsVal} {n : String}

/-- A sync webhook feeds the first connection that carries its id. -/
theorem webhookFed_eq (hqueue : options.nangoSyncQueue = true)
    (hsync : isSuccessfulSync payload = true) (hid : payload.get "connectionId" = .str n)
    (s : System) :
    webhookFed rt d options payload s =
      ((s.connections.find? (Connection.carries n)).map Connection.ids).toList := by
  unfold webhookFed webhookNango
  cases payload with
  | null => cases hsync
  | _ =>
    simp only [hsync, hid, Bool.true_eq_false, if_false, Drivers.castConnectionIdFilter]
    -- the webhook looks for the Nango id alone, in every tenant
    have hmeets : d.meetsConnectionId (.str n) = Connection.carries n := rfl
    rw [hmeets]
    cases s.connections.find? (Connection.carries n) with
    | none => rfl
    | some connection =>
      simp only [hqueue, Bool.true_eq_false, if_false]
      rfl

/-- A swept connection has a model to poll. -/
private theorem Connection.modelsOrDefault_ne_nil (connection : Connection) :
    connection.modelsOrDefault ≠ [] := by
  unfold Connection.modelsOrDefault
  split
  · exact List.cons_ne_nil _ _
  · next h => simpa using h

/-- A reconcile job polls the connection it is for. -/
private theorem QueueAdd.polled_enqueueReconcileJob (connection : Connection) (model : String) :
    QueueAdd.polled n (enqueueReconcileJob connection model) =
      if connection.carries n then some connection.ids else none := by
  unfold Connection.carries
  simp only [decide_eq_true_eq]
  rfl

/-- A sweep polls every active connection that carries the id. -/
theorem mem_sweepPolled {ids : ObjectId × ObjectId} {connections : List Connection} :
    ids ∈ sweepPolled n connections ↔
      ∃ c ∈ connections, c.status = "active" ∧ c.carries n = true ∧ c.ids = ids := by
  unfold sweepPolled sweepAdds
  simp only [List.mem_filterMap, List.mem_flatMap, List.mem_filter, List.mem_map]
  constructor
  · rintro ⟨_, ⟨c, ⟨hc, hswept⟩, model, -, rfl⟩, hids⟩
    rw [QueueAdd.polled_enqueueReconcileJob] at hids
    simp only [Connection.isSwept, Bool.and_eq_true, decide_eq_true_eq] at hswept
    split at hids
    · next hcarries => exact ⟨c, hc, hswept.1, hcarries, Option.some.inj hids⟩
    · cases hids
  · rintro ⟨c, hc, hactive, hcarries, rfl⟩
    obtain ⟨model, hmodel⟩ := List.exists_mem_of_ne_nil _ c.modelsOrDefault_ne_nil
    refine ⟨_, ⟨c, ⟨hc, ?_⟩, model, hmodel, rfl⟩, ?_⟩
    · have hsome : c.nangoConnectionId = some n := by simpa [Connection.carries] using hcarries
      simp [Connection.isSwept, hactive, hsome]
    · rw [QueueAdd.polled_enqueueReconcileJob, if_pos hcarries]

/-! ## Registering a connection -/

/-- What a webhook looks at of a connection. -/
def Connection.tag (connection : Connection) : Option String × ObjectId × ObjectId :=
  (connection.nangoConnectionId, connection.ids)

/-- The first connection that carries an id shows in the tags. -/
private theorem find?_carries_ids (connections : List Connection) :
    (connections.find? (Connection.carries n)).map Connection.ids =
      ((connections.map Connection.tag).find? fun tag => tag.1 = some n).map Prod.snd := by
  rw [List.find?_map, Option.map_map]
  rfl

/-- Registering a connection leaves the tags there are, and adds at most one, of the tenant
    that registers. -/
private theorem postConnections_tags (env : RequestEnv) (t : ObjectId) (body : JsVal) (s : System) :
    (postConnections d env t body s).2.connections.map Connection.tag =
        s.connections.map Connection.tag ∨
      ∃ tag : Option String × ObjectId × ObjectId, tag.2.1 = t ∧
        (postConnections d env t body s).2.connections.map Connection.tag =
          s.connections.map Connection.tag ++ [tag] := by
  unfold postConnections
  simp only
  split
  · exact Or.inl rfl
  · split
    · exact Or.inl rfl
    · next r _ =>
      split
      · exact Or.inl rfl
      · -- a registration met again changes neither the Nango id nor the owner
        have hset : ∀ c : Connection, (r.set c).tag = c.tag := fun _ => rfl
        rcases List.map_upsert hset s.connections with h | h
        · exact Or.inl h
        · exact Or.inr ⟨(r.inserted env t).tag, rfl, h⟩

/-- Registering a connection does not change whether the webhook feeds one of another
    tenant. -/
private theorem webhookFed_postConnections (hqueue : options.nangoSyncQueue = true)
    (hsync : isSuccessfulSync payload = true) (hid : payload.get "connectionId" = .str n)
    (env : RequestEnv) {t u : ObjectId} (hne : u ≠ t) (id : ObjectId) (body : JsVal) (s : System) :
    (u, id) ∈ webhookFed rt d options payload (postConnections d env t body s).2 ↔
      (u, id) ∈ webhookFed rt d options payload s := by
  rw [webhookFed_eq hqueue hsync hid, webhookFed_eq hqueue hsync hid, find?_carries_ids,
    find?_carries_ids]
  rcases postConnections_tags env t body s with h | ⟨tag, htag, h⟩
  · rw [h]
  · rw [h, List.find?_append]
    cases hfirst : (s.connections.map Connection.tag).find? fun tag => tag.1 = some n with
    | some first => rfl
    | none =>
      -- the new connection may come first now, but is not the other tenant's
      rw [Option.none_or]
      constructor
      · intro hmem
        simp only [List.find?_singleton] at hmem
        split at hmem
        · simp only [Option.map_some, Option.toList_some, List.mem_singleton] at hmem
          rw [← hmem] at htag
          exact absurd htag hne
        · simp at hmem
      · intro hmem
        simp at hmem

/-- Whom the webhook feeds and the sweep polls are the same connections. -/
private theorem webhookFed_iff_sweepPolled (hqueue : options.nangoSyncQueue = true)
    (hsync : isSuccessfulSync payload = true) (hid : payload.get "connectionId" = .str n)
    {s : System} (hids : (s.connections.map Connection.id).Nodup) :
    (∀ ids, ids ∈ webhookFed rt d options payload s ↔ ids ∈ sweepPolled n s.connections) ↔
      ∀ first, s.connections.find? (Connection.carries n) = some first →
        first.status = "active" ∧
          ∀ c ∈ s.connections, c.carries n = true → c.status = "active" → c = first := by
  have hinj : ∀ c ∈ s.connections, ∀ c' ∈ s.connections, c.ids = c'.ids → c = c' :=
    fun c hc c' hc' heq => List.inj_on_of_nodup_map hids hc hc' (congrArg Prod.snd heq)
  simp only [webhookFed_eq hqueue hsync hid, mem_sweepPolled]
  cases hfirst : s.connections.find? (Connection.carries n) with
  | none =>
    -- nothing carries the id
    have hnone := List.find?_eq_none.mp hfirst
    constructor
    · intro _ first h
      cases h
    · intro _ ids
      constructor
      · intro h
        simp at h
      · rintro ⟨c, hc, -, hcarries, -⟩
        exact absurd hcarries (hnone c hc)
  | some first =>
    have hmem := List.mem_of_find?_eq_some hfirst
    have hcarries := List.find?_some hfirst
    simp only [Option.map_some, Option.toList_some, List.mem_singleton]
    constructor
    · intro hsame f hf
      cases hf
      obtain ⟨c, hc, hactive, -, hc'⟩ := (hsame first.ids).mp rfl
      refine ⟨hinj c hc first hmem hc' ▸ hactive, fun c hc hcn hcactive => ?_⟩
      exact hinj c hc first hmem ((hsame c.ids).mpr ⟨c, hc, hcactive, hcn, rfl⟩)
    · intro hcond ids
      obtain ⟨hactive, honly⟩ := hcond first rfl
      constructor
      · rintro rfl
        exact ⟨first, hmem, hactive, hcarries, rfl⟩
      · rintro ⟨c, hc, hcactive, hcn, rfl⟩
        rw [honly c hc hcn hcactive]

end Fed

/-- **Webhook and sweep.** Let a successful sync webhook name the Nango connection `n`. The
    connections it feeds are those the sweep polls for `n` exactly if the first connection
    that carries `n`, should there be one, is active and no other active one does. And whatever
    a tenant registers, the webhook feeds of the others' connections what it did before. -/
theorem webhook_feeds_polled_iff (rt : Runtime) (d : Drivers) {options : AppOptions}
    (hqueue : options.nangoSyncQueue = true) {payload : JsVal} {n : String}
    (hsync : isSuccessfulSync payload = true) (hid : payload.get "connectionId" = .str n)
    (s : System) (hids : (s.connections.map Connection.id).Nodup) :
    ((∀ ids, ids ∈ webhookFed rt d options payload s ↔ ids ∈ sweepPolled n s.connections) ↔
      ∀ first, s.connections.find? (Connection.carries n) = some first →
        first.status = "active" ∧
          ∀ c ∈ s.connections, c.carries n = true → c.status = "active" → c = first) ∧
    ∀ (env : RequestEnv) (t u id : ObjectId) (body : JsVal), u ≠ t →
      ((u, id) ∈ webhookFed rt d options payload (postConnections d env t body s).2 ↔
        (u, id) ∈ webhookFed rt d options payload s) :=
  ⟨webhookFed_iff_sweepPolled hqueue hsync hid hids,
    fun env _ _ id body hne => webhookFed_postConnections hqueue hsync hid env hne id body s⟩

/-! ## One Nango connection -/

/-- The webhook of a sync of the Nango connection `nango-1`. -/
def syncWebhook : JsVal :=
  .obj [("type", .str "sync"), ("connectionId", .str "nango-1"),
    ("providerConfigKey", .str "github"), ("model", .str "GithubIssue"), ("success", .bool true)]

/-- An active connection of a tenant to `nango-1`. -/
def activeConnection (t id : ObjectId) : Connection where
  id := id
  tenantId := t
  provider := some "github"
  nangoConnectionId := some "nango-1"
  nangoIntegrationId := some "github"
  status := "active"
  models := ["GithubIssue"]
  createdAt := 0

/-- Two tenants share the Nango connection, one of them no longer active. -/
def oneActive : System :=
  { emptySystem with connections := [activeConnection tenantA tenantA,
      { activeConnection tenantB tenantB with status := "inactive" }] }

/-- The active connection is the one that is polled, and so the one that is fed; and it stays
    fed when the other tenant registers once more. -/
theorem webhook_feeds_polled_iff_oneActive :
    (∀ ids, ids ∈ webhookFed plainRuntime plainDrivers ⟨true, true, true⟩ syncWebhook oneActive ↔
        ids ∈ sweepPolled "nango-1" oneActive.connections) ∧
      (tenantA, tenantA) ∈ webhookFed plainRuntime plainDrivers ⟨true, true, true⟩ syncWebhook
        (postConnections plainDrivers plainEnv tenantB
          (.obj [("nangoConnectionId", .str "nango-1")]) oneActive).2 := by
  obtain ⟨hiff, hother⟩ := @webhook_feeds_polled_iff plainRuntime plainDrivers
    ⟨true, true, true⟩ rfl syncWebhook "nango-1" rfl rfl oneActive (by decide)
  refine ⟨hiff.mpr fun first hfirst => ?_, ?_⟩
  · cases hfirst
    exact ⟨rfl, by decide⟩
  · exact (hother plainEnv tenantB tenantA tenantA _ (by decide)).mpr (by decide +kernel)

/-- Two tenants share the Nango connection: the one that registered last is polled and not
    fed, and would be fed without the other. -/
theorem webhook_feeds_one_of_two :
    (tenantB, tenantB) ∈ sweepPolled "nango-1"
        [activeConnection tenantA tenantA, activeConnection tenantB tenantB] ∧
      (tenantB, tenantB) ∉ webhookFed plainRuntime plainDrivers ⟨true, true, true⟩ syncWebhook
        { emptySystem with
          connections := [activeConnection tenantA tenantA, activeConnection tenantB tenantB] } ∧
      (tenantB, tenantB) ∈ webhookFed plainRuntime plainDrivers ⟨true, true, true⟩ syncWebhook
        { emptySystem with connections := [activeConnection tenantB tenantB] } := by
  decide +kernel

end Shiplog
