import Shiplog.Native.Producers

/-!
# The HTTP API

`src/app.ts`, `src/repository/withTenant.ts` and `src/middleware/tenantAuth.ts`: who a
request comes from, what each route reads and changes, the jobs it adds, and its answer. A
handler is a `Plan` made from one look at the collections and carried out add by add.
-/

namespace Shiplog

/-! ## Queries -/

/-- A value in a query filter. -/
inductive FilterValue where
  | js (v : JsVal)
  | id (oid : ObjectId)
  | arr (xs : List FilterValue)
  | obj (fields : List (String × FilterValue))

/-- A query filter: its own entries, operators such as `$or` among them. -/
abbrev Filter := List (String × FilterValue)

/-- What the routes call of Mongoose and BullMQ without defining it. -/
structure Drivers where
  /-- the error of casting a filter to the schema of `events`, before any row is read -/
  castFilter : Filter → Option JsVal
  /-- whether a row of `events` meets one entry of a filter -/
  eventMeets : String → FilterValue → Event → Bool
  /-- an `ObjectId` under a path asks for equality -/
  eventMeets_tenantId : ∀ t row, eventMeets "tenantId" (.id t) row = decide (row.tenantId = t)
  /-- the error of casting a value that is neither a string nor null for `nangoConnectionId` -/
  castConnectionId : JsVal → Option JsVal
  /-- whether a connection's `nangoConnectionId` meets such a value -/
  connectionIdMeets : JsVal → Connection → Bool
  /-- such a value cast for an update of a string path; `none` leaves the path out -/
  castUpdate : JsVal → Except JsVal (Option (Option String))
  /-- the error `add` throws for a `jobId` it does not accept -/
  rejectsId : String → Option JsVal

/-- All entries of a filter hold of a row. -/
def Filter.meets (d : Drivers) (filter : Filter) (row : Event) : Bool :=
  filter.all fun entry => d.eventMeets entry.1 entry.2 row

namespace withTenant

/-- `{ ...filter, tenantId }`. -/
def scopedFilter (tenantId : ObjectId) (filter : Filter) : Filter :=
  filter.upsert (fun entry => entry.1 = "tenantId") (fun entry => (entry.1, .id tenantId))
    ("tenantId", .id tenantId)

/-- `withTenant(tenantId).events.find(filter)`. -/
def find (d : Drivers) (tenantId : ObjectId) (filter : Filter) (events : Spine) :
    Except JsVal (List Event) :=
  match d.castFilter (scopedFilter tenantId filter) with
  | some err => .error err
  | none => .ok (events.filter ((scopedFilter tenantId filter).meets d))

/-- `withTenant(tenantId).events.findOne(filter)`. -/
def findOne (d : Drivers) (tenantId : ObjectId) (filter : Filter) (events : Spine) :
    Except JsVal (Option Event) :=
  match d.castFilter (scopedFilter tenantId filter) with
  | some err => .error err
  | none => .ok (events.find? ((scopedFilter tenantId filter).meets d))

/-- `withTenant(tenantId).events.countDocuments(filter)`. -/
def countDocuments (d : Drivers) (tenantId : ObjectId) (filter : Filter) (events : Spine) :
    Except JsVal Nat :=
  match d.castFilter (scopedFilter tenantId filter) with
  | some err => .error err
  | none => .ok (events.countP ((scopedFilter tenantId filter).meets d))

end withTenant

/-- `.sort({ key: 1 })`, entries with equal keys in their own order. -/
def sortAsc {α : Type} (key : α → Int) (docs : List α) : List α :=
  docs.mergeSort fun a b => key a ≤ key b

/-- `.sort({ key: -1 })`. -/
def sortDesc {α : Type} (key : α → Int) (docs : List α) : List α :=
  docs.mergeSort fun a b => key b ≤ key a

/-! ## Responses and plans -/

/-- The JSON body of an answer. -/
inductive ResponseBody where
  | error (message : JsVal)
  | registered (id : ObjectId) (nangoConnectionId provider : JsVal)
  | events (count : Nat) (events : List Event)
  | connections (count : Nat) (connections : List Connection)
  | syncRuns (count : Nat) (runs : List SyncRun)
  | deadLetters (count : Nat) (items : List DeadLetter)
  | replayed (deadLetterId : ObjectId) (jobId : String) (payload : IngestJobData)
  | backfilled (enqueued : Nat)
  | reconciling (connectionId : ObjectId) (models : List String) (enqueued : Nat)
  | ignored (type : JsVal)
  | noMatchingConnection
  | webhookEnqueued

/-- `res.status(status).json(body)`. -/
structure Response where
  status : Nat
  body : ResponseBody

/-- The error middleware: `res.status(500).json({ error: err?.message })`. -/
def serverError (err : JsVal) : Response := ⟨500, .error (err.get "message")⟩

/-- `res.status(status).json({ error: message })`. -/
def failure (status : Nat) (message : String) : Response := ⟨status, .error (.str message)⟩

/-- What a handler does after its look at the collections: the jobs it adds, one after
    another, the dead letter it stamps once they are in, by `_id` and `tenantId`, and its
    answer. -/
structure Plan where
  response : Response
  adds : List QueueAdd := []
  replayed : Option (ObjectId × ObjectId) := none

/-- The queues `buildApp` is given. -/
structure AppOptions where
  ingestQueue : Bool
  nangoSyncQueue : Bool
  reconcileQueue : Bool

/-- What a request meets: the `_id` generated for a document it inserts, the id BullMQ gives a
    job, the clock, and the errors its calls throw before they take effect. -/
structure RequestEnv where
  newId : ObjectId
  jobId : String
  now : Int
  /-- what `Tenant.findOne` throws -/
  authFault : Option JsVal := none
  /-- what the handler's query or update throws -/
  lookFault : Option JsVal := none
  /-- what its `n`-th `add` throws -/
  addFault : Nat → Option JsVal := fun _ => none
  /-- what `item.save()` throws -/
  saveFault : Option JsVal := none

/-- A handler goes on from its query or update, or answers with what that throws. -/
def RequestEnv.look (env : RequestEnv) (plan : Plan) : Plan :=
  match env.lookFault with
  | some err => { response := serverError err }
  | none => plan

/-! ## Routes -/

/-- The value of a string path in an update: `undefined` leaves it out. -/
def Drivers.castString (d : Drivers) : JsVal → Except JsVal (Option (Option String))
  | .undefined => .ok none
  | .null => .ok (some none)
  | .str s => .ok (some (some s))
  | v => d.castUpdate v

/-- The cast of the filter entry `nangoConnectionId: v`. -/
def Drivers.castConnectionIdFilter (d : Drivers) : JsVal → Option JsVal
  | .null | .str _ => none
  | v => d.castConnectionId v

/-- The filter entry `nangoConnectionId: v`: equality for a string, missing or null for
    `null`, and what the driver makes of anything else. -/
def Drivers.meetsConnectionId (d : Drivers) : JsVal → Connection → Bool
  | .str s, connection => connection.nangoConnectionId = some s
  | .null, connection => connection.nangoConnectionId.isNone
  | v, connection => d.connectionIdMeets v connection

/-- The filter `{ tenantId, nangoConnectionId }` of `POST /connections`. -/
def Drivers.isRegistration (d : Drivers) (tenantId : ObjectId) (nangoConnectionId : JsVal)
    (connection : Connection) : Bool :=
  connection.tenantId = tenantId && d.meetsConnectionId nangoConnectionId connection

/-- The cast update of `POST /connections`. -/
structure Registration where
  nangoConnectionId : Option (Option String)
  nangoIntegrationId : Option (Option String)
  provider : Option (Option String)

namespace Registration

/-- The cast of the filter and the update. -/
def cast (d : Drivers) (nangoConnectionId nangoIntegrationId provider : JsVal) :
    Except JsVal Registration :=
  match d.castConnectionIdFilter nangoConnectionId with
  | some err => .error err
  | none => do
    let nangoIntegrationId ← d.castString nangoIntegrationId
    let provider ← d.castString provider
    let nangoConnectionId ← d.castString nangoConnectionId
    .ok { nangoConnectionId, nangoIntegrationId, provider }

/-- `$set: { nangoIntegrationId, provider, status: 'active' }`. -/
def set (r : Registration) (connection : Connection) : Connection :=
  { connection with
    nangoIntegrationId := r.nangoIntegrationId.getD connection.nangoIntegrationId
    provider := r.provider.getD connection.provider
    -- a connection that was deactivated is active again
    status := "active" }

/-- The document inserted where there is none: `$set`, `$setOnInsert` and the schema's
    defaults. -/
def inserted (r : Registration) (env : RequestEnv) (tenantId : ObjectId) : Connection where
  id := env.newId
  tenantId := tenantId
  provider := r.provider.getD (some "github")
  nangoConnectionId := r.nangoConnectionId.getD none
  nangoIntegrationId := r.nangoIntegrationId.getD none
  status := "active"
  models := ["Commit"]
  createdAt := env.now

end Registration

/-- The `findOneAndUpdate` of `POST /connections`: the document afterwards and the
    collection. -/
def upsertConnection (d : Drivers) (env : RequestEnv) (tenantId : ObjectId)
    (nangoConnectionId : JsVal) (r : Registration) (connections : List Connection) :
    Connection × List Connection :=
  let isIt := d.isRegistration tenantId nangoConnectionId
  let after := match connections.find? isIt with
    | some connection => r.set connection
    | none => r.inserted env tenantId
  (after, connections.upsert isIt r.set (r.inserted env tenantId))

/-- `POST /connections`. -/
def postConnections (d : Drivers) (env : RequestEnv) (tenantId : ObjectId) (body : JsVal)
    (s : System) : Plan × System :=
  let nangoConnectionId := body.get "nangoConnectionId"
  let nangoIntegrationId := body.get "nangoIntegrationId"
  -- a destructuring default stands in for `undefined` only
  let provider := match body.get "provider" with
    | .undefined => .str "github"
    | v => v
  -- the only field that is checked
  if nangoConnectionId.truthy = false then
    ({ response := failure 400 "nangoConnectionId is required" }, s)
  else
    match Registration.cast d nangoConnectionId nangoIntegrationId provider with
    | .error err => ({ response := serverError err }, s)
    | .ok r =>
      match env.lookFault with
      | some err => ({ response := serverError err }, s)
      | none =>
        let (connection, connections) :=
          upsertConnection d env tenantId nangoConnectionId r s.connections
        ({ response := ⟨201, .registered connection.id nangoConnectionId provider⟩ },
          { s with connections })

/-- `GET /events`. -/
def getEvents (d : Drivers) (env : RequestEnv) (tenantId : ObjectId) (type : JsVal)
    (s : System) : Plan :=
  let filter : Filter := if type.truthy then [("type", .js type)] else []
  match withTenant.find d tenantId filter s.spine with
  | .error err => { response := serverError err }
  | .ok found =>
    let events := sortDesc Event.occurredAt found
    env.look { response := ⟨200, .events events.length events⟩ }

/-- `GET /connections`. -/
def getConnections (env : RequestEnv) (tenantId : ObjectId) (s : System) : Plan :=
  let connections := (sortAsc Connection.createdAt
    (s.connections.filter (·.tenantId = tenantId))).take 100
  env.look { response := ⟨200, .connections connections.length connections⟩ }

/-- `GET /sync-runs`. -/
def getSyncRuns (env : RequestEnv) (tenantId : ObjectId) (s : System) : Plan :=
  let runs := (sortDesc SyncRun.createdAt (s.syncRuns.filter (·.tenantId = tenantId))).take 50
  env.look { response := ⟨200, .syncRuns runs.length runs⟩ }

/-- `GET /dlq`. -/
def getDlq (env : RequestEnv) (tenantId : ObjectId) (s : System) : Plan :=
  let items := (sortDesc DeadLetter.failedAt
    (s.deadLetters.filter (·.tenantId = tenantId))).take 100
  env.look { response := ⟨200, .deadLetters items.length items⟩ }

/-- `POST /dlq/:id/replay`, with `replayDeadLetter`. -/
def postReplay (options : AppOptions) (env : RequestEnv) (tenantId : ObjectId) (id : String)
    (s : System) : Plan :=
  if options.ingestQueue = false then { response := failure 503 "Queue not configured" }
  else
    match ObjectId.ofString? id with
    | none => { response := failure 400 "Invalid id" }
    | some id => env.look <|
      match s.deadLetters.find? (DeadLetter.isItem id tenantId) with
      | none => { response := failure 404 "Dead-letter item not found" }
      | some item =>
        -- the payload goes out verbatim, under the tenant it carries
        { response := ⟨200, .replayed item.id env.jobId item.payload⟩
          adds := [.ingest item.payload]
          replayed := some (id, tenantId) }

/-- The tenant's connection looked up, and a reconcile job for each of its `models`. -/
def reconcilePlan (env : RequestEnv) (tenantId id : ObjectId) (models : Connection → List String)
    (s : System) : Plan :=
  env.look <| match s.connections.find? fun c => c.id = id && c.tenantId = tenantId with
  | none => { response := failure 404 "Connection not found" }
  | some connection =>
    { response := ⟨202, .reconciling connection.id (models connection) (models connection).length⟩
      adds := (models connection).map (enqueueReconcileJob connection) }

/-- `POST /connections/:id/reconcile`. -/
def postReconcile (options : AppOptions) (env : RequestEnv) (tenantId : ObjectId) (id : String)
    (body : JsVal) (s : System) : Plan :=
  if options.reconcileQueue = false then { response := failure 503 "Queue not configured" }
  else
    match ObjectId.ofString? id with
    | none => { response := failure 400 "Invalid connection id" }
    | some id =>
      match body.get "model" with
      | .undefined => reconcilePlan env tenantId id Connection.modelsOrDefault s
      | .str model =>
        -- an empty name is falsy and counts as none requested
        if model = "" then reconcilePlan env tenantId id Connection.modelsOrDefault s
        else reconcilePlan env tenantId id (fun _ => [model]) s
      | _ => { response := failure 400 "model must be a string" }

/-- `POST /connections/:id/backfill`, with `backfillConnection`. -/
def postBackfill (options : AppOptions) (env : RequestEnv) (tenantId : ObjectId) (id : String)
    (s : System) : Plan :=
  if options.ingestQueue = false then { response := failure 503 "Queue not configured" }
  else
    match ObjectId.ofString? id with
    | none => { response := failure 400 "Invalid id" }
    | some id =>
      -- no look at `connections`: raw rows of the tenant are all it asks for
      let jobs := backfillJobs id tenantId s.rawRecords
      env.look { response := ⟨200, .backfilled jobs.length⟩, adds := jobs.map .ingest }

/-- A request to one of the tenant-scoped routes, with what the route reads of it. -/
inductive ApiRequest where
  | getEvents (type : JsVal)
  | getConnections
  | getSyncRuns
  | getDlq
  | postConnections (body : JsVal)
  | postReplay (id : String)
  | postReconcile (id : String) (body : JsVal)
  | postBackfill (id : String)

/-- A handler up to its plan. Only `POST /connections` changes a document on the way. -/
def ApiRequest.plan (d : Drivers) (options : AppOptions) (env : RequestEnv) (tenantId : ObjectId) :
    ApiRequest → System → Plan × System
  | .getEvents type, s => (Shiplog.getEvents d env tenantId type s, s)
  | .getConnections, s => (Shiplog.getConnections env tenantId s, s)
  | .getSyncRuns, s => (Shiplog.getSyncRuns env tenantId s, s)
  | .getDlq, s => (Shiplog.getDlq env tenantId s, s)
  | .postConnections body, s => Shiplog.postConnections d env tenantId body s
  | .postReplay id, s => (Shiplog.postReplay options env tenantId id s, s)
  | .postReconcile id body, s => (Shiplog.postReconcile options env tenantId id body s, s)
  | .postBackfill id, s => (Shiplog.postBackfill options env tenantId id s, s)

/-- The error `add` throws for a job. -/
def Drivers.rejects (d : Drivers) (add : QueueAdd) : Option JsVal := add.jobId.bind d.rejectsId

/-- Add jobs one after another up to the first whose `add` throws: its error, the jobs added
    and the state. -/
def addAll (d : Drivers) : (Nat → Option JsVal) → List QueueAdd → System →
    Option JsVal × List QueueAdd × System
  | _, [], s => (none, [], s)
  | addFault, add :: adds, s =>
    match (d.rejects add).or (addFault 0) with
    -- the jobs added so far stay on their queues
    | some err => (some err, [], s)
    | none =>
      let (err, added, s') := addAll d (fun n => addFault (n + 1)) adds (s.add add)
      (err, add :: added, s')

/-- The end of a handler: stamp the replayed dead letter. -/
def stampPlan (env : RequestEnv) (replayed : Option (ObjectId × ObjectId)) (s : System) :
    System :=
  match replayed with
  | none => s
  | some (id, tenantId) =>
    { s with deadLetters := stampReplayed id tenantId env.now s.deadLetters }

/-- What a request answers, the jobs it adds, and the state it leaves. -/
def handle (d : Drivers) (options : AppOptions) (env : RequestEnv) (tenantId : ObjectId)
    (req : ApiRequest) (s : System) : Response × List QueueAdd × System :=
  let (plan, s') := req.plan d options env tenantId s
  match addAll d env.addFault plan.adds s' with
  | (some err, added, s'') => (serverError err, added, s'')
  | (none, added, s'') =>
    match plan.replayed.bind fun _ => env.saveFault with
    -- the payload has been added again, and nothing says so
    | some err => (serverError err, added, s'')
    | none => (plan.response, added, stampPlan env plan.replayed s'')

/-! ## Authentication -/

/-- The two headers `tenantAuth` looks at. -/
structure Credentials where
  authorization : Option String
  xApiKey : Option String

/-- `extractApiKey(req)`: the bearer token, or else the `x-api-key` header. -/
def extractApiKey (credentials : Credentials) : Option String :=
  let headerKey := match credentials.xApiKey with
    | some key => if key = "" then none else some (jsTrim key)
    | none => none
  match credentials.authorization with
  | some auth =>
    -- a bearer token wins, an empty one too
    if auth.startsWith "Bearer " then
      some (jsTrim (String.ofList (auth.toList.drop "Bearer ".length)))
    else headerKey
  | none => headerKey

/-- `tenantAuth`: the tenant of the API key, or the answer that turns the request away. -/
def tenantAuth (env : RequestEnv) (tenants : List Tenant) (credentials : Credentials) :
    Except Response ObjectId :=
  match extractApiKey credentials with
  | none => .error (failure 401 "Missing API key")
  | some apiKey =>
    if apiKey = "" then .error (failure 401 "Missing API key")
    else
      match env.authFault with
      | some err => .error (serverError err)
      | none =>
        match tenants.find? (·.apiKey = apiKey) with
        | none => .error (failure 401 "Invalid API key")
        | some tenant => .ok tenant.id

/-- A request on its way through `tenantAuth` to its handler. -/
def serve (d : Drivers) (options : AppOptions) (env : RequestEnv) (tenants : List Tenant)
    (credentials : Credentials) (req : ApiRequest) (s : System) :
    Response × List QueueAdd × System :=
  match tenantAuth env tenants credentials with
  | .error response => (response, [], s)
  | .ok tenantId => handle d options env tenantId req s

/-! ## The webhook -/

/-- `isSync && payload.success !== false`. -/
def isSuccessfulSync (payload : JsVal) : Bool :=
  let failed := match payload.get "success" with
    | .bool success => !success
    | _ => false
  ((payload.get "type").isStr "sync" || (payload.get "type").isStr "sync.success") && !failed

/-- `POST /webhooks/nango` once the signature is verified and the body parsed. -/
def webhookNango (rt : Runtime) (d : Drivers) (options : AppOptions) (payload : JsVal)
    (s : System) : Plan :=
  match payload with
  | .null =>
    -- reading `type` off `null` throws inside the handler's `try`
    { response := serverError
        (mkError rt "TypeError" "Cannot read properties of null (reading 'type')") }
  | payload =>
    if isSuccessfulSync payload = false then
      { response := ⟨200, .ignored (payload.get "type")⟩ }
    else
      let nangoConnectionId := payload.get "connectionId"
      match d.castConnectionIdFilter nangoConnectionId with
      | some err => { response := serverError err }
      | none =>
        match s.connections.find? (d.meetsConnectionId nangoConnectionId) with
        | none => { response := ⟨200, .noMatchingConnection⟩ }
        | some connection =>
          -- tenant and connection come from the document, the rest from the payload
          if options.nangoSyncQueue = false then
            { response := failure 503 "Queue not configured" }
          else
            { response := ⟨202, .webhookEnqueued⟩
              adds := [.nangoSync
                { tenantId := connection.tenantId, connectionId := connection.id,
                  nangoConnectionId, providerConfigKey := payload.get "providerConfigKey",
                  model := payload.get "model", modifiedAfter := payload.get "modifiedAfter" }] }

end Shiplog
