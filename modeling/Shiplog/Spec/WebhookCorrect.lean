import Shiplog.ForStd.Commands
import Shiplog.Native.Webhook
import Shiplog.Spec.Signature

/-!
# What webhooks add

A delivery is worth a job if it is signed, its body is a successful sync, and some connection
carries its Nango id. Nothing else of the system enters, and nothing else of it changes; so a
sequence of deliveries adds the jobs its members are worth, one by one and in order, however
often the same delivery is among them.

## Key results

- `webhookNango_handled`: what the handler makes of a payload
- `post_eq`: one delivery
- `webhooks_exact`: any sequence of deliveries
-/

namespace Shiplog

/-- A delivery of Nango's: the raw body and the headers. -/
structure WebhookDelivery where
  rawBody : RawBody
  headers : JsVal

/-- The job of a successful sync: tenant and connection come from the document, the rest from
    the payload. -/
def syncJob (payload : JsVal) (connection : Connection) : NangoSyncJobData where
  tenantId := connection.tenantId
  connectionId := connection.id
  nangoConnectionId := payload.get "connectionId"
  providerConfigKey := payload.get "providerConfigKey"
  model := payload.get "model"
  modifiedAfter := payload.get "modifiedAfter"

/-- The job a payload is worth beside these connections. -/
def worthOf (d : Drivers) (connections : List Connection) (payload : JsVal) :
    Option NangoSyncJobData :=
  if isSuccessfulSync payload && (d.castConnectionIdFilter (payload.get "connectionId")).isNone then
    (connections.find? (d.meetsConnectionId (payload.get "connectionId"))).map (syncJob payload)
  else none

namespace WebhookDelivery

/-- The signature text is read as the HMAC of the body under the secret. -/
def signed (w : WebhookDrivers) (secret : String) (delivery : WebhookDelivery) : Bool :=
  secret ≠ "" && match receivedText delivery.headers with
    | some text => Hex.decode text.toList = (w.hmac secret delivery.rawBody.bytes).1
    | none => false

/-- The job a delivery is worth beside these connections. -/
def worth (d : Drivers) (w : WebhookDrivers) (secret : String) (connections : List Connection)
    (delivery : WebhookDelivery) : Option NangoSyncJobData :=
  if delivery.signed w secret then (w.parseBody delivery.rawBody).bind (worthOf d connections)
  else none

/-- The route, as a command on the system. -/
def post (rt : Runtime) (d : Drivers) (w : WebhookDrivers) (options : AppOptions)
    (secret : String) (delivery : WebhookDelivery) (s : System) :
    (Response × List QueueAdd) × System :=
  let (response, added, s') :=
    postWebhook rt d w options secret delivery.rawBody delivery.headers s
  ((response, added), s')

end WebhookDelivery

/-- These nango-sync jobs are added. -/
def System.addSyncs (s : System) (jobs : List NangoSyncJobData) : System :=
  { s with nangoSyncJobs := s.nangoSyncJobs ++ jobs }

private theorem System.addSyncs_addSyncs (s : System) (jobs jobs' : List NangoSyncJobData) :
    (s.addSyncs jobs).addSyncs jobs' = s.addSyncs (jobs ++ jobs') := by
  unfold System.addSyncs
  rw [List.append_assoc]

section Webhook

variable {rt : Runtime} {d : Drivers} {w : WebhookDrivers} {options : AppOptions}
  {secret : String} {s : System}

/-- **The signature check** lets the signed deliveries through. -/
private theorem verify_eq_signed (delivery : WebhookDelivery) :
    verifyNangoSignature rt w.hmac delivery.rawBody delivery.headers secret =
      .ok (delivery.signed w secret) := by
  obtain ⟨b, hb, haccept⟩ :=
    verifyNangoSignature_eq rt w.hmac delivery.rawBody delivery.headers secret
  rw [hb, Except.ok.injEq, Bool.eq_iff_iff, haccept]
  unfold WebhookDelivery.signed
  rw [Bool.and_eq_true, decide_eq_true_eq]
  cases receivedText delivery.headers with
  | none => simp
  | some text => simp

/-- What the handler makes of a payload: the job it is worth and a 202, or neither. -/
inductive Handled (d : Drivers) (options : AppOptions) (payload : JsVal) (s : System) :
    Plan → Prop where
  | enqueued {job : NangoSyncJobData} (hworth : worthOf d s.connections payload = some job)
      (hqueue : options.nangoSyncQueue = true) :
      Handled d options payload s
        { response := ⟨202, .webhookEnqueued⟩, adds := [.nangoSync job] }
  | nothing {response : Response} (hstatus : response.status ≠ 202)
      (hno : worthOf d s.connections payload = none ∨ options.nangoSyncQueue = false) :
      Handled d options payload s { response := response }

theorem webhookNango_handled (rt : Runtime) (payload : JsVal) :
    Handled d options payload s (webhookNango rt d options payload s) := by
  have h500 : ∀ err, (serverError err).status ≠ 202 := fun _ => Nat.ne_of_beq_eq_false rfl
  unfold webhookNango
  split
  · exact .nothing (h500 _) (Or.inl rfl)
  · split
    · next hfailed =>
      refine .nothing (Nat.ne_of_beq_eq_false rfl) (Or.inl ?_)
      rw [worthOf, hfailed]
      rfl
    · next hsync =>
      rw [Bool.not_eq_false] at hsync
      simp only
      split
      · next err hcast =>
        refine .nothing (h500 err) (Or.inl ?_)
        rw [worthOf, hsync, hcast]
        rfl
      · next hcast =>
        -- the payload is worth what the connections make of it
        have hworth : worthOf d s.connections payload = (s.connections.find?
            (d.meetsConnectionId (payload.get "connectionId"))).map (syncJob payload) := by
          rw [worthOf, hsync, hcast]
          rfl
        split
        · next hfind =>
          rw [hfind] at hworth
          exact .nothing (by decide) (Or.inl hworth)
        · next connection hfind =>
          rw [hfind] at hworth
          split
          · next hqueue => exact .nothing (by decide) (Or.inr hqueue)
          · next hqueue =>
            rw [Bool.not_eq_false] at hqueue
            exact .enqueued hworth hqueue

/-- **One delivery** adds the job it is worth, where there is a queue, and answers 202 exactly
    when it does. -/
theorem post_eq (delivery : WebhookDelivery) (s : System) :
    let job := if options.nangoSyncQueue then delivery.worth d w secret s.connections else none
    ∃ response, delivery.post rt d w options secret s =
        ((response, job.toList.map .nangoSync), s.addSyncs job.toList) ∧
      (response.status = 202 ↔ job.isSome) := by
  have hnone : s.addSyncs [] = s := by
    rw [System.addSyncs, List.append_nil]
  unfold WebhookDelivery.post postWebhook WebhookDelivery.worth
  -- the route's checks in their order: signature, JSON, then the payload's own
  rw [verify_eq_signed]
  cases delivery.signed w secret with
  | false => exact ⟨failure 401 "Invalid signature", by simp [hnone], by simp [failure]⟩
  | true =>
    simp only [if_true]
    cases w.parseBody delivery.rawBody with
    | none => exact ⟨failure 400 "Invalid JSON", by simp [hnone], by simp [failure]⟩
    | some payload =>
      simp only [Option.bind_some]
      have hhandled := @webhookNango_handled d options s rt payload
      generalize webhookNango rt d options payload s = plan at hhandled ⊢
      cases hhandled with
      | enqueued hworth hqueue =>
        rw [hworth, hqueue]
        exact ⟨⟨202, .webhookEnqueued⟩, rfl, by simp⟩
      | @nothing response hstatus hno =>
        refine ⟨response, ?_⟩
        have hjob : (if options.nangoSyncQueue then worthOf d s.connections payload else none) =
            none := by
          cases hno with
          | inl hworth => rw [hworth, ite_self]
          | inr hqueue => rw [hqueue]; rfl
        rw [hjob]
        exact ⟨by rw [Option.toList_none, hnone]; rfl, by simpa using hstatus⟩

end Webhook

/-- **Any deliveries, one after another.** Each is worth what it is worth beside the connections
    there are: the nango-sync queue gains exactly these jobs, in order, the 202s are exactly the
    deliveries that are worth one, and nothing else of the system changes. Without a queue none
    is added. -/
theorem webhooks_exact (rt : Runtime) (d : Drivers) (w : WebhookDrivers) (options : AppOptions)
    (secret : String) (deliveries : List WebhookDelivery) (s : System) :
    let worth := fun delivery : WebhookDelivery =>
      if options.nangoSyncQueue then delivery.worth d w secret s.connections else none
    let answered := Commands.run (WebhookDelivery.post rt d w options secret) deliveries s
    answered.2 = s.addSyncs (deliveries.filterMap worth) ∧
      answered.1.map (fun x => (x.1, x.2.2)) =
        deliveries.map (fun delivery => (delivery, (worth delivery).toList.map .nangoSync)) ∧
      ∀ x ∈ answered.1, x.2.1.status = 202 ↔ (worth x.1).isSome := by
  intro worth answered
  -- the connections are those of `s` all along
  suffices hrun : ∀ s' : System, s'.connections = s.connections →
      let answered := Commands.run (WebhookDelivery.post rt d w options secret) deliveries s'
      answered.2 = s'.addSyncs (deliveries.filterMap worth) ∧
        answered.1.map (fun x => (x.1, x.2.2)) =
          deliveries.map (fun delivery => (delivery, (worth delivery).toList.map .nangoSync)) ∧
        ∀ x ∈ answered.1, x.2.1.status = 202 ↔ (worth x.1).isSome from hrun s rfl
  clear answered
  induction deliveries with
  | nil =>
    intro s' _
    refine ⟨?_, rfl, nofun⟩
    show s' = s'.addSyncs []
    rw [System.addSyncs, List.append_nil]
  | cons delivery deliveries ih =>
    intro s' hs'
    obtain ⟨response, hpost, hstatus⟩ := @post_eq rt d w options secret delivery s'
    rw [hs'] at hpost hstatus
    obtain ⟨hend, hadds, hanswers⟩ := ih (s'.addSyncs (worth delivery).toList) hs'
    simp only [Commands.run, hpost]
    refine ⟨?_, ?_, List.forall_mem_cons.mpr ⟨hstatus, hanswers⟩⟩
    · rw [hend]
      show (s'.addSyncs (worth delivery).toList).addSyncs (deliveries.filterMap worth) = _
      rw [List.filterMap_cons, System.addSyncs_addSyncs]
      cases worth delivery <;> rfl
    · rw [List.map_cons, List.map_cons, hadds]

end Shiplog
