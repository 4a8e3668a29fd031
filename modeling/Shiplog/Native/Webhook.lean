import Shiplog.Native.App
import Shiplog.Native.Verify

/-!
# The webhook route

`POST /webhooks/nango` of `src/app.ts` from the raw body on: the signature, the JSON, and then
the handler of `Shiplog.Native.App`.
-/

namespace Shiplog

/-- What the webhook route calls without defining it. -/
structure WebhookDrivers where
  /-- HMAC-SHA256 -/
  hmac : String → List UInt8 → Digest
  /-- `JSON.parse(Buffer.from(rawBody).toString('utf8'))`; `none` where it throws -/
  parseBody : RawBody → Option JsVal

/-- `POST /webhooks/nango`: what it answers, the jobs it adds, and the state it leaves, while its
    store calls answer. -/
def postWebhook (rt : Runtime) (d : Drivers) (w : WebhookDrivers) (options : AppOptions)
    (secret : String) (rawBody : RawBody) (headers : JsVal) (s : System) :
    Response × List QueueAdd × System :=
  match verifyNangoSignature rt w.hmac rawBody headers secret with
  | .error err => (serverError err, [], s)
  | .ok false => (failure 401 "Invalid signature", [], s)
  | .ok true =>
    match w.parseBody rawBody with
    | none => (failure 400 "Invalid JSON", [], s)
    | some payload =>
      let plan := webhookNango rt d options payload s
      match addAll d (fun _ => none) plan.adds s with
      | (some err, added, s') => (serverError err, added, s')
      | (none, added, s') => (plan.response, added, s')

end Shiplog
