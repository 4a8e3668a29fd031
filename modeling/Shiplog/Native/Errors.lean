import Shiplog.Native.Js

/-!
# The error taxonomy

`src/queue/errors.ts`: the error classes of the pipeline and the classifier that decides
whether a thrown value is worth a retry.
-/

namespace Shiplog

/-- `ErrorKind`. -/
inductive ErrorKind where
  | transient
  | logical
deriving DecidableEq, Repr

/-- `ClassifiedError`; `retryAfterMs` is a number or `undefined`, or whatever the thrown
    value carries under that name. -/
structure ClassifiedError where
  kind : ErrorKind
  retryAfterMs : JsVal

/-- `new TransientError(message, { statusCode })`. -/
def transientError (rt : Runtime) (message : String) (statusCode : Rat) : JsVal :=
  .obj [("name", .str "TransientError"), ("message", .str message),
    ("stack", .str (rt.stackOf "Error" message)), ("kind", .str "transient"),
    ("statusCode", .num statusCode), ("code", .undefined), ("retryAfterMs", .undefined)]

/-- `new LogicalError(message)`. -/
def logicalError (rt : Runtime) (message : String) : JsVal :=
  .obj [("name", .str "LogicalError"), ("message", .str message),
    ("stack", .str (rt.stackOf "Error" message)), ("kind", .str "logical")]

/-- `NETWORK_CODES`. -/
def networkCodes : List String :=
  ["ECONNRESET", "ETIMEDOUT", "ENOTFOUND", "ECONNREFUSED", "EAI_AGAIN", "EPIPE",
    "ECONNABORTED"]

/-- The natural number a string of decimal digits spells. -/
def digitsValue (s : String) : Nat :=
  s.toList.foldl (fun acc c => acc * 10 + (c.toNat - '0'.toNat)) 0

/-- `parseRetryAfter(value)` at the clock reading `now`. -/
def parseRetryAfter (rt : Runtime) (now : Int) : JsVal → JsVal
  | .num q => (JsVal.num q).times (.num 1000)
  | .nonFinite x => (JsVal.nonFinite x).times (.num 1000)
  | .str s =>
    let trimmed := jsTrim s
    if trimmed ≠ "" ∧ trimmed.toList.all Char.isDigit = true then
      -- `Number(trimmed)` is rounded before the product is
      (JsVal.number (digitsValue trimmed)).times (.num 1000)
    else
      match rt.parseDate trimmed with
      -- an HTTP date, past ones without a delay
      | some date => .num (max 0 (date - now) : Int)
      | none => .undefined
  | _ => .undefined

/-- `e.code && NETWORK_CODES.has(e.code)`. -/
def isNetworkCode : JsVal → Bool
  | .str code => networkCodes.contains code
  | _ => false

/-- `classifyError(err)` at the clock reading `now`. -/
def classifyError (rt : Runtime) (now : Int) (err : JsVal) : ClassifiedError :=
  if !err.truthy then ⟨.logical, .undefined⟩
  -- an explicit tag from our own error classes wins
  else if (err.get "kind").isStr "transient" then ⟨.transient, err.get "retryAfterMs"⟩
  else if (err.get "kind").isStr "logical" then ⟨.logical, .undefined⟩
  else if (err.get "name").isStr "ZodError" then ⟨.logical, .undefined⟩
  else if isNetworkCode (err.get "code") then ⟨.transient, .undefined⟩
  else
    match (err.get "statusCode").coalesce (err.get "status") with
    | .num status =>
      -- only a 429 is asked for its `retry-after` header
      if status = 429 then
        ⟨.transient, (err.get "retryAfterMs").coalesce
          (parseRetryAfter rt now ((err.get "headers").get "retry-after"))⟩
      else if 500 ≤ status ∧ status ≤ 599 then ⟨.transient, err.get "retryAfterMs"⟩
      else ⟨.logical, .undefined⟩
    | _ => ⟨.logical, .undefined⟩

end Shiplog
