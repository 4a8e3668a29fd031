import Shiplog.ForStd.Hex
import Shiplog.Native.Hash

/-!
# Webhook signatures

`src/nango/verify.ts`. HMAC-SHA256 is an argument: a function from a key and the bytes of a
body to 32 bytes.
-/

namespace Shiplog

/-- The output of HMAC-SHA256. -/
abbrev Digest := { bytes : List UInt8 // bytes.length = 32 }

/-- `RawBody`: a buffer, a string, or `null` and `undefined`. -/
inductive RawBody where
  | buffer (bytes : List UInt8)
  | text (s : String)
  | missing

/-- The bytes of the body: a buffer's own, or those of `Buffer.from(rawBody ?? '', 'utf8')`. -/
def RawBody.bytes : RawBody → List UInt8
  | .buffer bytes => bytes
  | .text s => s.toUTF8.data.toList
  | .missing => []

/-- `computeNangoHmac(rawBody, signingKey)`. -/
def computeNangoHmac (hmac : String → List UInt8 → Digest) (rawBody : RawBody)
    (signingKey : String) : String :=
  String.ofList (Hex.encode (hmac signingKey rawBody.bytes).1)

/-- `s.toLowerCase()`, as far as a comparison with the header's name goes: beyond ASCII there
    is no character whose lowercase is one of its letters. -/
def toLowerCase (s : String) : String := String.ofList (s.toList.map Char.toLower)

/-- The first own field of `headers`, in enumeration order, with this name up to case. -/
def headerField (headers : JsVal) (name : String) : Option (String × JsVal) :=
  (ownOrder headers.fields).find? fun field => toLowerCase field.1 == toLowerCase name

/-- `headerValue(headers, name)`. -/
def headerValue (headers : JsVal) (name : String) : JsVal :=
  if !headers.truthy then .undefined
  else
    match headerField headers name with
    | some field => field.2
    | none => .undefined

/-- `timingSafeEqual(a, b)`. -/
def timingSafeEqual (rt : Runtime) (a b : List UInt8) : Except JsVal Bool :=
  if a.length = b.length then .ok (a == b)
  else .error (mkError rt "RangeError" "Input buffers must have the same byte length")

/-- `safeHexEqual(aHex, bHex)`; `Buffer.from(s, 'hex')` is `Hex.decode`. -/
def safeHexEqual (rt : Runtime) (aHex bHex : JsVal) : Except JsVal Bool :=
  match aHex, bHex with
  | .str aHex, .str bHex =>
    let a := Hex.decode aHex.toList
    let b := Hex.decode bHex.toList
    -- the guard is on the decoded bytes, not on the texts
    if a.length = 0 ∨ a.length ≠ b.length then .ok false else timingSafeEqual rt a b
  | _, _ => .ok false

/-- `verifyNangoSignature(rawBody, headers, signingKey)`. -/
def verifyNangoSignature (rt : Runtime) (hmac : String → List UInt8 → Digest) (rawBody : RawBody)
    (headers : JsVal) (signingKey : String) : Except JsVal Bool :=
  if signingKey = "" then .ok false
  else
    let received := headerValue headers "x-nango-hmac-sha256"
    if !received.truthy then .ok false
    else safeHexEqual rt (.str (computeNangoHmac hmac rawBody signingKey)) received

end Shiplog
