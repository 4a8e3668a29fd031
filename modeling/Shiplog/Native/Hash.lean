import Shiplog.Native.Js

/-!
# Idempotency keys and content hashes

`src/events/hash.ts`: the canonical form of a value, its JSON text, and the two
hashes built on `sha256Hex`.
-/

namespace Shiplog

/-! ## Dates and JSON text -/

/-- Decimal digits of `n`, zero-padded to `width`. -/
def padNat (width n : Nat) : String :=
  let digits := Nat.toDigits 10 n
  String.ofList (List.replicate (width - digits.length) '0' ++ digits)

/-- The proleptic Gregorian `(year, month, day)` of a day number counted from
    1970-01-01. -/
def civilOfDays (days : Int) : Int × Nat × Nat :=
  let z := days + 719468
  let era := z / 146097
  let doe := z - era * 146097
  let yoe := (doe - doe / 1460 + doe / 36524 - doe / 146096) / 365
  let doy := doe - (365 * yoe + yoe / 4 - yoe / 100)
  -- months are counted from March, so that the leap day comes last
  let mp := (5 * doy + 2) / 153
  let day := doy - (153 * mp + 2) / 5 + 1
  let month := if mp < 10 then mp + 3 else mp - 9
  let year := yoe + era * 400 + (if month ≤ 2 then 1 else 0)
  (year, month.toNat, day.toNat)

/-- `new Date(ms).toISOString()` of a valid date. -/
def toISOString (ms : Int) : String :=
  let (year, month, day) := civilOfDays (ms / 86400000)
  let t := (ms % 86400000).toNat
  let yearText :=
    if 0 ≤ year ∧ year ≤ 9999 then padNat 4 year.toNat
    -- an expanded year has a sign and six digits
    else (if year < 0 then "-" else "+") ++ padNat 6 year.natAbs
  yearText ++ "-" ++ padNat 2 month ++ "-" ++ padNat 2 day ++ "T" ++
    padNat 2 (t / 3600000) ++ ":" ++ padNat 2 (t / 60000 % 60) ++ ":" ++
    padNat 2 (t / 1000 % 60) ++ "." ++ padNat 3 (t % 1000) ++ "Z"

/-- The UTF-16 code units of a string, the units JavaScript compares strings by. -/
def utf16 (s : String) : List Nat :=
  s.toList.flatMap fun c =>
    if c.toNat < 0x10000 then [c.toNat]
    else [0xD800 + (c.toNat - 0x10000) / 0x400, 0xDC00 + (c.toNat - 0x10000) % 0x400]

/-- `a <= b` on strings. -/
def jsStrLe (a b : String) : Bool := utf16 a ≤ utf16 b

/-- The array index a key spells, if it spells one in canonical form. -/
def arrayIndex? (key : String) : Option Nat :=
  let digits := key.toList
  let n := digits.foldl (fun acc c => acc * 10 + (c.toNat - '0'.toNat)) 0
  if digits ≠ [] ∧ digits.all Char.isDigit ∧ Nat.toDigits 10 n = digits ∧ n < 4294967295
  then some n else none

/-- Property enumeration order: array indices ascending, then creation order. -/
def ownOrder {β : Type} (fields : List (String × β)) : List (String × β) :=
  (fields.filter fun f => (arrayIndex? f.1).isSome).insertionSort
      (fun f g => ((arrayIndex? f.1).getD 0 ≤ (arrayIndex? g.1).getD 0)) ++
    fields.filter fun f => (arrayIndex? f.1).isNone

/-- Four lowercase hex digits, as in `\u001f`. -/
def hex4 (n : Nat) : String :=
  let digits := Nat.toDigits 16 n
  String.ofList (List.replicate (4 - digits.length) '0' ++ digits)

/-- One character inside a JSON string literal. -/
def jsonChar (c : Char) : String :=
  if c = '"' then "\\\"" else if c = '\\' then "\\\\"
  else if c.toNat = 8 then "\\b" else if c.toNat = 9 then "\\t"
  else if c.toNat = 10 then "\\n" else if c.toNat = 12 then "\\f"
  else if c.toNat = 13 then "\\r"
  else if c.toNat < 0x20 then "\\u" ++ hex4 c.toNat
  else c.toString

/-- `JSON.stringify(s)` of a string. -/
def jsonQuote (s : String) : String :=
  "\"" ++ String.join (s.toList.map jsonChar) ++ "\""

mutual

/-- `JSON.stringify(v)`; `none` is the result `undefined`. -/
def jsonText (rt : Runtime) : JsVal → Option String
  | .undefined => none
  | .null => some "null"
  | .bool b => some (if b then "true" else "false")
  | .num q => some (rt.numToString q)
  | .nonFinite _ => some "null"
  | .str s => some (jsonQuote s)
  | .date (some ms) => some (jsonQuote (toISOString ms))
  | .date none => some "null"
  | .arr xs => some ("[" ++ ",".intercalate (jsonItems rt xs) ++ "]")
  | .obj fields =>
    some ("\x7b" ++ ",".intercalate
      ((ownOrder (jsonFields rt fields)).map fun f => jsonQuote f.1 ++ ":" ++ f.2) ++ "\x7d")

/-- Array items; an `undefined` item prints as `null`. -/
def jsonItems (rt : Runtime) : List JsVal → List String
  | [] => []
  | x :: xs => (jsonText rt x).getD "null" :: jsonItems rt xs

/-- Object members with their texts; an `undefined` member is skipped. -/
def jsonFields (rt : Runtime) : List (String × JsVal) → List (String × String)
  | [] => []
  | (key, v) :: fields =>
    match jsonText rt v with
    | some text => (key, text) :: jsonFields rt fields
    | none => jsonFields rt fields

end

/-! ## Canonical form -/

mutual

/-- `canonicalize`: object keys sorted at every depth, dates as ISO strings. An invalid
    date has no ISO string (`RangeError`). -/
def canonicalize (rt : Runtime) : JsVal → Except JsVal JsVal
  | .date (some ms) => .ok (.str (toISOString ms))
  | .date none => .error (mkError rt "RangeError" "Invalid time value")
  | .arr xs =>
    match canonicalizeItems rt xs with
    | .ok items => .ok (.arr items)
    | .error err => .error err
  | .obj fields =>
    match canonicalizeFields rt fields with
    | .ok out => .ok (.obj (out.insertionSort fun f g => jsStrLe f.1 g.1))
    | .error err => .error err
  | v => .ok v

/-- `value.map(canonicalize)`. -/
def canonicalizeItems (rt : Runtime) : List JsVal → Except JsVal (List JsVal)
  | [] => .ok []
  | x :: xs =>
    match canonicalize rt x, canonicalizeItems rt xs with
    | .ok y, .ok ys => .ok (y :: ys)
    | .error err, _ => .error err
    | _, .error err => .error err

/-- The members of `out` before sorting. Assigning `out['__proto__']` sets the
    prototype and creates no member. -/
def canonicalizeFields (rt : Runtime) :
    List (String × JsVal) → Except JsVal (List (String × JsVal))
  | [] => .ok []
  | (key, v) :: fields =>
    match canonicalize rt v, canonicalizeFields rt fields with
    | .ok w, .ok out => .ok (if key = "__proto__" then out else (key, w) :: out)
    | .error err, _ => .error err
    | _, .error err => .error err

end

/-! ## The two hashes -/

/-- `contentHash`: the hash of the canonical JSON text. -/
def contentHash (rt : Runtime) (content : JsVal) : Except JsVal String :=
  match canonicalize rt content with
  | .error err => .error err
  | .ok value =>
    match jsonText rt value with
    | some text => .ok (rt.sha256Hex text)
    | none => .error (mkError rt "TypeError" "The \"data\" argument must be of type string")

/-- `idempotencyKey`: the hash of the four parts joined by `|`, each as a string. -/
def idempotencyKey (rt : Runtime) (tenantId source externalId version : String) : String :=
  rt.sha256Hex (tenantId ++ "|" ++ source ++ "|" ++ externalId ++ "|" ++ version)

end Shiplog
