import Shiplog.ForStd.Double

/-!
# JavaScript values

Nango records, job payloads, request bodies and thrown errors travel through the
pipeline as loosely typed JSON. `JsVal` is that value type, with the conversions the
code applies to it: property reads, `??`, `String(v)` and `new Date(v)`.

Everything the code calls and does not define (Node's SHA-256, the engine's number
and date conversions, the URL check and messages of its libraries) is a field of
`Runtime`, and every result holds for an arbitrary one.
-/

namespace Shiplog

/-- The engine and library functions the code calls without defining them. -/
structure Runtime where
  /-- `createHash('sha256').update(input).digest('hex')`. -/
  sha256Hex : String → String
  /-- `String(n)` of a finite number. -/
  numToString : Rat → String
  /-- `String(d)` of a `Date`; `none` is the invalid date. -/
  dateToString : Option Int → String
  /-- `Date.parse(s)` in milliseconds; `none` is `NaN`. -/
  parseDate : String → Option Int
  /-- `z.url()`: the string it outputs when it accepts its input. -/
  parseUrl : String → Option String
  /-- The message of a `ZodError` about the given field paths. -/
  zodMessage : List String → String
  /-- The `stack` text of an error with the given name and message. -/
  stackOf : String → String → String

/-- The numbers that are not finite. -/
inductive NonFinite where
  | nan
  | posInf
  | negInf
deriving DecidableEq, Repr

/-- `String(x)`. -/
def NonFinite.toStr : NonFinite → String
  | .nan => "NaN"
  | .posInf => "Infinity"
  | .negInf => "-Infinity"

/-- A JavaScript value. JSON has finite numbers only, `num`; `date none` is the invalid
    date; an object lists its own fields in creation order. -/
inductive JsVal where
  | undefined
  | null
  | bool (b : Bool)
  | num (q : Rat)
  | nonFinite (x : NonFinite)
  | str (s : String)
  | date (ms : Option Int)
  | arr (xs : List JsVal)
  | obj (fields : List (String × JsVal))
deriving Inhabited

namespace JsVal

/-- The value stored under `key`, `undefined` when there is none. -/
def lookup (fields : List (String × JsVal)) (key : String) : JsVal :=
  match fields.find? (fun f => f.1 == key) with
  | some f => f.2
  | none => .undefined

/-- `{ ...fields, [key]: v }`: overwrite in place, or append. -/
def assign : List (String × JsVal) → String → JsVal → List (String × JsVal)
  | [], key, v => [(key, v)]
  | (k, w) :: fields, key, v =>
    if k = key then (k, v) :: fields else (k, w) :: assign fields key v

/-- `v?.[key]`: `undefined` on anything without own fields. -/
def get : JsVal → String → JsVal
  | .obj fields, key => lookup fields key
  | _, _ => .undefined

/-- The own fields that `{ ...v }` copies. -/
def fields : JsVal → List (String × JsVal)
  | .obj fs => fs
  | _ => []

/-- `v === undefined`. -/
def isUndefined : JsVal → Bool
  | .undefined => true
  | _ => false

/-- `v == null`. -/
def isNullish : JsVal → Bool
  | .undefined | .null => true
  | _ => false

/-- `v ?? w`. -/
def coalesce (v w : JsVal) : JsVal := if v.isNullish then w else v

/-- `Boolean(v)`. -/
def truthy : JsVal → Bool
  | .undefined | .null => false
  | .bool b => b
  | .num q => q ≠ 0
  | .nonFinite x => x ≠ .nan
  | .str s => s ≠ ""
  | .date _ | .arr _ | .obj _ => true

/-- The number whose exact value is `q`: the nearest double, or an infinity. -/
def number (q : Rat) : JsVal :=
  if Double.overflows q then .nonFinite (if q < 0 then .negInf else .posInf)
  else .num (Double.nearest q)

/-- The sign of a number; `NaN` has none. -/
def sign? : JsVal → Option Int
  | .num q => some (if q < 0 then -1 else if q = 0 then 0 else 1)
  | .nonFinite .posInf => some 1
  | .nonFinite .negInf => some (-1)
  | _ => none

/-- `v * w` of two numbers. -/
def times : JsVal → JsVal → JsVal
  | .num p, .num q => number (p * q)
  | v, w =>
    match v.sign?, w.sign? with
    -- `0 * Infinity` is `NaN`
    | some s, some t =>
      .nonFinite (if s * t = 0 then .nan else if s * t < 0 then .negInf else .posInf)
    | _, _ => .nonFinite .nan

/-- `v + w` of two numbers. -/
def plus : JsVal → JsVal → JsVal
  | .num p, .num q => number (p + q)
  | .num _, .nonFinite x | .nonFinite x, .num _ => .nonFinite x
  -- opposite infinities have no sum
  | .nonFinite x, .nonFinite y => .nonFinite (if x = y then x else .nan)
  | _, _ => .nonFinite .nan

/-- `Math.floor(v)` of a number. -/
def floor : JsVal → JsVal
  | .num q => .num (⌊q⌋ : Int)
  | v => v

/-- `Math.min(cap, v)` of a number and a finite cap. -/
def capped (cap : Rat) : JsVal → JsVal
  | .num q => .num (min cap q)
  | .nonFinite .posInf => .num cap
  | v => v

/-- `v === s` for a string `s`. -/
def isStr : JsVal → String → Bool
  | .str t, s => t == s
  | _, _ => false

@[simp] theorem get_obj (fs : List (String × JsVal)) (key : String) :
    (JsVal.obj fs).get key = lookup fs key := rfl

theorem number_of_nonneg {q : Rat} (h : 0 ≤ q) :
    number q = if Double.overflows q then .nonFinite .posInf else .num (Double.nearest q) := by
  rw [number, if_neg (not_lt.mpr h)]

/-- A double is the number it spells. -/
theorem number_of_isDouble {q : Rat} (h : Double.IsDouble q) : number q = .num q := by
  rw [number, h.2, h.1]
  rfl

private theorem lookup_cons (k : String) (v : JsVal) (fs : List (String × JsVal)) (key : String) :
    lookup ((k, v) :: fs) key = if k = key then v else lookup fs key := by
  by_cases h : k = key
  · simp [lookup, h]
  · simp [lookup, h]

/-- Assigning a field leaves the others alone. -/
theorem lookup_assign_ne (fs : List (String × JsVal)) {key key' : String} (v : JsVal)
    (h : key ≠ key') : lookup (assign fs key v) key' = lookup fs key' := by
  induction fs with
  | nil => simp [assign, lookup_cons, h]
  | cons f fs ih =>
    obtain ⟨k, w⟩ := f
    simp only [assign]
    split
    · next hk => simp [lookup_cons, hk, h]
    · next hk => simp only [lookup_cons, ih]

theorem lookup_assign_self (fs : List (String × JsVal)) (key : String) (v : JsVal) :
    lookup (assign fs key v) key = v := by
  induction fs with
  | nil => simp only [assign, lookup_cons, if_true]
  | cons f fs ih =>
    obtain ⟨k, w⟩ := f
    simp only [assign]
    split
    · next hk => rw [lookup_cons, if_pos hk]
    · next hk => rw [lookup_cons, if_neg hk, ih]

end JsVal

/-! ## Built-in conversions -/

/-- `new Error(message)` of the class `name`, as property reads see it. -/
def mkError (rt : Runtime) (name message : String) : JsVal :=
  .obj [("name", .str name), ("message", .str message),
    ("stack", .str (rt.stackOf name message))]

mutual

/-- `String(v)`. A plain object without an own `toString` prints as `[object Object]`;
    with one (JSON cannot hold a callable) the conversion is a `TypeError`. -/
def JsVal.toStr (rt : Runtime) : JsVal → Except JsVal String
  | .undefined => .ok "undefined"
  | .null => .ok "null"
  | .bool b => .ok (if b then "true" else "false")
  | .num q => .ok (rt.numToString q)
  | .nonFinite x => .ok x.toStr
  | .str s => .ok s
  | .date ms => .ok (rt.dateToString ms)
  | .arr xs =>
    match JsVal.itemStrs rt xs with
    | .ok items => .ok (",".intercalate items)
    | .error err => .error err
  | .obj fields =>
    if fields.any (fun f => f.1 == "toString") then
      .error (mkError rt "TypeError" "Cannot convert object to primitive value")
    else .ok "[object Object]"

/-- The texts `Array.prototype.join` puts between its commas. -/
def JsVal.itemStrs (rt : Runtime) : List JsVal → Except JsVal (List String)
  | [] => .ok []
  | x :: xs =>
    match (if x.isNullish then .ok "" else JsVal.toStr rt x), JsVal.itemStrs rt xs with
    | .ok item, .ok items => .ok (item :: items)
    | .error err, _ => .error err
    | _, .error err => .error err

end

/-- The time value of a number: truncated, and `NaN` beyond 8.64e15 ms. -/
def timeClip (q : Rat) : Option Int :=
  if q.num.natAbs ≤ 8640000000000000 * q.den then some (q.num.tdiv q.den) else none

/-- The time value of `new Date(v)`. -/
def newDate (rt : Runtime) : JsVal → Except JsVal (Option Int)
  | .date ms => .ok ms
  | .undefined | .nonFinite _ => .ok none
  -- `null` becomes the number 0, `undefined` becomes `NaN`
  | .null => .ok (some 0)
  | .bool b => .ok (some (if b then 1 else 0))
  | .num q => .ok (timeClip q)
  | .str s => .ok (rt.parseDate s)
  | v =>
    match v.toStr rt with
    | .ok s => .ok (rt.parseDate s)
    | .error err => .error err

/-- White space and line terminators, as `String.prototype.trim` strips them. -/
def isJsSpace (c : Char) : Bool :=
  c.toNat ∈ [0x9, 0xA, 0xB, 0xC, 0xD, 0x20, 0xA0, 0x1680, 0x2028, 0x2029, 0x202F, 0x205F,
    0x3000, 0xFEFF] || (0x2000 ≤ c.toNat && c.toNat ≤ 0x200A)

/-- `s.trim()`. -/
def jsTrim (s : String) : String :=
  String.ofList ((s.toList.dropWhile isJsSpace).reverse.dropWhile isJsSpace).reverse

end Shiplog
