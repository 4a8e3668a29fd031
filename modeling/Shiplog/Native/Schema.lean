import Shiplog.Native.Js

/-!
# The normalized event contract

`src/events/schema.ts`: the Zod schema every event passes before it is hashed and
stored. Each field of the schema is a partial function from the raw value; `parse`
collects the paths of the fields that reject theirs.
-/

namespace Shiplog

/-- The event kinds of the `EventType` enum. -/
inductive EventType where
  | commit
  | issue
  | pr
  | release
deriving DecidableEq, Repr

/-- The enum member's string. -/
def EventType.name : EventType → String
  | .commit => "commit"
  | .issue => "issue"
  | .pr => "pr"
  | .release => "release"

/-- A parsed event: `version` is a string and `occurredAt` a valid time value. -/
structure NormalizedEvent where
  source : String
  type : EventType
  externalId : String
  actor : String
  title : String
  url : String
  occurredAt : Int
  version : String
deriving DecidableEq, Repr

namespace NormalizedEventSchema

/-- `z.string().min(1)`. -/
def nonEmptyString : JsVal → Option String
  | .str s => if s = "" then none else some s
  | _ => none

/-- `z.string()`. -/
def string : JsVal → Option String
  | .str s => some s
  | _ => none

/-- `z.enum(['commit', 'issue', 'pr', 'release'])`. -/
def eventType : JsVal → Option EventType
  | .str s => [EventType.commit, .issue, .pr, .release].find? (fun t => t.name == s)
  | _ => none

/-- `z.url()`. -/
def url (rt : Runtime) : JsVal → Option String
  | .str s => rt.parseUrl s
  | _ => none

/-- `z.coerce.date()`: whatever `new Date(v)` makes of the value, if that is valid. -/
def coerceDate (rt : Runtime) (v : JsVal) : Option Int :=
  match newDate rt v with
  | .ok ms => ms
  | .error _ => none

/-- `z.union([z.string(), z.number()]).transform(String)`. -/
def version (rt : Runtime) : JsVal → Option String
  | .str s => some s
  -- `transform(String)` makes the number's text of it
  | .num q => some (rt.numToString q)
  | _ => none

/-- The error `parse` throws about the given field paths. -/
def zodError (rt : Runtime) (paths : List String) : JsVal :=
  .obj [("name", .str "ZodError"), ("message", .str (rt.zodMessage paths)),
    ("issues", .arr (paths.map JsVal.str)),
    ("stack", .str (rt.stackOf "ZodError" (rt.zodMessage paths)))]

/-- The paths of the fields whose check fails. -/
def issues (rt : Runtime) (input : JsVal) : List String :=
  [("source", (nonEmptyString (input.get "source")).isNone),
    ("type", (eventType (input.get "type")).isNone),
    ("externalId", (nonEmptyString (input.get "externalId")).isNone),
    ("actor", (nonEmptyString (input.get "actor")).isNone),
    ("title", (string (input.get "title")).isNone),
    ("url", (url rt (input.get "url")).isNone),
    ("occurredAt", (coerceDate rt (input.get "occurredAt")).isNone),
    ("version", (version rt (input.get "version")).isNone)].filterMap
      fun (path, failed) => if failed then some path else none

/-- `NormalizedEventSchema.parse(input)`. -/
def parse (rt : Runtime) (input : JsVal) : Except JsVal NormalizedEvent :=
  match input with
  -- a `Date` counts as an object, one without any of the fields
  | .obj _ | .date _ =>
    match nonEmptyString (input.get "source"), eventType (input.get "type"),
      nonEmptyString (input.get "externalId"), nonEmptyString (input.get "actor"),
      string (input.get "title"), url rt (input.get "url"),
      coerceDate rt (input.get "occurredAt"), version rt (input.get "version") with
    | some source, some type, some externalId, some actor, some title, some url,
      some occurredAt, some version =>
      .ok { source, type, externalId, actor, title, url, occurredAt, version }
    | _, _, _, _, _, _, _, _ => .error (zodError rt (issues rt input))
  | _ => .error (zodError rt [""])

end NormalizedEventSchema

end Shiplog
