import Shiplog.Native.Models

/-!
# GitHub records to normalized events

`src/normalize/github.ts`: one mapper per GitHub model. A mapper builds the raw object
the schema parses later, so a missing provider field surfaces as `undefined` there and
only the conversions themselves can throw here.
-/

namespace Shiplog

/-- The `switch (model)` of `normalizeGithubRecord`: the case a model name selects. -/
def githubCase : JsVal → Option EventType
  | .str s =>
    if s = "GithubIssue" ∨ s = "Issue" then some .issue
    else if s = "GithubPullRequest" then some .pr
    else if s = "GithubCommit" ∨ s = "Commit" then some .commit
    else none
  | _ => none

/-- `v.split('\n')[0]`; only strings have a `split`. -/
def firstLine (rt : Runtime) : JsVal → Except JsVal JsVal
  | .str s => .ok (.str (String.ofList (s.toList.takeWhile (· ≠ '\n'))))
  | _ => .error (mkError rt "TypeError" "split is not a function")

/-- The object literal every case returns. -/
def eventInput (type : EventType) (externalId : String) (actor title url : JsVal)
    (occurredAt : Option Int) (version : JsVal) : JsVal :=
  .obj [("source", .str "github"), ("type", .str type.name), ("externalId", .str externalId),
    ("actor", actor), ("title", title), ("url", url), ("occurredAt", .date occurredAt),
    ("version", version)]

/-- The `GithubIssue` / `Issue` case. -/
def normalizeIssue (rt : Runtime) (r : NangoRecord) : Except JsVal JsVal := do
  -- a template string: a missing number prints as `undefined`
  let number ← (r.get "number").toStr rt
  let occurredAt ← newDate rt (r.get "created_at")
  return eventInput .issue ("issue:" ++ number)
    ((r.get "user_login").coalesce (((r.get "user").get "login").coalesce (.str "unknown")))
    (r.get "title") (r.get "html_url") occurredAt (r.get "updated_at")

/-- The `GithubPullRequest` case. -/
def normalizePullRequest (rt : Runtime) (r : NangoRecord) : Except JsVal JsVal := do
  let number ← (r.get "number").toStr rt
  let occurredAt ← newDate rt (r.get "created_at")
  -- no `user_login` here
  return eventInput .pr ("pr:" ++ number)
    (((r.get "user").get "login").coalesce (.str "unknown"))
    (r.get "title") (r.get "html_url") occurredAt (r.get "updated_at")

/-- The `GithubCommit` / `Commit` case. -/
def normalizeCommit (rt : Runtime) (r : NangoRecord) : Except JsVal JsVal := do
  let sha ← (r.get "sha").toStr rt
  -- a message that is no string has no `split`, and the mapper throws
  let title ← firstLine rt
    ((r.get "message").coalesce (((r.get "commit").get "message").coalesce (.str "")))
  let occurredAt ← newDate rt
    ((r.get "author_date").coalesce (((r.get "commit").get "author").get "date"))
  return eventInput .commit ("commit:" ++ sha)
    ((r.get "author_login").coalesce (((r.get "author").get "login").coalesce
      ((r.get "author_name").coalesce (.str "unknown"))))
    title (r.get "html_url") occurredAt (r.get "sha")

/-- `record?._nango_metadata?.model`. -/
def modelOf : Option NangoRecord → JsVal
  | some record => (record.get "_nango_metadata").get "model"
  | none => .undefined

/-- `normalizeGithubRecord(record)`. -/
def normalizeGithubRecord (rt : Runtime) (record : Option NangoRecord) : Except JsVal JsVal :=
  match githubCase (modelOf record), record with
  | some .issue, some r => normalizeIssue rt r
  | some .pr, some r => normalizePullRequest rt r
  | some .commit, some r => normalizeCommit rt r
  -- the `default` case
  | _, _ => do
    let model ← (modelOf record).toStr rt
    throw (mkError rt "Error" ("Unknown Nango model: " ++ model))

end Shiplog
