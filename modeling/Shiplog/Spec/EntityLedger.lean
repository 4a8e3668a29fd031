import Shiplog.ForStd.Ledger
import Shiplog.Spec.ContentFields
import Shiplog.Spec.EntityLocality
import Shiplog.Spec.JobLife

/-!
# The spine is a ledger

`ingestEvent` works with hashes: a key of the identifying fields, a hash of the semantic ones,
a unique index. What it is for needs none of them: keep, for each entity, its revisions, each
version once and no revision that says what the current one says. `Ledger` is that. For a hash
without collisions, and entities whose keys are not confused, every run of calls refines a run
of the ledger, call by call and entity by entity.

## Key results

- `isNews_iff_appends`: a call appends its row exactly if the ledger takes its revision for news
- `commit_refines`: one call
- `ingest_refines_ledger`: a run, with the calls that threw left out
-/

namespace Shiplog

/-- The event of this version with these fields. -/
def EventFields.event (fields : EventFields) (version : String) : NormalizedEvent where
  source := fields.source
  type := fields.type
  externalId := fields.externalId
  actor := fields.actor
  title := fields.title
  url := fields.url
  occurredAt := fields.occurredAt
  version := version

/-- The revision an event is of its entity. -/
def NormalizedEvent.revision (ev : NormalizedEvent) : Revision String EventFields :=
  ⟨ev.version, ev.content⟩

/-- The row a revision is stored as. -/
def Event.ofRevision (rt : Runtime) (t : ObjectId) (rev : Revision String EventFields) : Event :=
  (IngestCall.ofEvent rt t (rev.content.event rev.version)).row

/-- The ledger of the spine's entities. -/
abbrev EntityLedger := Ledger Entity String EventFields

/-- Hand in a revision of an entity; the current one is of the latest `occurredAt`. -/
noncomputable abbrev recordRevision (entry : Entity × Revision String EventFields)
    (ledger : EntityLedger) : Receipt × EntityLedger :=
  Ledger.record EventFields.occurredAt entry ledger

/-- The rows of each entity are its revisions, in their order. -/
def Represents (rt : Runtime) (spine : Spine) (ledger : EntityLedger) : Prop :=
  ∀ entity : Entity, spine.filter (fun r => r.entity = entity) =
    (ledger entity).map (Event.ofRevision rt entity.1)

/-- The status of an answer as the ledger's receipt. -/
def IngestStatus.receipt : IngestStatus → Receipt
  | .added => .first
  | .updated => .later
  | .unchanged => .known

section Call

variable {rt : Runtime} (hsha : Function.Injective rt.sha256Hex) {rows : List Event}
  (hapart : KeysApart rows) {spine : Spine} {ledger : EntityLedger} {t : ObjectId}
  {ev : NormalizedEvent}

private theorem version_ofRevision (rev : Revision String EventFields) :
    (Event.ofRevision rt t rev).version = rev.version := rfl

/-- The latest row of an entity is its current revision. -/
theorem latest_eq_current (hledger : Represents rt spine ledger) :
    (IngestCall.ofEvent rt t ev).latest spine =
      (Ledger.current EventFields.occurredAt
        (ledger (IngestCall.ofEvent rt t ev).row.entity)).map (Event.ofRevision rt t) := by
  have hfilter : spine.filter (IngestCall.ofEvent rt t ev).sameEntity =
      spine.filter fun r => r.entity = (IngestCall.ofEvent rt t ev).row.entity := by
    apply List.filter_congr
    intro r _
    rw [Bool.eq_iff_iff, IngestCall.sameEntity_iff, decide_eq_true_iff]
  rw [IngestCall.latest, hfilter, hledger, ← List.map_reverse, List.argmax_map]
  rfl

include hsha hapart in
/-- A call's key is taken exactly if its entity has a revision of its version. -/
theorem keyTaken_iff_version (hspine : SpineOf rt rows spine) (hledger : Represents rt spine ledger)
    (hrow : (IngestCall.ofEvent rt t ev).row ∈ rows) :
    (IngestCall.ofEvent rt t ev).keyTaken spine = true ↔
      ∃ old ∈ ledger (IngestCall.ofEvent rt t ev).row.entity, old.version = ev.version := by
  rw [IngestCall.keyTaken_iff]
  constructor
  · rintro ⟨r, hr, hkey⟩
    have hid := versionId_of_key hsha hapart hspine rfl hrow hr hkey
    have hmem : r ∈ spine.filter fun r => r.entity = (IngestCall.ofEvent rt t ev).row.entity :=
      List.mem_filter.mpr ⟨hr, decide_eq_true (Event.entity_of_versionId hid)⟩
    rw [hledger] at hmem
    obtain ⟨old, hold, rfl⟩ := List.mem_map.mp hmem
    simp only [Event.versionId, Prod.mk.injEq] at hid
    exact ⟨old, hold, hid.2.2.2⟩
  · rintro ⟨old, hold, hversion⟩
    have hmem : Event.ofRevision rt t old ∈
        spine.filter fun r => r.entity = (IngestCall.ofEvent rt t ev).row.entity := by
      rw [hledger]
      exact List.mem_map_of_mem hold
    obtain ⟨hr, hentity⟩ := List.mem_filter.mp hmem
    simp only [decide_eq_true_eq, Event.entity, Prod.mk.injEq] at hentity
    refine ⟨_, hr, ?_⟩
    rw [hspine.1 _ hr, Event.ownKey, hentity.2.1, hentity.2.2, version_ofRevision, hversion]
    rfl

include hsha hapart in
/-- A call appends its row exactly if the ledger takes its revision for news. -/
private theorem appends_iff_isNews (hspine : SpineOf rt rows spine)
    (hledger : Represents rt spine ledger) (hrow : (IngestCall.ofEvent rt t ev).row ∈ rows) :
    (IngestCall.ofEvent rt t ev).appends spine = true ↔
      Ledger.IsNews EventFields.occurredAt (ledger (IngestCall.ofEvent rt t ev).row.entity)
        ev.revision := by
  rw [IngestCall.appends_eq_true, latest_eq_current hledger, ← Bool.not_eq_true,
    keyTaken_iff_version hsha hapart hspine hledger hrow]
  -- one content hash is one content
  have hhash : ∀ cur : Revision String EventFields, (Event.ofRevision rt t cur).contentHash =
      (IngestCall.ofEvent rt t ev).cHash ↔ cur.content = ev.content :=
    fun cur => eventHash_eq_iff hsha
  constructor
  · rintro ⟨hversion, hcontent⟩
    refine ⟨fun old hold hv => hversion ⟨old, hold, hv⟩, fun cur hcur => ?_⟩
    have hne := hcontent _ (Option.map_eq_some_iff.mpr ⟨cur, hcur, rfl⟩)
    rwa [Ne, hhash] at hne
  · rintro ⟨hversion, hcontent⟩
    refine ⟨fun ⟨old, hold, hv⟩ => hversion old hold hv, fun r hr => ?_⟩
    obtain ⟨cur, hcur, rfl⟩ := Option.map_eq_some_iff.mp hr
    rw [Ne, hhash]
    exact hcontent cur hcur

/-- A call finds no latest row exactly if its entity has no revision. -/
private theorem latest_eq_none_iff (hledger : Represents rt spine ledger) :
    (IngestCall.ofEvent rt t ev).latest spine = none ↔
      ledger (IngestCall.ofEvent rt t ev).row.entity = [] := by
  rw [latest_eq_current hledger, Option.map_eq_none_iff, Ledger.current, List.argmax_eq_none,
    List.reverse_eq_nil_iff]

/-- Appending a call's row is appending its revision. -/
theorem Represents.append (hledger : Represents rt spine ledger) :
    Represents rt (spine ++ [(IngestCall.ofEvent rt t ev).row])
      (Function.update ledger (IngestCall.ofEvent rt t ev).row.entity
        (ledger (IngestCall.ofEvent rt t ev).row.entity ++ [ev.revision])) := by
  intro entity
  rw [List.filter_append, hledger]
  by_cases h : (IngestCall.ofEvent rt t ev).row.entity = entity
  · subst h
    have hself : [(IngestCall.ofEvent rt t ev).row].filter
        (fun r => r.entity = (IngestCall.ofEvent rt t ev).row.entity) =
          [(IngestCall.ofEvent rt t ev).row] :=
      List.filter_eq_self.mpr (List.forall_mem_singleton.mpr (decide_eq_true rfl))
    rw [Function.update_self, List.map_append, hself]
    rfl
  · rw [Function.update_of_ne (Ne.symm h), List.filter_cons_of_neg (by simpa using h),
      List.filter_nil, List.append_nil]

include hsha hapart in
/-- **One call refines one entry of the ledger**: same receipt, and the spine represents the
    ledger afterwards. -/
theorem commit_refines (hspine : SpineOf rt rows spine) (hledger : Represents rt spine ledger)
    (hrow : (IngestCall.ofEvent rt t ev).row ∈ rows) :
    (recordRevision ((IngestCall.ofEvent rt t ev).row.entity, ev.revision) ledger).1 =
        ((IngestCall.ofEvent rt t ev).statusIn spine).receipt ∧
      Represents rt ((IngestCall.ofEvent rt t ev).commit noFaults spine).2
        (recordRevision ((IngestCall.ofEvent rt t ev).row.entity, ev.revision) ledger).2 := by
  -- the spine appends exactly when the ledger has news
  have hnews := @appends_iff_isNews rt hsha rows hapart spine ledger t ev hspine hledger hrow
  have hadded := @IngestCall.statusIn_added_iff (IngestCall.ofEvent rt t ev) spine
  rw [latest_eq_none_iff hledger] at hadded
  rw [IngestCall.commit_noFaults]
  cases happ : (IngestCall.ofEvent rt t ev).appends spine with
  | false =>
    have hold := mt hnews.mpr (by rw [happ]; exact Bool.false_ne_true)
    rw [recordRevision, Ledger.record_of_not_isNews hold, IngestCall.statusIn_of_not_appends happ]
    exact ⟨rfl, hledger⟩
  | true =>
    rw [recordRevision, Ledger.record_of_isNews (hnews.mp happ)]
    refine ⟨?_, hledger.append⟩
    have hfree := (IngestCall.appends_eq_true.mp happ).1
    have hchange := IngestCall.statusIn_of_appends happ
    -- `added` or `updated`, by whether the entity has been heard of
    by_cases hfirst : ledger (IngestCall.ofEvent rt t ev).row.entity = []
    · rw [if_pos hfirst, hadded.mpr ⟨hfree, hfirst⟩]
      rfl
    · rw [if_neg hfirst]
      cases hstatus : (IngestCall.ofEvent rt t ev).statusIn spine with
      | added => exact absurd (hadded.mp hstatus).2 hfirst
      | updated => rfl
      | unchanged => exact absurd hstatus hchange

end Call

/-! ## Runs -/

/-- The entry of the ledger that a call and its answer stand for: none if it threw. -/
def IngestAttempt.reading (rt : Runtime) (x : IngestAttempt × Except JsVal IngestResult) :
    Option ((Entity × Revision String EventFields) × Receipt) :=
  match x.1.call? rt, x.2 with
  | some c, .ok res => some ((c.row.entity, c.ev.revision), res.status.receipt)
  | _, _ => none

section Runs

variable {rt : Runtime} {a : IngestAttempt}

private theorem reading_of_call {c : IngestCall} (hc : a.call? rt = some c)
    (answer : Except JsVal IngestResult) :
    IngestAttempt.reading rt (a, answer) =
      answer.toOption.map fun res => ((c.row.entity, c.ev.revision), res.status.receipt) := by
  unfold IngestAttempt.reading
  simp only [hc]
  cases answer <;> rfl

/-- What a call and its answer come to: it threw and did nothing, or nothing disturbed it. -/
private theorem perform_cases {c : IngestCall} (hc : a.call? rt = some c)
    (hdup : ∀ err, a.faults .updateOne = some err → isDuplicateKey err = false) (spine : Spine) :
    (∃ err, a.perform rt spine = (.error err, spine)) ∨
      a.perform rt spine = c.commit noFaults spine := by
  rw [IngestAttempt.perform_of_call hc]
  have hnone : ∀ err, a.faults .updateOne = some err → isDuplicateKey err = true →
      c.keyTaken spine = true := by
    intro err herr hdupe
    rw [hdup err herr] at hdupe
    cases hdupe
  rcases IngestCall.commit_cases hnone with ⟨op, err, -, h⟩ | h
  · exact Or.inl ⟨err, h⟩
  · exact Or.inr h

/-- Calls refine the ledger. -/
private theorem perform_refines (hsha : Function.Injective rt.sha256Hex)
    (attempts : List IngestAttempt) {rows : List Event} (hapart : KeysApart rows)
    (hrows : ∀ r ∈ rowsOfAttempts rt attempts, r ∈ rows)
    (hdup : ∀ a ∈ attempts, ∀ err, a.faults .updateOne = some err → isDuplicateKey err = false) :
    Commands.Refines (IngestAttempt.perform rt) recordRevision attempts
      (fun spine ledger => SpineOf rt rows spine ∧ Represents rt spine ledger)
      (IngestAttempt.reading rt) where
  silent a ha spine ledger := by
    rintro ⟨hspine, hledger⟩ hread
    refine ⟨perform_spineOf hrows ha hspine, ?_⟩
    -- an attempt that answers nothing has no call or met a fault, and wrote nothing
    cases hc : a.call? rt with
    | none =>
      obtain ⟨err, herr⟩ := IngestAttempt.perform_of_none hc
      rw [herr]
      exact hledger
    | some c =>
      rcases perform_cases hc (hdup a ha) spine with ⟨err, h⟩ | h
      · rw [h]
        exact hledger
      · rw [reading_of_call hc, h, IngestCall.commit_noFaults] at hread
        cases hread
  matched a ha spine ledger := by
    rintro ⟨hspine, hledger⟩ entry receipt hread
    -- an answer comes from a call that went through: one entry of the ledger
    cases hc : a.call? rt with
    | none =>
      simp only [IngestAttempt.reading, hc, reduceCtorEq] at hread
    | some c =>
      rcases perform_cases hc (hdup a ha) spine with ⟨err, h⟩ | h
      · rw [reading_of_call hc, h] at hread
        cases hread
      · obtain ⟨t, ev, rfl⟩ := IngestAttempt.call_ofEvent hc
        obtain ⟨hreceipt, hafter⟩ :=
          commit_refines hsha hapart hspine hledger (hrows _ (mem_rowsOfAttempts ha hc))
        rw [reading_of_call hc, h, IngestCall.commit_noFaults] at hread
        cases hread
        exact ⟨hreceipt, perform_spineOf hrows ha hspine, h ▸ hafter⟩

end Runs

/-- **The spine refines a ledger.** Take a hash without collisions and any calls one after
    another from an empty spine, any store operations of which throw (E11000 apart, which only
    a race brings), no two of the calls having one `source|externalId|version` text cut
    differently. The calls that returned are entries of the ledger in their order, each with the
    receipt of its answer; the others threw; and the rows of every entity in the end are its
    revisions in the ledger. -/
theorem ingest_refines_ledger {rt : Runtime} (hsha : Function.Injective rt.sha256Hex)
    (attempts : List IngestAttempt) (hapart : KeysApart (rowsOfAttempts rt attempts))
    (hdup : ∀ a ∈ attempts, ∀ err, a.faults .updateOne = some err → isDuplicateKey err = false) :
    let run := ingestEvents rt attempts []
    let entries := run.1.filterMap (IngestAttempt.reading rt)
    let ledger := Commands.run recordRevision (entries.map Prod.fst) fun _ => []
    ledger.1 = entries ∧ Represents rt run.2 ledger.2 ∧
      ∀ x ∈ run.1, IngestAttempt.reading rt x = none → ∃ err, x.2 = .error err := by
  intro run entries ledger
  have hstart : SpineOf rt (rowsOfAttempts rt attempts) [] ∧ Represents rt [] fun _ => [] :=
    ⟨⟨fun r hr => absurd hr List.not_mem_nil, fun r hr => absurd hr List.not_mem_nil⟩,
      fun _ => rfl⟩
  obtain ⟨hanswers, -, hledger⟩ :=
    (perform_refines hsha attempts hapart (fun r hr => hr) hdup).run hstart
  refine ⟨hanswers, hledger, ?_⟩
  intro x hx hread
  -- the answer is that of one attempt, at the spine it found
  obtain ⟨hmem, spine, hanswer⟩ := Commands.answer_of_mem_run hx
  cases hc : x.1.call? rt with
  | none =>
    obtain ⟨err, herr⟩ := IngestAttempt.perform_of_none hc
    exact ⟨err, by rw [hanswer, herr]⟩
  | some c =>
    rcases perform_cases hc (hdup x.1 hmem) spine with ⟨err, h⟩ | h
    · exact ⟨err, by rw [hanswer, h]⟩
    · have hok : x.2 = .ok (c.result (c.statusIn spine)) := by
        rw [hanswer, h, IngestCall.commit_noFaults]
      obtain ⟨a, answer⟩ := x
      rw [reading_of_call hc, show answer = _ from hok] at hread
      cases hread

private theorem mixedAttempts_noDuplicateKey : ∀ a ∈ mixedAttempts, ∀ err,
    a.faults .updateOne = some err → isDuplicateKey err = false := by
  intro a ha err herr
  simp only [mixedAttempts, List.mem_cons, List.not_mem_nil, or_false] at ha
  rcases ha with rfl | rfl | rfl | rfl
  all_goals cases herr

/-- Two tenants, a failed call and a version bump: the ledger's receipts. -/
theorem ingest_refines_ledger_mixed :
    (ingestEvents plainRuntime mixedAttempts []).1.filterMap
        (fun x => (IngestAttempt.reading plainRuntime x).map Prod.snd) = [.first, .first, .later] ∧
      ∃ ledger : EntityLedger, Represents plainRuntime
        (ingestEvents plainRuntime mixedAttempts []).2 ledger := by
  have h := @ingest_refines_ledger plainRuntime Function.injective_id mixedAttempts
    mixedAttempts_apart mixedAttempts_noDuplicateKey
  exact ⟨by decide +kernel, _, h.2.1⟩

end Shiplog
