import Shiplog.Spec.IngestCorrect

/-!
# Re-ingesting an event

An event is answered `'unchanged'` for one of two reasons: its own key is stored, or the
latest row of its entity has its content. Only the first lasts. `Strands` is the step that
takes the second away: another version becomes the latest row, with other content, while
the key of the event is still free.

## Key results

- `appends_of_strands` / `not_appends_of_not_strands`: what one appended row does to an
  event that was a no-op before
- `reingest_noOp_iff`: in every run of ingests, all events seen so far stay no-ops in every
  state reached exactly when no step strands one of them
-/

namespace Shiplog

namespace IngestCall

/-- Ingesting `x` becomes the latest row of `c`'s entity, with new content, although `c`
    has left no row under its own key. -/
def Strands (c x : IngestCall) (spine : Spine) : Prop :=
  x.appends spine = true ∧ (∀ l ∈ x.latest spine, l.occurredAt ≤ x.ev.occurredAt) ∧
    c.sameEntity x.row = true ∧ c.keyTaken spine = false ∧ x.idemKey ≠ c.idemKey

/-- A stranded call is no longer a no-op. -/
theorem appends_of_strands {c x : IngestCall} {spine : Spine} (hno : c.appends spine = false)
    (h : c.Strands x spine) : c.appends (spine ++ [x.row]) = true := by
  obtain ⟨happ, hlatest, hent, hfree, hkey⟩ := h
  -- the key of `c` is free, so its content was the latest one
  obtain ⟨r, hr, hhash⟩ : ∃ r, c.latest spine = some r ∧ r.contentHash = c.cHash := by
    cases appends_eq_false.mp hno with
    | inl htaken =>
      rw [hfree] at htaken
      exact nomatch htaken
    | inr hsame => exact hsame
  have hx : r.contentHash ≠ x.cHash :=
    (appends_eq_true.mp happ).2 r (by rw [← latest_congr hent, hr])
  refine appends_eq_true.mpr ⟨?_, fun l hl => ?_⟩
  · rw [keyTaken_append, hfree, Bool.false_or]
    exact decide_eq_false hkey
  · rw [latest_append_of_le hent (fun l hl => hlatest l (by rwa [← latest_congr hent]))] at hl
    rw [← Option.some.inj hl, ← hhash]
    exact hx.symm

/-- A call that is not stranded stays a no-op. -/
theorem not_appends_of_not_strands {c x : IngestCall} {spine : Spine}
    (hno : c.appends spine = false) (happ : x.appends spine = true) (h : ¬ c.Strands x spine) :
    c.appends (spine ++ [x.row]) = false := by
  rw [appends_eq_false, keyTaken_append, Bool.or_eq_true, decide_eq_true_eq]
  by_cases htaken : c.keyTaken spine = true
  · exact Or.inl (Or.inl htaken)
  rw [Bool.not_eq_true] at htaken
  by_cases hkey : x.idemKey = c.idemKey
  · exact Or.inl (Or.inr hkey)
  obtain ⟨r, hr, hhash⟩ : ∃ r, c.latest spine = some r ∧ r.contentHash = c.cHash := by
    cases appends_eq_false.mp hno with
    | inl hk =>
      rw [htaken] at hk
      exact nomatch hk
    | inr hsame => exact hsame
  right
  by_cases hent : c.sameEntity x.row = true
  · -- same entity: the new row is older than the latest one
    have hlt : x.ev.occurredAt < r.occurredAt := by
      rw [← not_le]
      intro hle
      refine h ⟨happ, fun l hl => ?_, hent, htaken, hkey⟩
      rw [← latest_congr hent, hr, Option.mem_some_iff] at hl
      exact hl ▸ hle
    exact ⟨r, latest_append_of_lt hr hlt, hhash⟩
  · exact ⟨r, by rw [latest_append_of_ne (by simpa using hent), hr], hhash⟩

/-- After its own ingest a call is a no-op. -/
private theorem not_appends_self (c : IngestCall) (spine : Spine) :
    c.appends (if c.appends spine then spine ++ [c.row] else spine) = false := by
  split
  · rw [appends_eq_false, keyTaken_append]
    left
    simp [row]
  · next h => simpa using h

end IngestCall

section Run

variable {rt : Runtime} (tenantId : ObjectId)

open ValidInput (ingestAll NoOp)

/-- No step of the run strands an event ingested before it. -/
def NoneStranded (es : List (ValidInput rt)) : Prop :=
  ∀ pre x, pre ++ [x] <+: es → ∀ e ∈ pre,
    ¬ (e.call tenantId).Strands (x.call tenantId) (ingestAll tenantId pre [])

/-- In a run that strands nothing, everything ingested is a no-op. -/
private theorem noOp_of_noneStranded {es : List (ValidInput rt)} (h : NoneStranded tenantId es)
    (pre : List (ValidInput rt)) (hpre : pre <+: es) :
    ∀ e ∈ pre, NoOp tenantId e (ingestAll tenantId pre []) := by
  induction pre using List.reverseRecOn with
  | nil => exact fun e he => absurd he List.not_mem_nil
  | append_singleton pre x ih =>
    have hold := ih ((List.prefix_append _ _).trans hpre)
    intro e he
    rw [ValidInput.noOp_iff, ValidInput.ingestAll_concat]
    cases List.mem_append.mp he with
    | inl he =>
      have hno := ValidInput.noOp_iff.mp (hold e he)
      split
      · next happ => exact IngestCall.not_appends_of_not_strands hno happ (h pre x hpre e he)
      · exact hno
    | inr he =>
      rw [List.mem_singleton.mp he]
      exact IngestCall.not_appends_self _ _

/-- A batch of no-ops adds nothing, updates nothing and leaves the spine alone. -/
private theorem ingestNangoRecords_of_noOp {α : Type} (normalize : α → Except JsVal JsVal)
    (records : List α) (spine : Spine)
    (h : ∀ r ∈ records, ∀ input, normalize r = .ok input →
      ∀ ev, (hev : NormalizedEventSchema.parse rt input = .ok ev) →
        NoOp tenantId ⟨input, ev, hev⟩ spine) :
    let run := ingestNangoRecords rt normalize (some tenantId) records spine
    run.1.added = 0 ∧ run.1.updated = 0 ∧ run.2 = spine := by
  -- the fold goes on from any counts without added and updated events
  suffices ∀ counts, counts.added = 0 → counts.updated = 0 →
      let run := records.foldl
        (fun acc record => ingestRecord rt normalize (some tenantId) record acc.1 acc.2)
        (counts, spine)
      run.1.added = 0 ∧ run.1.updated = 0 ∧ run.2 = spine by
    exact this emptyCounts rfl rfl
  induction records with
  | nil => exact fun counts ha hu => ⟨ha, hu, rfl⟩
  | cons r records ih =>
    intro counts ha hu
    have hrest := ih (fun r' hr' => h r' (List.mem_cons_of_mem _ hr'))
    have hstep : (ingestRecord rt normalize (some tenantId) r counts spine).1.added = 0 ∧
        (ingestRecord rt normalize (some tenantId) r counts spine).1.updated = 0 ∧
        (ingestRecord rt normalize (some tenantId) r counts spine).2 = spine := by
      simp only [ingestRecord]
      cases hn : normalize r with
      | error err => exact ⟨ha, hu, rfl⟩
      | ok input =>
        -- an input the schema turns away counts as failed
        cases hev : NormalizedEventSchema.parse rt input with
        | error err => simp only [ingestEvent, IngestCall.prepare, hev]; exact ⟨ha, hu, trivial⟩
        | ok ev =>
          obtain ⟨key, hno⟩ := h r List.mem_cons_self input hn ev hev
          simp only at hno
          simp only [hno]
          exact ⟨ha, hu, trivial⟩
    have hfold := hrest _ hstep.1 hstep.2.1
    rw [List.foldl_cons]
    have hpair : (ingestRecord rt normalize (some tenantId) r counts spine) =
        ((ingestRecord rt normalize (some tenantId) r counts spine).1, spine) :=
      Prod.ext rfl hstep.2.2
    rw [hpair]
    exact hfold

/-- **Re-ingesting.** For a run of schema-valid inputs from the empty spine: in every state
    reached every input ingested so far is a no-op, if and only if no step strands one of
    them. In a run without such a step, a batch of records already ingested adds 0,
    updates 0 and leaves the spine as it was. -/
theorem reingest_noOp_iff (es : List (ValidInput rt)) :
    ((∀ pre, pre <+: es → ∀ e ∈ pre, NoOp tenantId e (ingestAll tenantId pre [])) ↔
      NoneStranded tenantId es) ∧
    (NoneStranded tenantId es → ∀ (normalize : NangoRecord → Except JsVal JsVal)
      (records : List NangoRecord),
      (∀ r ∈ records, ∀ input, normalize r = .ok input →
        ∀ ev, NormalizedEventSchema.parse rt input = .ok ev → ∃ e ∈ es, e.input = input) →
      let run := ingestNangoRecords rt normalize (some tenantId) records
        (ingestAll tenantId es [])
      run.1.added = 0 ∧ run.1.updated = 0 ∧ run.2 = ingestAll tenantId es []) := by
  refine ⟨⟨fun h pre x hpre e he hstrands => ?_, noOp_of_noneStranded tenantId⟩,
    fun h normalize records hrec => ?_⟩
  · -- the step that strands `e` makes it append again
    have hbefore := h pre ((List.prefix_append _ _).trans hpre) e he
    have hafter := h (pre ++ [x]) hpre e (List.mem_append_left _ he)
    rw [ValidInput.noOp_iff] at hbefore hafter
    rw [ValidInput.ingestAll_concat, if_pos hstrands.1,
      IngestCall.appends_of_strands hbefore hstrands] at hafter
    exact nomatch hafter
  · refine ingestNangoRecords_of_noOp tenantId normalize records _ fun r hr input hn ev hev => ?_
    obtain ⟨e, he, heq⟩ := hrec r hr input hn ev hev
    subst heq
    exact noOp_of_noneStranded tenantId h es (List.prefix_refl _) e he

end Run

/-- A version bump without a change of content, then a real update: the bump, answered
    `'unchanged'` the first time, is answered `'updated'` when it is delivered again. -/
theorem reingest_suppressed_version :
    ¬ ∀ (es : List (ValidInput plainRuntime)), ∀ e ∈ es,
      ValidInput.NoOp tenantA e (ValidInput.ingestAll tenantA es []) := by
  intro h
  have hno := h [issueVersion "v1" "A", issueVersion "v2" "A", issueVersion "v3" "B"]
    (issueVersion "v2" "A") (by simp)
  rw [ValidInput.noOp_iff] at hno
  revert hno
  decide +kernel

end Shiplog
