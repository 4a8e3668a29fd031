import Shiplog.ForStd.Walk
import Shiplog.Spec.DeliveryLoops

/-!
# Termination of the page loops

Both delivery processors follow the tokens of the records API from one requested cursor to
the next. The reconcile processor stops at an empty page and at a token that does not
advance, the sync processor only where there is no token. Each loop follows a walk along the
requested cursors (`NangoSyncRun.follows`, `ReconcileRun.follows`); over finitely many
tokens it returns exactly if it requests no cursor twice.

## Key results

- `page_loops_return_iff`: when each of the two processors returns
- `page_loops_spin`: a cycle of two tokens, which neither leaves
-/

namespace Shiplog

/-- The cursor the sync processor requests after a page, if any. -/
def NangoSyncRun.request (page : Page) : Option (Option String) :=
  match page.nextCursor with
  | none => none
  | some token => if token = "" then none else some (some token)

/-- The cursor the reconcile processor requests after the page at `pageCursor`, if any. -/
def ReconcileRun.request (pageCursor : Option String) (page : Page) : Option (Option String) :=
  if page.records.isEmpty then none
  else
    match page.nextCursor with
    | none => none
    | some token => if token = "" ∨ some token = pageCursor then none else some (some token)

/-- The page loop of the sync processor over an API that lists pages. -/
def NangoSyncRun.advance (list : Option String → Page) (cursor : Option String) :
    Option (Option String) :=
  NangoSyncRun.request (list cursor)

/-- The page loop of the reconcile processor. -/
def ReconcileRun.advance (list : Option String → Page) (pageCursor : Option String) :
    Option (Option String) :=
  ReconcileRun.request pageCursor (list pageCursor)

/-- The run is about to request the page at `cursor`. -/
def NangoSyncRun.Requests (sync : NangoSyncJobData) (cursor : Option String)
    (st : NangoSyncRun × DeliveryStore) : Prop :=
  ∃ m n, st.1 = .fetch sync ⟨cursor, m, n⟩

def ReconcileRun.Requests (job : ReconcileJobData) (pageCursor : Option String)
    (st : ReconcileRun × DeliveryStore) : Prop :=
  ∃ m n cursor, st.1 = .fetch job ⟨m, n, cursor, pageCursor⟩

/-- The run has returned its result. -/
def NangoSyncRun.Returned (st : NangoSyncRun × DeliveryStore) : Prop :=
  ∃ result, st.1 = .finished (some result)

def ReconcileRun.Returned (st : ReconcileRun × DeliveryStore) : Prop :=
  ∃ result, st.1 = .finished (some result)

/-! ## Both loops follow the tokens -/

section Loops

variable {rt : Runtime} {nango : NangoListParams → Page}

/-- Behind the last record the sync processor returns or requests the next page. -/
private theorem NangoSyncRun.turn_nil (sync : NangoSyncJobData) (vars : NangoSyncVars)
    (page : Page) :
    NangoSyncRun.turn sync vars page [] =
      match NangoSyncRun.request page with
      | none => .finished (some ⟨vars.fetched, vars.enqueued⟩)
      | some cursor => .fetch sync { vars with cursor } := by
  unfold NangoSyncRun.turn NangoSyncRun.request
  cases page.nextCursor with
  | none => rfl
  | some token =>
    show (if token = "" then _ else _) = _
    by_cases hempty : token = ""
    · simp only [hempty, if_true]
    · simp only [hempty, if_false]

/-- The sync processor follows the tokens. -/
theorem NangoSyncRun.follows (sync : NangoSyncJobData)
    (hlands : ∀ cursor, Lands rt sync.target (nango (sync.listParams cursor)).records) :
    Walk.Follows (NangoSyncRun.advance fun cursor => nango (sync.listParams cursor))
      (fun st => st.1.next rt nango st.2) (NangoSyncRun.Requests sync) NangoSyncRun.Returned where
  stay := by
    intro ⟨run, s⟩ ⟨result, hresult⟩
    cases hresult
    exact ⟨result, rfl⟩
  busy := by
    intro cursor ⟨run, s⟩ ⟨m, n, hfetch⟩ ⟨result, hresult⟩
    cases hfetch
    cases hresult
  stop := by
    intro cursor ⟨run, s⟩ ⟨m, n, hfetch⟩ hstop
    cases hfetch
    -- one more call fetches the page, and its records are delivered first
    obtain ⟨k, hk, -⟩ := NangoSyncRun.emits_records nango (hlands cursor) cursor m n s
    have hend : NangoSyncRun.request (nango (sync.listParams cursor)) = none := hstop
    rw [NangoSyncRun.turn_nil, hend] at hk
    exact ⟨k + 1, _, congrArg Prod.fst hk⟩
  go := by
    intro cursor ⟨run, s⟩ cursor' ⟨m, n, hfetch⟩ hgo
    cases hfetch
    obtain ⟨k, hk, -⟩ := NangoSyncRun.emits_records nango (hlands cursor) cursor m n s
    have hnext : NangoSyncRun.request (nango (sync.listParams cursor)) = some cursor' := hgo
    rw [NangoSyncRun.turn_nil, hnext] at hk
    exact ⟨k, _, _, congrArg Prod.fst hk⟩

/-- A page that is not empty is checkpointed, and the reconcile processor returns or requests
    the next page. -/
private theorem ReconcileRun.next_checkpoint (job : ReconcileJobData) (vars : ReconcileVars)
    {page : Page} (hne : page.records ≠ []) (s : DeliveryStore) :
    ((ReconcileRun.checkpoint job vars page).next rt nango s).1 =
      match ReconcileRun.request vars.pageCursor page with
      | none => .finished (some ⟨vars.fetched, vars.enqueued, checkpointCursor vars page⟩)
      | some pageCursor =>
        .fetch job { vars with cursor := checkpointCursor vars page, pageCursor } := by
  have hlive : page.records.isEmpty = false := by simpa using hne
  cases htoken : page.nextCursor with
  | none =>
    simp only [ReconcileRun.next, ReconcileRun.request, hlive, htoken, Bool.false_eq_true, if_false]
  | some token =>
    by_cases hstop : token = "" ∨ some token = vars.pageCursor
    · simp only [ReconcileRun.next, ReconcileRun.request, hlive, htoken, hstop, Bool.false_eq_true,
        if_false, if_true]
    · simp only [ReconcileRun.next, ReconcileRun.request, hlive, htoken, hstop, Bool.false_eq_true,
        if_false]

/-- Past a page that is not empty the reconcile processor returns or requests the next page. -/
private theorem ReconcileRun.reaches_request {job : ReconcileJobData} {pageCursor : Option String}
    (hne : (nango (job.listParams pageCursor)).records ≠ [])
    (hlands : Lands rt job.target (nango (job.listParams pageCursor)).records) (m n : ℕ)
    (cursor : Option String) (s : DeliveryStore) :
    ∃ k m' n' cursor',
      ((fun st : ReconcileRun × DeliveryStore => st.1.next rt nango st.2)^[k + 1]
          (.fetch job ⟨m, n, cursor, pageCursor⟩, s)).1 =
        match ReconcileRun.request pageCursor (nango (job.listParams pageCursor)) with
        | none => .finished (some ⟨m', n', cursor'⟩)
        | some pageCursor => .fetch job ⟨m', n', cursor', pageCursor⟩ := by
  have hfetch := @ReconcileRun.next_fetch rt nango job _ pageCursor rfl hne cursor m n s
  obtain ⟨k, hk, -⟩ := ReconcileRun.emits_records nango hlands cursor pageCursor m n s
  generalize (nango (job.listParams pageCursor)) = page at hne hfetch hk ⊢
  -- the fetch, the record loop, and the checkpoint
  refine ⟨k + 1, m + page.records.length, n + (liveOf page.records).length,
    ReconcileRun.checkpointCursor ⟨m + page.records.length, n + (liveOf page.records).length,
      cursor, pageCursor⟩ page, ?_⟩
  rw [Function.iterate_succ_apply', Function.iterate_succ_apply, hfetch, hk]
  exact ReconcileRun.next_checkpoint job ⟨_, _, cursor, pageCursor⟩ hne _

/-- The reconcile processor follows the tokens up to its guards. -/
theorem ReconcileRun.follows (job : ReconcileJobData)
    (hlands : ∀ cursor, Lands rt job.target (nango (job.listParams cursor)).records) :
    Walk.Follows (ReconcileRun.advance fun cursor => nango (job.listParams cursor))
      (fun st => st.1.next rt nango st.2) (ReconcileRun.Requests job) ReconcileRun.Returned where
  stay := by
    intro ⟨run, s⟩ ⟨result, hresult⟩
    cases hresult
    exact ⟨result, rfl⟩
  busy := by
    intro cursor ⟨run, s⟩ ⟨m, n, c, hfetch⟩ ⟨result, hresult⟩
    cases hfetch
    cases hresult
  stop := by
    intro pageCursor ⟨run, s⟩ ⟨m, n, cursor, hfetch⟩ hstop
    cases hfetch
    have hend : ReconcileRun.request pageCursor (nango (job.listParams pageCursor)) = none := hstop
    by_cases hempty : (nango (job.listParams pageCursor)).records = []
    · -- an empty page ends the run
      refine ⟨1, ⟨m, n, cursor⟩, ?_⟩
      show ((ReconcileRun.fetch job ⟨m, n, cursor, pageCursor⟩).next rt nango s).1 = _
      simp only [ReconcileRun.next, hempty, List.isEmpty_nil, if_true]
    · -- its records are delivered before its token is compared with the cursor
      obtain ⟨k, m', n', cursor', hk⟩ :=
        ReconcileRun.reaches_request hempty (hlands pageCursor) m n cursor s
      rw [hend] at hk
      exact ⟨k + 1, _, hk⟩
  go := by
    intro pageCursor ⟨run, s⟩ pageCursor' ⟨m, n, cursor, hfetch⟩ hgo
    cases hfetch
    have hnext : ReconcileRun.request pageCursor (nango (job.listParams pageCursor)) =
        some pageCursor' := hgo
    by_cases hempty : (nango (job.listParams pageCursor)).records = []
    · simp [ReconcileRun.request, hempty] at hnext
    · obtain ⟨k, m', n', cursor', hk⟩ :=
        ReconcileRun.reaches_request hempty (hlands pageCursor) m n cursor s
      rw [hnext] at hk
      exact ⟨k, m', n', cursor', hk⟩

/-- The sync processor returns exactly if its walk ends, which starts without a cursor. -/
private theorem NangoSyncRun.returns_iff_ends (sync : NangoSyncJobData)
    (hlands : ∀ cursor, Lands rt sync.target (nango (sync.listParams cursor)).records)
    (s : DeliveryStore) :
    (∃ n, Returned ((fun st : NangoSyncRun × DeliveryStore => st.1.next rt nango st.2)^[n]
        (.start sync, s))) ↔
      Walk.Ends (NangoSyncRun.advance fun cursor => nango (sync.listParams cursor)) none :=
  Walk.exists_halted_iff_ends (NangoSyncRun.follows sync hlands) ⟨0, 0, rfl⟩

/-- The reconcile processor returns exactly if its walk ends, which starts at the stored
    cursor. -/
private theorem ReconcileRun.returns_iff_ends (job : ReconcileJobData)
    (hlands : ∀ cursor, Lands rt job.target (nango (job.listParams cursor)).records)
    (s : DeliveryStore) :
    (∃ n, Returned ((fun st : ReconcileRun × DeliveryStore => st.1.next rt nango st.2)^[n]
        (.load job, s))) ↔
      Walk.Ends (ReconcileRun.advance fun cursor => nango (job.listParams cursor))
        (job.storedCursor s.syncStates) := by
  rw [← Walk.exists_halted_iff_ends (ReconcileRun.follows job hlands)
    (show Requests job _ ((ReconcileRun.load job).next rt nango s) from ⟨0, 0, _, rfl⟩)]
  -- the first call only loads the stored cursor
  constructor
  · intro ⟨n, hn⟩
    cases n with
    | zero =>
      obtain ⟨result, hresult⟩ := hn
      cases hresult
    | succ n => exact ⟨n, hn⟩
  · intro ⟨n, hn⟩
    exact ⟨n + 1, hn⟩

end Loops

/-! ## When they return -/

/-- A walk along tokens stays in a finite range if there are finitely many of them. -/
private theorem finite_range_of_tokens {list : Option String → Page}
    {advance : Option String → Option (Option String)}
    (hfinite : (Set.range fun cursor => (list cursor).nextCursor).Finite)
    (htoken : ∀ cursor, advance cursor = none ∨ advance cursor = some (list cursor).nextCursor) :
    (Set.range advance).Finite := by
  refine ((hfinite.image some).insert none).subset ?_
  rintro _ ⟨cursor, rfl⟩
  rcases htoken cursor with hnone | hsome
  · rw [hnone]
    exact Set.mem_insert _ _
  · rw [hsome]
    exact Set.mem_insert_of_mem _ ⟨_, ⟨cursor, rfl⟩, rfl⟩

private theorem NangoSyncRun.advance_token (list : Option String → Page) (cursor : Option String) :
    NangoSyncRun.advance list cursor = none ∨
      NangoSyncRun.advance list cursor = some (list cursor).nextCursor := by
  unfold NangoSyncRun.advance NangoSyncRun.request
  cases (list cursor).nextCursor with
  | none => exact Or.inl rfl
  | some token =>
    show (if token = "" then _ else _) = _ ∨ (if token = "" then _ else _) = _
    split
    · exact Or.inl rfl
    · exact Or.inr rfl

private theorem ReconcileRun.advance_token (list : Option String → Page) (cursor : Option String) :
    ReconcileRun.advance list cursor = none ∨
      ReconcileRun.advance list cursor = some (list cursor).nextCursor := by
  unfold ReconcileRun.advance ReconcileRun.request
  split
  · exact Or.inl rfl
  · split
    · exact Or.inl rfl
    · next token htoken =>
      split
      · exact Or.inl rfl
      · exact Or.inr (congrArg some htoken.symm)

/-- **When the page loops return.** Let the records API hand out finitely many tokens, and let
    every live record land. Then the sync processor returns exactly if, following the tokens
    from the first page, it requests no cursor twice; and the reconcile processor exactly if,
    following them from its stored cursor up to an empty page or a token that does not advance,
    it requests none twice. -/
theorem page_loops_return_iff (rt : Runtime) (nango : NangoListParams → Page)
    (sync : NangoSyncJobData) (job : ReconcileJobData)
    (hsync : (Set.range fun cursor => (nango (sync.listParams cursor)).nextCursor).Finite)
    (hjob : (Set.range fun cursor => (nango (job.listParams cursor)).nextCursor).Finite)
    (hsyncLands : ∀ cursor, Lands rt sync.target (nango (sync.listParams cursor)).records)
    (hjobLands : ∀ cursor, Lands rt job.target (nango (job.listParams cursor)).records)
    (s : DeliveryStore) :
    ((∃ n, NangoSyncRun.Returned
        ((fun st : NangoSyncRun × DeliveryStore => st.1.next rt nango st.2)^[n] (.start sync, s))) ↔
      ¬ Walk.Revisits (NangoSyncRun.advance fun cursor => nango (sync.listParams cursor)) none) ∧
    ((∃ n, ReconcileRun.Returned
        ((fun st : ReconcileRun × DeliveryStore => st.1.next rt nango st.2)^[n] (.load job, s))) ↔
      ¬ Walk.Revisits (ReconcileRun.advance fun cursor => nango (job.listParams cursor))
        (job.storedCursor s.syncStates)) := by
  have hsyncRange := finite_range_of_tokens hsync (NangoSyncRun.advance_token _)
  have hjobRange := finite_range_of_tokens hjob (ReconcileRun.advance_token _)
  rw [← Walk.ends_iff_not_revisits hsyncRange, ← Walk.ends_iff_not_revisits hjobRange]
  exact ⟨NangoSyncRun.returns_iff_ends sync hsyncLands s,
    ReconcileRun.returns_iff_ends job hjobLands s⟩

/-! ## Two tokens -/

/-- A function with two values has a finite range. -/
private theorem finite_range_of_two {β : Type} {f : β → Option String} {a b : Option String}
    (h : ∀ x, f x = a ∨ f x = b) : (Set.range f).Finite := by
  refine (Set.toFinite {a, b}).subset ?_
  rintro _ ⟨x, rfl⟩
  exact h x

private theorem mixedApi_token (params : NangoListParams) :
    (mixedApi params).nextCursor = none ∨ (mixedApi params).nextCursor = some "p2" := by
  unfold mixedApi
  split
  · exact Or.inl rfl
  · exact Or.inr rfl

private theorem lands_mixedApi (params : NangoListParams) :
    Lands plainRuntime issueReconcile.target (mixedApi params).records := by
  unfold mixedApi
  split
  · exact lands_mixed (List.forall_mem_singleton.mpr (by simp [recordsOf, mixedPages]))
  · exact lands_mixed (by simp [recordsOf, mixedPages])

/-- The mixed pages are handed out by one token, and both processors return. -/
theorem page_loops_return_iff_mixed :
    (∃ n, NangoSyncRun.Returned
      ((fun st : NangoSyncRun × DeliveryStore => st.1.next plainRuntime mixedApi st.2)^[n]
        (.start issueSync, ⟨[], [], []⟩))) ∧
    ∃ n, ReconcileRun.Returned
      ((fun st : ReconcileRun × DeliveryStore => st.1.next plainRuntime mixedApi st.2)^[n]
        (.load issueReconcile, ⟨[], [], []⟩)) := by
  have hreturn := page_loops_return_iff plainRuntime mixedApi issueSync issueReconcile
    (finite_range_of_two fun _ => mixedApi_token _) (finite_range_of_two fun _ => mixedApi_token _)
    (fun _ => lands_mixedApi _) (fun _ => lands_mixedApi _) ⟨[], [], []⟩
  -- both walks end at the second page
  exact ⟨hreturn.1.mpr fun hrev => hrev.not_ends ⟨2, rfl⟩,
    hreturn.2.mpr fun hrev => hrev.not_ends ⟨2, rfl⟩⟩

/-- An API whose two tokens hand out each other, each with a page of one record. -/
def cyclicApi (params : NangoListParams) : Page :=
  if params.cursor = some "b" then ⟨[cursorRecord], some "a"⟩ else ⟨[cursorRecord], some "b"⟩

private theorem cyclicApi_token (params : NangoListParams) :
    (cyclicApi params).nextCursor = some "a" ∨ (cyclicApi params).nextCursor = some "b" := by
  unfold cyclicApi
  split
  · exact Or.inl rfl
  · exact Or.inr rfl

private theorem lands_cyclicApi (params : NangoListParams) :
    Lands plainRuntime issueReconcile.target (cyclicApi params).records := by
  unfold cyclicApi
  split <;> exact lands_mixed (List.forall_mem_singleton.mpr (by simp [recordsOf, mixedPages]))

/-- No call fails, and neither processor leaves the cycle. -/
theorem page_loops_spin :
    (Set.range fun params => (cyclicApi params).nextCursor).Finite ∧
      (∀ params, Lands plainRuntime issueSync.target (cyclicApi params).records ∧
        Lands plainRuntime issueReconcile.target (cyclicApi params).records) ∧
      (∀ n, ¬ NangoSyncRun.Returned
        ((fun st : NangoSyncRun × DeliveryStore => st.1.next plainRuntime cyclicApi st.2)^[n]
          (.start issueSync, ⟨[], [], []⟩))) ∧
      ∀ n, ¬ ReconcileRun.Returned
        ((fun st : ReconcileRun × DeliveryStore => st.1.next plainRuntime cyclicApi st.2)^[n]
          (.load issueReconcile, ⟨[], [], []⟩)) := by
  refine ⟨finite_range_of_two cyclicApi_token,
    fun params => ⟨lands_cyclicApi params, lands_cyclicApi params⟩, ?_, ?_⟩
  · -- the second request is for `b`, and so is the fourth
    have hspin : Walk.Revisits (NangoSyncRun.advance fun cursor =>
        cyclicApi (issueSync.listParams cursor)) none := ⟨1, 3, by omega, some "b", rfl, rfl⟩
    exact not_exists.mp (mt (NangoSyncRun.returns_iff_ends issueSync (fun _ => lands_cyclicApi _)
      _).mp hspin.not_ends)
  · have hspin : Walk.Revisits (ReconcileRun.advance fun cursor =>
        cyclicApi (issueReconcile.listParams cursor)) none := ⟨1, 3, by omega, some "b", rfl, rfl⟩
    exact not_exists.mp (mt (ReconcileRun.returns_iff_ends issueReconcile
      (fun _ => lands_cyclicApi _) _).mp hspin.not_ends)

end Shiplog
