import Shiplog.Spec.Lineage
import Shiplog.Spec.Requests

/-!
# A replay stamp is never ahead of its job

A replay adds the dead letter's payload to the ingest queue and stamps the document when the
`add` has returned. Between the two anything may happen: other handlers find and stamp the same
document, jobs are taken up, and the handler itself may throw. The stamp is still never there
without the job: the one that failed, and behind it the payload as it was stored.

## Key results

- `shiplogSystem_replays`: every step of the system keeps the trail
- `replayed_requeued`: in every reachable state a stamped dead letter has been enqueued again
-/

namespace Shiplog

/-- A job that was taken up is stored as this payload, and the payload has been enqueued after
    it. -/
def Requeued (s : SystemStore) (payload : IngestJobData) : Prop :=
  ∃ data ∈ s.2, payload = data.stored ∧ [data, payload].Sublist s.1.ingestJobs

/-- A stamped dead letter has been enqueued again. -/
def Replays (s : SystemStore) : Prop :=
  ∀ doc ∈ s.1.deadLetters, doc.replayedAt.isSome = true → Requeued s doc.payload

/-- A handler that is going to stamp a dead letter has enqueued it again, or is going to. -/
def ProcReplays (s : SystemStore) : Proc → Prop
  | .adding adds (some (id, t)) =>
    ∃ item, s.1.deadLetters.find? (DeadLetter.isItem id t) = some item ∧
      (.ingest item.payload ∈ adds ∨ Requeued s item.payload)
  | _ => True

section Replay

variable {rt : Runtime} {d : Drivers} {options : AppOptions}

theorem Requeued.retains {s s' : SystemStore} (hs : s.1.Retains s'.1) (ht : s.2 <+: s'.2)
    {payload : IngestJobData} (h : Requeued s payload) : Requeued s' payload := by
  obtain ⟨data, hdata, hpayload, hsub⟩ := h
  exact ⟨data, ht.subset hdata, hpayload, hsub.trans hs.delivery.ingestJobs.sublist⟩

/-- The payload of a job that was enqueued and taken up is enqueued. -/
private theorem Requeued.of_mem {s : SystemStore} {data : IngestJobData} (htaken : data ∈ s.2)
    (hjob : data ∈ s.1.ingestJobs) :
    Requeued (s.1.add (.ingest data.stored), s.2) data.stored :=
  ⟨data, htaken, rfl, (List.singleton_sublist.mpr hjob).append (List.Sublist.refl _)⟩

/-- A dead letter is found again after a step, with the same payload. -/
theorem ProcReplays.retains {s s' : SystemStore} (hs : s.1.Retains s'.1) (ht : s.2 <+: s'.2)
    {p : Proc} (h : ProcReplays s p) : ProcReplays s' p := by
  cases p with
  | adding adds replayed =>
    cases replayed with
    | none => trivial
    | some key =>
      obtain ⟨item, hitem, hjob⟩ := h
      obtain ⟨item', hitem', hkept, -⟩ := hs.pipeline.deadLetters.find?
        (p := DeadLetter.isItem key.1 key.2) (fun a b hab => by rw [hab.1]; rfl) hitem
      refine ⟨item', hitem', ?_⟩
      rw [hkept]
      exact hjob.imp id fun h => h.retains hs ht
  | _ => trivial

/-- What is stamped is what the handler found. -/
theorem Replays.stamp {s : SystemStore} (hs : Replays s) (env : RequestEnv)
    {replayed : Option (ObjectId × ObjectId)} (hp : ProcReplays s (.adding [] replayed)) :
    Replays (stampPlan env replayed s.1, s.2) := by
  cases replayed with
  | none => exact hs
  | some key =>
    obtain ⟨item, hitem, hjob⟩ := hp
    have hrequeued : Requeued s item.payload := hjob.resolve_left List.not_mem_nil
    intro doc hdoc hstamp
    cases List.mem_updateOne_of_find? hitem hdoc with
    | inl hold => exact hs doc hold hstamp
    | inr hnew =>
      rw [hnew]
      exact hrequeued

/-- A step that stamps nothing: every dead letter of the state after it was there before, or is
    not stamped. -/
private theorem Replays.of_mem {s s' : SystemStore} (hs : Replays s) (hretains : s.1.Retains s'.1)
    (ht : s.2 <+: s'.2)
    (h : ∀ doc ∈ s'.1.deadLetters, doc ∈ s.1.deadLetters ∨ doc.replayedAt = none) :
    Replays s' := by
  intro doc hdoc hstamp
  cases h doc hdoc with
  | inl hold => exact (hs doc hold hstamp).retains hretains ht
  | inr hnone =>
    rw [hnone] at hstamp
    cases hstamp

/-- A new dead letter is not stamped. -/
private theorem JobProc.Step.unstamped {createThrows : Prop} {p p' : JobProc} {s s' : Pipeline}
    {new : List JobProc} (h : JobProc.Step rt createThrows p s p' s' new) :
    ∀ doc ∈ s'.deadLetters, doc ∈ s.deadLetters ∨ doc.replayedAt = none := by
  cases h with
  | create id now h hdoc =>
    exact List.forall_mem_concat (fun doc hdoc => Or.inl hdoc) (Or.inr (by rw [hdoc]; rfl))
  | _ => exact fun doc hdoc => Or.inl hdoc

/-- A handler plans a stamp only with the job of the dead letter it has found. -/
private theorem Planned.replays {env : RequestEnv} {t : ObjectId} {s : System} {req : ApiRequest}
    {plan : Plan} {s' : System} (h : Planned d env t s req plan s') (taken : List IngestJobData) :
    s'.deadLetters = s.deadLetters ∧
      ProcReplays (s', taken) (.adding plan.adds plan.replayed) := by
  cases h with
  | replayed hid hitem => exact ⟨rfl, _, hitem, Or.inl List.mem_cons_self⟩
  | _ => exact ⟨rfl, trivial⟩

/-- A job that a handler adds is no longer to be added, and the dead letter it is of has been
    enqueued before. -/
theorem ProcReplays.add {s : SystemStore} (hlineage : Lineage rt s) {add : QueueAdd}
    {adds : List QueueAdd} {replayed : Option (ObjectId × ObjectId)}
    (h : ProcReplays s (.adding (add :: adds) replayed)) :
    ProcReplays (s.1.add add, s.2) (.adding adds replayed) := by
  cases replayed with
  | none => trivial
  | some key =>
    obtain ⟨item, hitem, hjob⟩ := h
    have hsame : (s.1.add add).deadLetters = s.1.deadLetters := by cases add <;> rfl
    refine ⟨item, by rw [hsame]; exact hitem, ?_⟩
    rcases hjob with hjob | hjob
    · cases List.mem_cons.mp hjob with
      | inr hlater => exact Or.inl hlater
      | inl hnow =>
        obtain ⟨data, hdata, hfrom⟩ :=
          hlineage.pipeline.deadLetters item (List.mem_of_find?_eq_some hitem)
        rw [← hnow, hfrom.1]
        exact Or.inr (Requeued.of_mem hdata (hlineage.taken data hdata))
    · exact Or.inr (@Requeued.retains s (s.1.add add, s.2) (System.add_retains add)
        (List.prefix_refl _) _ hjob)

/-- **Every step of the system** keeps the trail. -/
theorem shiplogSystem_replays (rt : Runtime) (d : Drivers) (options : AppOptions) :
    (shiplogSystem rt d options).Invariant (fun s => Lineage rt s ∧ Replays s)
      (fun s p => ProcTraced rt s p ∧ ProcReplays s p) := by
  -- the lineage is needed at `add`: a replay enqueues what a dead letter holds
  refine (shiplogSystem_lineage rt d options).extend ?_ ?_
  · intro p s p' s' new hlineage hs hp hstep
    obtain ⟨sys', taken'⟩ := s'
    obtain ⟨hstep, htaken⟩ := hstep
    have htaken' : taken' = s.2 := htaken
    subst htaken'
    have hretains := hstep.retains
    suffices h : Replays (sys', s.2) ∧ ProcReplays (sys', s.2) p' ∧
        ∀ q ∈ new, ProcReplays (sys', s.2) q by
      exact ⟨h.1, h.2.1, h.2.2, fun q hq => hq.retains hretains (List.prefix_refl _)⟩
    have hnil : ∀ q ∈ ([] : List Proc), ProcReplays (sys', s.2) q :=
      fun q hq => absurd hq List.not_mem_nil
    -- only `stamp` marks a letter replayed: elsewhere the stamped ones are the old ones
    have hsame : sys'.deadLetters = s.1.deadLetters → Replays (sys', s.2) := fun heq =>
      hs.of_mem hretains (List.prefix_refl _) fun doc hdoc => Or.inl (heq ▸ hdoc)
    cases hstep with
    | @request tenantId req _ env hid =>
      obtain ⟨heq, hadding⟩ := (@ApiRequest.planned d options env tenantId s.1 req).replays s.2
      exact ⟨hsame heq, hadding, hnil⟩
    | webhook => exact ⟨hs, trivial, hnil⟩
    | sweep => exact ⟨hs, trivial, hnil⟩
    | @add add adds replayed _ hok => exact ⟨hsame (by cases add <;> rfl), hp.add hlineage, hnil⟩
    | stamp env => exact ⟨hs.stamp env hp, trivial, hnil⟩
    | nangoSync nango hlive => exact ⟨hsame rfl, trivial, hnil⟩
    | reconcile nango hlive => exact ⟨hsame rfl, trivial, hnil⟩
    | ingest h =>
      refine ⟨hs.of_mem hretains (List.prefix_refl _) h.unstamped, trivial, fun q hq => ?_⟩
      obtain ⟨q', -, rfl⟩ := List.mem_map.mp hq
      trivial
    | throw hcan => exact ⟨hs, trivial, hnil⟩
  · intro s s' new hlineage hs henv
    obtain ⟨hsame, htaken⟩ := henv.retains
    have hretains : s.1.Retains s'.1 := hsame ▸ .refl s.1
    refine ⟨hs.of_mem hretains htaken fun doc hdoc => Or.inl (hsame ▸ hdoc), ?_,
      fun q hq => hq.retains hretains htaken⟩
    cases henv with
    | _ => exact fun q hq => List.mem_singleton.mp hq ▸ trivial

end Replay

/-- **A replay stamp is never ahead of its job.** From empty collections and queues, whatever
    arrives and however the steps of handlers and workers interleave and throw: for a dead
    letter whose `replayedAt` is set there is a job that was enqueued and taken up, whose data
    are stored as the letter's payload, and behind it the payload has been enqueued. -/
theorem replayed_requeued (rt : Runtime) (d : Drivers) (options : AppOptions) (s : System)
    (taken : List IngestJobData) (procs : List Proc)
    (h : (shiplogSystem rt d options).Reaches ([], (emptySystem, [])) (procs, (s, taken)))
    (doc : DeadLetter) (hdoc : doc ∈ s.deadLetters) (hstamp : doc.replayedAt.isSome = true) :
    ∃ data ∈ taken, doc.payload = data.stored ∧ [data, doc.payload].Sublist s.ingestJobs := by
  have hstart : Lineage rt (emptySystem, []) ∧ Replays (emptySystem, []) :=
    ⟨emptySystem_lineage rt, fun _ hdoc => absurd hdoc List.not_mem_nil⟩
  have hI := (shiplogSystem_replays rt d options).reaches h hstart
    fun _ hp => absurd hp List.not_mem_nil
  exact hI.1.2 doc hdoc hstamp

/-! ## A refused commit is replayed -/

/-- The dead letter is replayed. -/
def replayDone : List Proc × SystemStore :=
  refusedRun [4, 4, 4] (commitRefused.1 ++ [.request tenantA (.postReplay tenantA.hex)],
    commitRefused.2)

private theorem replayDone_reaches :
    (shiplogSystem plainRuntime plainDrivers ⟨true, true, true⟩).Reaches ([], (emptySystem, []))
      replayDone := by
  have hrequest : (shiplogSystem plainRuntime plainDrivers ⟨true, true, true⟩).Step commitRefused
      (commitRefused.1 ++ [.request tenantA (.postReplay tenantA.hex)], commitRefused.2) :=
    .environment (.request _ _ _)
  exact (commitRefused_reaches.tail hrequest).trans (refusedRun_reaches [4, 4, 4] _)

theorem replayed_requeued_commit : ∃ doc ∈ replayDone.2.1.deadLetters,
    doc.replayedAt = some 0 ∧ ∃ data ∈ replayDone.2.2, doc.payload = data.stored ∧
      [data, doc.payload].Sublist replayDone.2.1.ingestJobs := by
  have hstamped : replayDone.2.1.deadLetters.map DeadLetter.replayedAt = [some 0] := by
    decide +kernel
  obtain ⟨doc, hdocs, hstamp⟩ := List.map_eq_singleton_iff.mp hstamped
  have hdoc : doc ∈ replayDone.2.1.deadLetters := hdocs ▸ List.mem_cons_self
  exact ⟨doc, hdoc, hstamp, replayed_requeued plainRuntime plainDrivers ⟨true, true, true⟩ _ _ _
    replayDone_reaches doc hdoc (by rw [hstamp]; rfl)⟩

end Shiplog
