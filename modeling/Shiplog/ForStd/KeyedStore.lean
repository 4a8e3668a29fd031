import Shiplog.ForStd.Pool
import Shiplog.ForStd.Upsert

/-!
# Concurrent upserts into keyed collections

A store of several collections whose documents are written by upserts: each looks for a
document under its key, changes the one it finds, and inserts a new one in a second step
where it found none. An insert is rejected only by a unique index. Whether a key stays
unique therefore depends on the index, or else on no two upserts standing between their
look-up and their insert.

## Key results

- `Upsert.reaches_alone`: an upsert that nothing interrupts is `List.upsert`
- `unique_of_reachesApart`: keys stay unique in a run in which no two upserts of one key
  without an index are in flight at once
- `race_breaks_unique`: two of them can always break it
-/

/-- Collections `ι`: their documents, the key upserts look for, and whether a unique index
    covers it. -/
structure Keyed (ι : Type*) where
  Doc : ι → Type
  Key : ι → Type
  key : (c : ι) → Doc c → Key c
  unique : ι → Bool

namespace Keyed

variable {ι : Type*} {S : Keyed ι}

/-- The documents of each collection. -/
abbrev Store (S : Keyed ι) := (c : ι) → List (S.Doc c)

/-- No two documents of a collection have one key. -/
def Store.Unique (db : S.Store) : Prop := ∀ c, ((db c).map (S.key c)).Nodup

/-- An upsert: its filter asks for one key, the one it inserts under, and its change leaves
    the key of a match alone. -/
structure Upsert (S : Keyed ι) (c : ι) where
  filter : S.Doc c → Bool
  change : S.Doc c → S.Doc c
  fresh : S.Doc c
  filter_iff : ∀ doc, filter doc = true ↔ S.key c doc = S.key c fresh
  key_change : ∀ doc, filter doc = true → S.key c (change doc) = S.key c doc

namespace Upsert

variable {c : ι}

/-- The upsert in one go. -/
def apply (u : S.Upsert c) (docs : List (S.Doc c)) : List (S.Doc c) :=
  docs.upsert u.filter u.change u.fresh

/-- Nothing matches exactly if the key is not there. -/
theorem any_filter_eq_false_iff (u : S.Upsert c) (docs : List (S.Doc c)) :
    docs.any u.filter = false ↔ S.key c u.fresh ∉ docs.map (S.key c) := by
  rw [List.any_eq_false, List.mem_map]
  constructor
  · intro hnone ⟨doc, hdoc, hkey⟩
    exact hnone doc hdoc ((u.filter_iff doc).mpr hkey)
  · intro habsent doc hdoc hfilter
    exact habsent ⟨doc, hdoc, (u.filter_iff doc).mp hfilter⟩

/-- Without a match the upsert inserts. -/
theorem apply_of_absent (u : S.Upsert c) {docs : List (S.Doc c)}
    (h : docs.any u.filter = false) : u.apply docs = docs ++ [u.fresh] := by
  unfold apply
  induction docs with
  | nil => rfl
  | cons doc docs ih =>
    simp only [List.any_cons, Bool.or_eq_false_iff] at h
    simp only [List.upsert, h.1, Bool.false_eq_true, if_false, ih h.2, List.cons_append]

/-- With one it changes a document and no key. -/
theorem keys_apply_of_found (u : S.Upsert c) {docs : List (S.Doc c)}
    (h : docs.any u.filter = true) : (u.apply docs).map (S.key c) = docs.map (S.key c) := by
  unfold apply
  induction docs with
  | nil => simp at h
  | cons doc docs ih =>
    simp only [List.upsert]
    split
    · next hfilter => simp only [List.map_cons, u.key_change doc hfilter]
    · next hfilter =>
      simp only [List.any_cons, hfilter, Bool.false_or] at h
      simp only [List.map_cons, ih h]

end Upsert

/-! ## Upserts in two steps -/

/-- Where an upsert stands: about to look for a match, about to insert, or through. -/
inductive Run (S : Keyed ι) where
  | called (c : ι) (u : S.Upsert c)
  | missed (c : ι) (u : S.Upsert c)
  | finished

section Step

variable [DecidableEq ι]

/-- One step of an upsert. The insert is rejected where a unique index holds the key, and
    only there; any step may fail before it takes effect. -/
inductive Step (S : Keyed ι) : S.Run → S.Store → S.Run → S.Store → Prop where
  | found {c : ι} {u : S.Upsert c} {db : S.Store} (h : (db c).any u.filter = true) :
      Step S (.called c u) db .finished (Function.update db c (u.apply (db c)))
  | missed {c : ι} {u : S.Upsert c} {db : S.Store} (h : (db c).any u.filter = false) :
      Step S (.called c u) db (.missed c u) db
  | inserted {c : ι} {u : S.Upsert c} {db : S.Store}
      (h : S.unique c = true → S.key c u.fresh ∉ (db c).map (S.key c)) :
      Step S (.missed c u) db .finished (Function.update db c (db c ++ [u.fresh]))
  | rejected {c : ι} {u : S.Upsert c} {db : S.Store} (hunique : S.unique c = true)
      (h : S.key c u.fresh ∈ (db c).map (S.key c)) : Step S (.missed c u) db .finished db
  | failed {run : S.Run} {db : S.Store} : Step S run db .finished db

/-- Concurrent upserts, while `start` says which may be issued. -/
def upserts (S : Keyed ι) (start : (c : ι) → S.Upsert c → Prop) : Pool S.Run S.Store where
  step run db run' db' new := Step S run db run' db' ∧ new = []
  env db db' new := db' = db ∧ ∃ c u, start c u ∧ new = [.called c u]

variable {start : (c : ι) → S.Upsert c → Prop}

/-- **An upsert that nothing interrupts** does in two steps what it does in one. -/
theorem Upsert.reaches_alone {c : ι} (u : S.Upsert c) (db : S.Store) :
    (S.upserts start).Reaches ([.called c u], db)
      ([.finished], Function.update db c (u.apply (db c))) := by
  cases h : (db c).any u.filter with
  | true => exact .single (Pool.Step.alone ⟨.found h, rfl⟩)
  | false =>
    have hinsert : S.unique c = true → S.key c u.fresh ∉ (db c).map (S.key c) :=
      fun _ => (u.any_filter_eq_false_iff _).mp h
    rw [u.apply_of_absent h]
    exact .head (Pool.Step.alone ⟨.missed h, rfl⟩)
      (.single (Pool.Step.alone ⟨.inserted hinsert, rfl⟩))

/-! ## Keys without an index -/

/-- No two upserts of one key that no unique index covers stand between their look-up and
    their insert. -/
def Apart (runs : List S.Run) : Prop :=
  ∀ (i j : ℕ) c (u v : S.Upsert c), i ≠ j → runs[i]? = some (Run.missed c u) →
    runs[j]? = some (Run.missed c v) → S.unique c = false → S.key c u.fresh ≠ S.key c v.fresh

/-- A run in which the upserts are apart whenever one of them moves. -/
def ReachesApart (start : (c : ι) → S.Upsert c → Prop) :
    List S.Run × S.Store → List S.Run × S.Store → Prop :=
  Relation.ReflTransGen fun st st' => Apart st.1 ∧ (S.upserts start).Step st st'

/-- What such a run keeps: keys are unique, and where no index guards them, the key of an
    upsert that found no match is still absent. -/
structure Guarded (runs : List S.Run) (db : S.Store) : Prop where
  unique : db.Unique
  absent : ∀ (j : ℕ) c (u : S.Upsert c), runs[j]? = some (Run.missed c u) →
    S.unique c = false → S.key c u.fresh ∉ (db c).map (S.key c)

/-- An insert under a key that is absent keeps keys unique. -/
theorem Store.Unique.insert {db : S.Store} (hdb : db.Unique) {c : ι} {doc : S.Doc c}
    (h : S.key c doc ∉ (db c).map (S.key c)) :
    Store.Unique (Function.update db c (db c ++ [doc])) := by
  intro c'
  by_cases hc : c' = c
  · subst hc
    rw [Function.update_self, List.map_append, List.map_singleton]
    exact List.nodup_append.mpr ⟨hdb c', List.nodup_singleton _, by simpa using h⟩
  · rw [Function.update_of_ne hc]
    exact hdb c'

/-- An upsert that found its match changes no key of the store. -/
theorem keys_of_found {db : S.Store} {c : ι} {u : S.Upsert c} (h : (db c).any u.filter = true)
    (c' : ι) :
    (Function.update db c (u.apply (db c)) c').map (S.key c') = (db c').map (S.key c') := by
  by_cases hc : c' = c
  · subst hc
    rw [Function.update_self, u.keys_apply_of_found h]
  · rw [Function.update_of_ne hc]

omit [DecidableEq ι] in
/-- A run that is through has not missed. -/
theorem missed_of_set_finished {runs : List S.Run} {i j : ℕ} {c : ι} {u : S.Upsert c}
    (h : (runs.set i Run.finished)[j]? = some (Run.missed c u)) :
    j ≠ i ∧ runs[j]? = some (Run.missed c u) := by
  rcases List.getElem?_of_getElem?_set h with ⟨-, hrun⟩ | hj
  · cases hrun
  · exact hj

omit [DecidableEq ι] in
/-- A run that ends without a write keeps the guard. -/
theorem Guarded.finish {runs : List S.Run} {db : S.Store} (hguard : Guarded runs db) (i : ℕ) :
    Guarded (runs.set i .finished) db where
  unique := hguard.unique
  absent := fun j c u hj => hguard.absent j c u (missed_of_set_finished hj).2

/-- A step of an upsert keeps the guard, if the upserts are apart. -/
theorem Guarded.process {runs : List S.Run} {db db' : S.Store} {i : ℕ} {run run' : S.Run}
    (hguard : Guarded runs db) (hapart : Apart runs) (hi : runs[i]? = some run)
    (h : Step S run db run' db') : Guarded (runs.set i run') db' := by
  cases h with
  | found h =>
    -- no key changes
    refine ⟨fun c => ?_, fun j c u hj hc => ?_⟩
    · rw [keys_of_found h]
      exact hguard.unique c
    · rw [keys_of_found h]
      exact hguard.absent j c u (missed_of_set_finished hj).2 hc
  | @missed c u db h =>
    refine ⟨hguard.unique, fun j c' v hj hc => ?_⟩
    rcases List.getElem?_of_getElem?_set hj with ⟨-, hrun⟩ | ⟨-, hj⟩
    · cases hrun
      exact (u.any_filter_eq_false_iff _).mp h
    · exact hguard.absent j c' v hj hc
  | @inserted c u db h =>
    -- the index, or what the run has kept, tells that the key is absent
    have habsent : S.key c u.fresh ∉ (db c).map (S.key c) := by
      cases hc : S.unique c with
      | true => exact h hc
      | false => exact hguard.absent i c u hi hc
    refine ⟨hguard.unique.insert habsent, fun j c' v hj hc => ?_⟩
    obtain ⟨hji, hj⟩ := missed_of_set_finished hj
    have hkeep := hguard.absent j c' v hj hc
    by_cases hcc : c' = c
    · subst hcc
      -- another upsert that found no match looked for another key
      have hne := hapart j i c' v u hji hj hi hc
      rw [Function.update_self, List.map_append, List.mem_append]
      simp only [List.map_singleton, List.mem_singleton]
      exact fun hmem => hmem.elim hkeep hne
    · rwa [Function.update_of_ne hcc]
  | rejected _ _ => exact hguard.finish i
  | failed => exact hguard.finish i

omit [DecidableEq ι] in
/-- A new upsert has not looked yet. -/
theorem Guarded.environment {runs : List S.Run} {db : S.Store} (hguard : Guarded runs db) {c : ι}
    (u : S.Upsert c) : Guarded (runs ++ [.called c u]) db := by
  refine ⟨hguard.unique, fun j c' v hj hc => ?_⟩
  rw [List.getElem?_append] at hj
  split at hj
  · exact hguard.absent j c' v hj hc
  · rw [List.getElem?_singleton] at hj
    split at hj <;> cases hj

/-- **Keys stay unique** in a run in which no two upserts of one key without an index stand
    between their look-up and their insert. -/
theorem unique_of_reachesApart {runs : List S.Run} {db db' : S.Store}
    (h : ReachesApart start ([], db) (runs, db')) (hdb : db.Unique) : db'.Unique := by
  -- the guard is what the induction carries: unique keys alone are not kept by an insert
  suffices hguard : ∀ st, ReachesApart start ([], db) st → Guarded st.1 st.2 from
    (hguard _ h).unique
  intro st hst
  induction hst with
  | refl => exact ⟨hdb, fun j c u hj => by simp at hj⟩
  | tail _ hstep ih =>
    obtain ⟨hapart, hstep⟩ := hstep
    cases hstep with
    | process i hi hrun =>
      obtain ⟨hrun, rfl⟩ := hrun
      rw [List.append_nil]
      exact ih.process hapart hi hrun
    | environment henv =>
      obtain ⟨rfl, c, u, -, rfl⟩ := henv
      exact ih.environment u

/-- Without an index an upsert that found no match inserts, whatever has happened since. -/
theorem insert_step {runs : List S.Run} {i : ℕ} {c : ι} {u : S.Upsert c}
    (hi : runs[i]? = some (Run.missed c u)) (hc : S.unique c = false) (db : S.Store) :
    (S.upserts start).Step (runs, db)
      (runs.set i .finished, Function.update db c (db c ++ [u.fresh])) := by
  have hfree : S.unique c = true → S.key c u.fresh ∉ (db c).map (S.key c) := by
    intro h
    rw [hc] at h
    cases h
  have hstep := @Pool.Step.process _ _ (S.upserts start) runs db _ _ _ _ i hi ⟨.inserted hfree, rfl⟩
  rwa [List.append_nil] at hstep

/-- **Two upserts of one key** that both found no match insert it twice where no index
    covers it. -/
theorem race_breaks_unique {runs : List S.Run} (h : ¬ Apart runs) (db : S.Store) :
    ∃ st, (S.upserts start).Reaches (runs, db) st ∧ ¬ st.2.Unique := by
  unfold Apart at h
  push Not at h
  obtain ⟨i, j, c, u, v, hij, hi, hj, hc, hkey⟩ := h
  have hj' : (runs.set i Run.finished)[j]? = some (Run.missed c v) := by
    rw [List.getElem?_set_ne hij, hj]
  refine ⟨_, .head (insert_step hi hc db) (.single (insert_step hj' hc _)), fun hunique => ?_⟩
  have hkeys := hunique c
  simp [hkey, List.nodup_append] at hkeys

/-- The race from its beginning: both are issued, look, find nothing, and insert. -/
theorem reaches_race {c : ι} {u v : S.Upsert c} (hu : start c u) (hv : start c v)
    (hc : S.unique c = false) {db : S.Store} (humiss : (db c).any u.filter = false)
    (hvmiss : (db c).any v.filter = false) :
    (S.upserts start).Reaches ([], db)
      ([.finished, .finished], Function.update db c (db c ++ [u.fresh, v.fresh])) := by
  have hissue : (S.upserts start).Reaches ([], db) ([.called c u, .called c v], db) :=
    .head (.environment ⟨rfl, c, u, hu, rfl⟩) (.single (.environment ⟨rfl, c, v, hv, rfl⟩))
  have hlook : (S.upserts start).Reaches ([.called c u, .called c v], db)
      ([.missed c u, .missed c v], db) :=
    .head (.process 0 rfl ⟨.missed humiss, rfl⟩) (.single (.process 1 rfl ⟨.missed hvmiss, rfl⟩))
  have hinsert := @insert_step _ S _ start [.missed c u, .missed c v] 0 c u rfl hc db
  have hinsert' := @insert_step _ S _ start [.finished, .missed c v] 1 c v rfl hc
    (Function.update db c (db c ++ [u.fresh]))
  rw [Function.update_idem, Function.update_self, List.append_assoc] at hinsert'
  exact hissue.trans (hlook.trans (.head hinsert (.single hinsert')))

end Step

end Keyed
