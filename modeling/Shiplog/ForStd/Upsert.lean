import Mathlib

/-!
# Upserts on lists

`List.upsert` is what a document store does for an update with `upsert: true`: change the
first document that matches, or insert a new one behind the others; `List.updateOne` is the
update without the insert. `List.put` is the case where the update writes all that the key
leaves open, so that the stored document depends only on the last write under its key.

## Key results

- `mem_upsert`: a member of the result is old, changed or new
- `filter_upsert`, `filter_upsert_of_not`: an upsert seen from within and from without the
  part of the list it works in
- `put_put_comm`: writes under different keys commute once one of the keys is present
- `mem_putAll_nil_iff`: a batch leaves of each key its last write
- `putAll_idem`: writing a batch twice is writing it once
- `putAll_putAll_of_prefix`: a batch wipes out an earlier partial run of itself
-/

namespace List

variable {α β κ : Type*}

/-! ## Update or insert -/

/-- Change the first entry that passes `p`, or append `new`. -/
def upsert (p : α → Bool) (change : α → α) (new : α) : List α → List α
  | [] => [new]
  | a :: l => if p a then change a :: l else a :: upsert p change new l

/-- An entry of the result is an old one, a changed one, or the new one. -/
theorem mem_upsert {p : α → Bool} {change : α → α} {new b : α} {l : List α}
    (h : b ∈ upsert p change new l) :
    b ∈ l ∨ (∃ a ∈ l, p a = true ∧ b = change a) ∨ b = new := by
  induction l with
  | nil => exact Or.inr (Or.inr (mem_singleton.mp h))
  | cons a l ih =>
    simp only [upsert] at h
    split at h
    · next hp =>
      rcases mem_cons.mp h with rfl | h
      · exact Or.inr (Or.inl ⟨a, mem_cons_self, hp, rfl⟩)
      · exact Or.inl (mem_cons_of_mem a h)
    · rcases mem_cons.mp h with rfl | h
      · exact Or.inl mem_cons_self
      · rcases ih h with h | ⟨c, hc, hp, rfl⟩ | rfl
        · exact Or.inl (mem_cons_of_mem a h)
        · exact Or.inr (Or.inl ⟨c, mem_cons_of_mem a hc, hp, rfl⟩)
        · exact Or.inr (Or.inr rfl)

/-- Where an entry passes the test, none is inserted. -/
theorem mem_upsert_of_exists {p : α → Bool} {change : α → α} {new b : α} {l : List α}
    (hp : ∃ a ∈ l, p a = true) (h : b ∈ upsert p change new l) :
    b ∈ l ∨ ∃ a ∈ l, p a = true ∧ b = change a := by
  induction l with
  | nil =>
    obtain ⟨a, ha, -⟩ := hp
    exact absurd ha not_mem_nil
  | cons a l ih =>
    simp only [upsert] at h
    split at h
    · next hpa =>
      rcases mem_cons.mp h with rfl | h
      · exact Or.inr ⟨a, mem_cons_self, hpa, rfl⟩
      · exact Or.inl (mem_cons_of_mem a h)
    · next hpa =>
      have hrest : ∃ a ∈ l, p a = true := by
        obtain ⟨c, hc, hpc⟩ := hp
        rcases mem_cons.mp hc with rfl | hc
        · exact absurd hpc hpa
        · exact ⟨c, hc, hpc⟩
      rcases mem_cons.mp h with rfl | h
      · exact Or.inl mem_cons_self
      · rcases ih hrest h with h | ⟨c, hc, hpc, rfl⟩
        · exact Or.inl (mem_cons_of_mem a h)
        · exact Or.inr ⟨c, mem_cons_of_mem a hc, hpc, rfl⟩

/-- An entry survives, changed or not. -/
theorem mem_upsert_of_mem {p : α → Bool} {change : α → α} {new a : α} {l : List α} (h : a ∈ l) :
    a ∈ upsert p change new l ∨ p a = true ∧ change a ∈ upsert p change new l := by
  induction l with
  | nil => exact absurd h not_mem_nil
  | cons b l ih =>
    simp only [upsert]
    split
    · next hp =>
      rcases mem_cons.mp h with rfl | h
      · exact Or.inr ⟨hp, mem_cons_self⟩
      · exact Or.inl (mem_cons_of_mem _ h)
    · rcases mem_cons.mp h with rfl | h
      · exact Or.inl mem_cons_self
      · rcases ih h with h | ⟨hp, h⟩
        · exact Or.inl (mem_cons_of_mem b h)
        · exact Or.inr ⟨hp, mem_cons_of_mem b h⟩

/-- The entry an upsert leaves for the one it found, or the one it inserted, is in the result. -/
theorem upserted_mem (p : α → Bool) (change : α → α) (new : α) (l : List α) :
    ((l.find? p).map change).getD new ∈ upsert p change new l := by
  induction l with
  | nil => exact mem_singleton_self new
  | cons a l ih =>
    rw [find?_cons]
    simp only [upsert]
    cases p a with
    | true => exact mem_cons_self
    | false => exact mem_cons_of_mem _ ih

/-- The written entry is there: the changed or the new one. -/
theorem exists_mem_upsert (p : α → Bool) (change : α → α) (new : α) (l : List α) :
    (∃ a ∈ l, p a = true ∧ change a ∈ upsert p change new l) ∨ new ∈ upsert p change new l := by
  induction l with
  | nil => exact Or.inr mem_cons_self
  | cons a l ih =>
    simp only [upsert]
    split
    · next hp => exact Or.inl ⟨a, mem_cons_self, hp, mem_cons_self⟩
    · rcases ih with ⟨b, hb, hp, h⟩ | h
      · exact Or.inl ⟨b, mem_cons_of_mem a hb, hp, mem_cons_of_mem a h⟩
      · exact Or.inr (mem_cons_of_mem a h)

/-- What the change leaves alone of every entry: one more of it, or none. -/
theorem map_upsert {γ : Type*} {p : α → Bool} {change : α → α} {new : α} {g : α → γ}
    (hg : ∀ a, g (change a) = g a) (l : List α) :
    (upsert p change new l).map g = l.map g ∨
      (upsert p change new l).map g = l.map g ++ [g new] := by
  induction l with
  | nil => exact Or.inr rfl
  | cons a l ih =>
    simp only [upsert]
    split
    · left
      rw [map_cons, map_cons, hg]
    · rw [map_cons, map_cons]
      cases ih with
      | inl ih => exact Or.inl (by rw [ih])
      | inr ih => exact Or.inr (by rw [ih, cons_append])

/-- Where the change keeps passing the test, the first match afterwards is the written
    entry. -/
theorem find?_upsert_self {p : α → Bool} {change : α → α} {new : α} (l : List α)
    (hchange : ∀ a, p a = true → p (change a) = true) (hnew : p new = true) :
    (upsert p change new l).find? p =
      some (match l.find? p with
        | some a => change a
        | none => new) := by
  induction l with
  | nil => simp only [upsert, find?_cons_of_pos hnew, find?_nil]
  | cons a l ih =>
    by_cases hp : p a = true
    · simp only [upsert, if_pos hp, find?_cons_of_pos (hchange a hp), find?_cons_of_pos hp]
    · simp only [upsert, if_neg hp, find?_cons_of_neg hp, ih]

/-- An upsert within a part of the list, seen from that part. -/
theorem filter_upsert {p q : α → Bool} {change : α → α} {new : α}
    (hp : ∀ a, p a = true → q a = true) (hchange : ∀ a, p a = true → q (change a) = true)
    (hnew : q new = true) (l : List α) :
    (upsert p change new l).filter q = upsert p change new (l.filter q) := by
  induction l with
  | nil => simp only [upsert, filter_cons_of_pos hnew, filter_nil]
  | cons a l ih =>
    by_cases hpa : p a = true
    · rw [filter_cons_of_pos (hp a hpa)]
      simp only [upsert, if_pos hpa]
      rw [filter_cons_of_pos (hchange a hpa)]
    · simp only [upsert, if_neg hpa]
      by_cases hqa : q a = true
      · rw [filter_cons_of_pos hqa, filter_cons_of_pos hqa, ih]
        simp only [upsert, if_neg hpa]
      · rw [filter_cons_of_neg hqa, filter_cons_of_neg hqa, ih]

/-- An upsert outside a part of the list leaves that part alone. -/
theorem filter_upsert_of_not {p q : α → Bool} {change : α → α} {new : α}
    (hp : ∀ a, p a = true → q a = false) (hchange : ∀ a, p a = true → q (change a) = false)
    (hnew : q new = false) (l : List α) : (upsert p change new l).filter q = l.filter q := by
  induction l with
  | nil => simp [upsert, hnew]
  | cons a l ih =>
    by_cases hpa : p a = true
    · simp only [upsert, if_pos hpa]
      simp only [filter_cons, hp a hpa, hchange a hpa, Bool.false_eq_true, if_false]
    · simp only [upsert, if_neg hpa, filter_cons, ih]

/-! ## Update without insert -/

/-- Change the first entry that passes `p`, if there is one. -/
def updateOne (p : α → Bool) (change : α → α) : List α → List α
  | [] => []
  | a :: l => if p a then change a :: l else a :: updateOne p change l

/-- An entry of the result is an old or a changed one. -/
theorem mem_updateOne {p : α → Bool} {change : α → α} {b : α} {l : List α}
    (h : b ∈ updateOne p change l) : b ∈ l ∨ ∃ a ∈ l, p a = true ∧ b = change a := by
  induction l with
  | nil => exact absurd h not_mem_nil
  | cons a l ih =>
    simp only [updateOne] at h
    split at h
    · next hp =>
      rcases mem_cons.mp h with rfl | h
      · exact Or.inr ⟨a, mem_cons_self, hp, rfl⟩
      · exact Or.inl (mem_cons_of_mem a h)
    · rcases mem_cons.mp h with rfl | h
      · exact Or.inl mem_cons_self
      · rcases ih h with h | ⟨c, hc, hp, rfl⟩
        · exact Or.inl (mem_cons_of_mem a h)
        · exact Or.inr ⟨c, mem_cons_of_mem a hc, hp, rfl⟩

/-- The entry an update changes is the one a search finds. -/
theorem mem_updateOne_of_find? {p : α → Bool} {change : α → α} {a b : α} {l : List α}
    (hfind : l.find? p = some a) (h : b ∈ updateOne p change l) : b ∈ l ∨ b = change a := by
  induction l with
  | nil => exact absurd h not_mem_nil
  | cons c l ih =>
    rw [find?_cons] at hfind
    simp only [updateOne] at h
    cases hp : p c with
    | true =>
      rw [hp] at hfind h
      cases hfind
      cases mem_cons.mp h with
      | inl heq => exact Or.inr heq
      | inr h => exact Or.inl (mem_cons_of_mem _ h)
    | false =>
      rw [hp] at hfind h
      cases mem_cons.mp h with
      | inl heq => exact Or.inl (heq ▸ mem_cons_self)
      | inr h => exact (ih hfind h).imp (mem_cons_of_mem _) id

/-- The entry an update found is changed in the result. -/
theorem updated_mem {p : α → Bool} {change : α → α} {a : α} {l : List α}
    (h : l.find? p = some a) : change a ∈ updateOne p change l := by
  induction l with
  | nil => exact nomatch h
  | cons b l ih =>
    rw [find?_cons] at h
    simp only [updateOne]
    cases hb : p b with
    | true =>
      rw [hb] at h
      cases h
      exact mem_cons_self
    | false =>
      rw [hb] at h
      exact mem_cons_of_mem _ (ih h)

/-- An update within a part of the list, seen from that part. -/
theorem filter_updateOne {p q : α → Bool} {change : α → α}
    (hp : ∀ a, p a = true → q a = true) (hchange : ∀ a, p a = true → q (change a) = true)
    (l : List α) : (updateOne p change l).filter q = updateOne p change (l.filter q) := by
  induction l with
  | nil => rfl
  | cons a l ih =>
    by_cases hpa : p a = true
    · rw [filter_cons_of_pos (hp a hpa)]
      simp only [updateOne, if_pos hpa]
      rw [filter_cons_of_pos (hchange a hpa)]
    · simp only [updateOne, if_neg hpa]
      by_cases hqa : q a = true
      · rw [filter_cons_of_pos hqa, filter_cons_of_pos hqa, ih]
        simp only [updateOne, if_neg hpa]
      · rw [filter_cons_of_neg hqa, filter_cons_of_neg hqa, ih]

/-- An update outside a part of the list leaves that part alone. -/
theorem filter_updateOne_of_not {p q : α → Bool} {change : α → α}
    (hp : ∀ a, p a = true → q a = false) (hchange : ∀ a, p a = true → q (change a) = false)
    (l : List α) : (updateOne p change l).filter q = l.filter q := by
  induction l with
  | nil => rfl
  | cons a l ih =>
    by_cases hpa : p a = true
    · simp only [updateOne, if_pos hpa]
      simp only [filter_cons, hp a hpa, hchange a hpa, Bool.false_eq_true, if_false]
    · simp only [updateOne, if_neg hpa, filter_cons, ih]

/-! ## Writing under a key -/

section Put

variable [DecidableEq κ] (key : α → κ)

/-- Store `a` under its key: over the first entry with that key, or behind the others. -/
def put (a : α) (l : List α) : List α := upsert (fun b => key b = key a) (fun _ => a) a l

@[simp] theorem put_nil (a : α) : put key a [] = [a] := rfl

theorem put_cons (a b : α) (l : List α) :
    put key a (b :: l) = if key b = key a then a :: l else b :: put key a l := by
  simp only [put, upsert, decide_eq_true_eq]

theorem mem_put_self (a : α) (l : List α) : a ∈ put key a l := by
  rcases exists_mem_upsert (fun b => decide (key b = key a)) (fun _ => a) a l with ⟨_, _, _, h⟩ | h
  · exact h
  · exact h

/-- A stored entry stays, or its place is taken by one with the same key. -/
theorem mem_put_of_mem {a b : α} {l : List α} (h : b ∈ l) :
    b ∈ put key a l ∨ key b = key a := by
  rcases @mem_upsert_of_mem _ (fun b => decide (key b = key a)) (fun _ => a) a b l h with
    h | ⟨hp, -⟩
  · exact Or.inl h
  · exact Or.inr (of_decide_eq_true hp)

theorem mem_put {a b : α} {l : List α} (h : b ∈ put key a l) : b ∈ l ∨ b = a := by
  rcases mem_upsert h with h | ⟨_, _, _, rfl⟩ | rfl
  · exact Or.inl h
  · exact Or.inr rfl
  · exact Or.inr rfl

/-- The keys of the result are the old ones and the written one. -/
theorem mem_map_key_put {a : α} {k : κ} {l : List α} :
    k ∈ (put key a l).map key ↔ k ∈ l.map key ∨ k = key a := by
  induction l with
  | nil => simp [put_nil]
  | cons b l ih =>
    rw [put_cons]
    split
    · next h =>
      simp only [map_cons, mem_cons, h]
      exact ⟨fun hk => hk.elim Or.inr fun hk => Or.inl (Or.inr hk),
        fun hk => hk.elim id Or.inl⟩
    · simp only [map_cons, mem_cons, ih, or_assoc]

/-- Writes keep keys unique. -/
theorem nodup_map_key_put {a : α} {l : List α} (h : (l.map key).Nodup) :
    ((put key a l).map key).Nodup := by
  induction l with
  | nil => exact nodup_singleton _
  | cons b l ih =>
    rw [map_cons, nodup_cons] at h
    rw [put_cons]
    split
    · next hba =>
      rw [map_cons, ← hba]
      exact nodup_cons.mpr h
    · next hba =>
      rw [map_cons, nodup_cons, mem_map_key_put]
      exact ⟨fun hmem => hmem.elim h.1 hba, ih h.2⟩

/-- With unique keys a write leaves just the entries under other keys beside it. -/
theorem mem_put_iff {a b : α} {l : List α} (h : (l.map key).Nodup) :
    b ∈ put key a l ↔ b = a ∨ b ∈ l ∧ key b ≠ key a := by
  induction l with
  | nil => simp [put_nil]
  | cons c l ih =>
    rw [map_cons, nodup_cons] at h
    rw [put_cons]
    split
    · next hca =>
      -- `c` is replaced, and no later entry has its key
      have hrest : b ∈ l → key b ≠ key a := by
        intro hb hba
        exact h.1 (hca ▸ hba ▸ mem_map_of_mem hb)
      constructor
      · intro hb
        rcases mem_cons.mp hb with rfl | hb
        · exact Or.inl rfl
        · exact Or.inr ⟨mem_cons_of_mem c hb, hrest hb⟩
      · rintro (rfl | ⟨hb, hba⟩)
        · exact mem_cons_self
        · rcases mem_cons.mp hb with rfl | hb
          · exact absurd hca hba
          · exact mem_cons_of_mem a hb
    · next hca =>
      -- `c` stays, and the write goes on behind it
      rw [mem_cons, ih h.2, mem_cons]
      constructor
      · rintro (rfl | rfl | ⟨hb, hba⟩)
        · exact Or.inr ⟨Or.inl rfl, hca⟩
        · exact Or.inl rfl
        · exact Or.inr ⟨Or.inr hb, hba⟩
      · rintro (rfl | ⟨rfl | hb, hba⟩)
        · exact Or.inr (Or.inl rfl)
        · exact Or.inl rfl
        · exact Or.inr (Or.inr ⟨hb, hba⟩)

/-- A second write under the same key replaces the first. -/
theorem put_put_self {a b : α} (h : key a = key b) (l : List α) :
    put key b (put key a l) = put key b l := by
  induction l with
  | nil => simp [put_cons, h]
  | cons c l ih =>
    by_cases hc : key c = key a
    · simp only [put_cons, if_pos hc, if_pos h, if_pos (hc.trans h)]
    · have hc' : key c ≠ key b := fun hcb => hc (hcb.trans h.symm)
      simp only [put_cons, if_neg hc, if_neg hc', ih]

/-- Writes under different keys commute once the first key is present. -/
theorem put_put_comm {a b : α} (h : key a ≠ key b) {l : List α} (ha : key a ∈ l.map key) :
    put key a (put key b l) = put key b (put key a l) := by
  induction l with
  | nil => exact absurd ha not_mem_nil
  | cons c l ih =>
    by_cases hca : key c = key a
    · -- the write of `a` ends here, before the one of `b` gets anywhere
      have hcb : key c ≠ key b := fun hcb => h (hca.symm.trans hcb)
      simp only [put_cons, if_pos hca, if_neg hcb, if_neg h]
    · have hmem : key a ∈ l.map key := by
        cases mem_cons.mp (map_cons ▸ ha) with
        | inl heq => exact absurd heq.symm hca
        | inr hmem => exact hmem
      by_cases hcb : key c = key b
      · simp only [put_cons, if_pos hcb, if_neg hca, if_neg h.symm]
      · simp only [put_cons, if_neg hca, if_neg hcb, ih hmem]

/-! ## Batches of writes -/

/-- Write a batch, one entry after another. -/
def putAll (as l : List α) : List α := as.foldl (fun l a => put key a l) l

@[simp] theorem putAll_nil (l : List α) : putAll key [] l = l := rfl

@[simp] theorem putAll_cons (a : α) (as l : List α) :
    putAll key (a :: as) l = putAll key as (put key a l) := rfl

theorem putAll_append (as bs l : List α) :
    putAll key (as ++ bs) l = putAll key bs (putAll key as l) := by
  simp only [putAll, foldl_append]

theorem putAll_concat (as : List α) (a : α) (l : List α) :
    putAll key (as ++ [a]) l = put key a (putAll key as l) := by
  rw [putAll_append, putAll_cons, putAll_nil]

theorem mem_map_key_putAll {as l : List α} {k : κ} :
    k ∈ (putAll key as l).map key ↔ k ∈ l.map key ∨ k ∈ as.map key := by
  induction as generalizing l with
  | nil => simp
  | cons a as ih => rw [putAll_cons, ih, mem_map_key_put, map_cons, mem_cons, or_assoc]

theorem nodup_map_key_putAll {as l : List α} (h : (l.map key).Nodup) :
    ((putAll key as l).map key).Nodup := by
  induction as generalizing l with
  | nil => exact h
  | cons a as ih =>
    rw [putAll_cons]
    exact ih (nodup_map_key_put key h)

/-- **The last write wins**: a batch from nothing leaves of each key its last write. -/
theorem mem_putAll_nil_iff {as : List α} {b : α} :
    b ∈ putAll key as [] ↔ (as.filter fun a => key a = key b).getLast? = some b := by
  -- on the batch's last write
  induction as using List.reverseRecOn with
  | nil => simp
  | append_singleton as a ih =>
    have hnodup : ((putAll key as []).map key).Nodup := nodup_map_key_putAll key nodup_nil
    rw [putAll_concat, mem_put_iff key hnodup, ih, filter_append]
    by_cases hab : key a = key b
    · simp only [filter_cons, hab, decide_true, if_true, filter_nil, getLast?_append,
        getLast?_singleton, Option.some_or, Option.some.injEq, ne_eq, not_true, and_false, or_false]
      exact eq_comm
    · have hne : b ≠ a := fun heq => hab (heq ▸ rfl)
      simp only [filter_cons, hab, decide_false, Bool.false_eq_true, if_false, filter_nil,
        append_nil, hne, false_or, and_iff_left_iff_imp]
      exact fun _ => Ne.symm hab

/-- A write that the batch repeats later, under a key that is present, makes no
    difference. -/
theorem putAll_put {a : α} {as l : List α} (ha : key a ∈ as.map key) (hl : key a ∈ l.map key) :
    putAll key as (put key a l) = putAll key as l := by
  induction as generalizing l with
  | nil => exact absurd ha not_mem_nil
  | cons b as ih =>
    rw [putAll_cons, putAll_cons]
    by_cases hab : key a = key b
    · -- the batch's first write is the repetition
      rw [put_put_self key hab]
    · have hmem : key a ∈ as.map key := by
        cases mem_cons.mp (map_cons ▸ ha) with
        | inl heq => exact absurd heq hab
        | inr hmem => exact hmem
      rw [← put_put_comm key hab hl, ih hmem ((mem_map_key_put key).mpr (Or.inl hl))]

/-- A write under a key the batch does not touch commutes with it once the batch's keys are
    present. -/
theorem putAll_put_comm {a : α} {as l : List α} (ha : key a ∉ as.map key)
    (hl : ∀ b ∈ as, key b ∈ l.map key) :
    putAll key as (put key a l) = put key a (putAll key as l) := by
  induction as generalizing l with
  | nil => rfl
  | cons b as ih =>
    rw [map_cons, mem_cons, not_or] at ha
    rw [putAll_cons, putAll_cons, put_put_comm key (Ne.symm ha.1) (hl b mem_cons_self)]
    exact ih ha.2 fun c hc =>
      (mem_map_key_put key).mpr (Or.inl (hl c (mem_cons_of_mem b hc)))

/-- Writing a batch twice is writing it once. -/
theorem putAll_idem (as l : List α) : putAll key as (putAll key as l) = putAll key as l := by
  -- on the batch's last write
  induction as using List.reverseRecOn with
  | nil => rfl
  | append_singleton as a ih =>
    rw [putAll_concat key as a l, putAll_concat]
    by_cases ha : key a ∈ as.map key
    · -- the batch writes this key before: the earlier run's last write is overwritten
      have hpresent : key a ∈ (putAll key as l).map key :=
        (mem_map_key_putAll key).mpr (Or.inr ha)
      rw [putAll_put key ha hpresent, ih]
    · -- a key of its own: move its write behind the batch
      have hpresent : ∀ b ∈ as, key b ∈ (putAll key as l).map key :=
        fun b hb => (mem_map_key_putAll key).mpr (Or.inr (mem_map_of_mem hb))
      rw [putAll_put_comm key ha hpresent, ih, put_put_self key rfl]

/-- A batch wipes out an earlier partial run of itself. -/
theorem putAll_putAll_of_prefix {as bs : List α} (h : as <+: bs) (l : List α) :
    putAll key bs (putAll key as l) = putAll key bs l := by
  obtain ⟨cs, rfl⟩ := h
  rw [putAll_append, putAll_append, putAll_idem]

end Put

end List
