import Mathlib

/-!
# Texts that can be read back

Printing is injective where whoever reads the text can tell at every point which value was
printed and where its text ends. `ReadsBack` says so of two values, whatever follows them,
and is established part by part: for characters written by a prefix code, for runs of
characters that stop at another one, and for lists with separators and a closing bracket.

## Key results

- `PrefixCode.flatMap_append_inj`: a text written character by character, up to its end mark
- `List.append_inj_of_forall`: a run of characters of one kind ends where another kind begins
- `closed_inj`, `enclosed_inj`: separated lists up to their closing bracket
-/

/-- No code word begins with another one, and none is empty. -/
structure PrefixCode {α γ : Type*} (code : α → List γ) : Prop where
  ne_nil : ∀ a, code a ≠ []
  inj : ∀ a b r r', code a ++ r = code b ++ r' → a = b

namespace PrefixCode

variable {α γ : Type*} {code : α → List γ} (h : PrefixCode code)
include h

/-- Texts written by a prefix code are read back up to a rest that does not go on with a code
    word. -/
theorem flatMap_append_inj {l l' : List α} {r r' : List γ} (hr : ∀ a s, r ≠ code a ++ s)
    (hr' : ∀ a s, r' ≠ code a ++ s) (heq : l.flatMap code ++ r = l'.flatMap code ++ r') :
    l = l' ∧ r = r' := by
  induction l generalizing l' with
  | nil =>
    cases l' with
    | nil => exact ⟨rfl, heq⟩
    | cons b l' =>
      rw [List.flatMap_cons, List.append_assoc] at heq
      exact absurd heq (hr b _)
  | cons a l ih =>
    cases l' with
    | nil =>
      rw [List.flatMap_cons, List.append_assoc] at heq
      exact absurd heq.symm (hr' a _)
    | cons b l' =>
      rw [List.flatMap_cons, List.flatMap_cons, List.append_assoc, List.append_assoc] at heq
      have hab := h.inj a b _ _ heq
      subst hab
      obtain ⟨rfl, rfl⟩ := ih (List.append_cancel_left heq)
      exact ⟨rfl, rfl⟩

/-- Texts written by a prefix code are different texts. -/
theorem flatMap_injective : Function.Injective fun l : List α => l.flatMap code := by
  have hnil : ∀ a s, ([] : List γ) ≠ code a ++ s :=
    fun a s heq => h.ne_nil a (List.append_eq_nil_iff.mp heq.symm).1
  intro l l' heq
  have heq' : l.flatMap code ++ [] = l'.flatMap code ++ [] := congrArg (· ++ []) heq
  exact (h.flatMap_append_inj hnil hnil heq').1

end PrefixCode

namespace List

variable {γ : Type*}

/-- A run of one kind of entries ends where the rest begins, if the rest begins with another
    kind. -/
theorem append_inj_of_forall {p : γ → Prop} {a b r r' : List γ} (ha : ∀ c ∈ a, p c)
    (hb : ∀ c ∈ b, p c) (hr : ∀ c ∈ r.head?, ¬ p c) (hr' : ∀ c ∈ r'.head?, ¬ p c)
    (heq : a ++ r = b ++ r') : a = b ∧ r = r' := by
  induction a generalizing b with
  | nil =>
    cases b with
    | nil => exact ⟨rfl, heq⟩
    | cons c b =>
      rw [nil_append, cons_append] at heq
      exact absurd (hb c mem_cons_self) (hr c (by rw [heq]; rfl))
  | cons c a ih =>
    cases b with
    | nil =>
      rw [nil_append, cons_append] at heq
      exact absurd (ha c mem_cons_self) (hr' c (by rw [← heq]; rfl))
    | cons c' b =>
      rw [cons_append, cons_append, cons.injEq] at heq
      obtain ⟨rfl, heq⟩ := heq
      obtain ⟨rfl, rfl⟩ := ih (fun c hc => ha c (mem_cons_of_mem _ hc))
        (fun c hc => hb c (mem_cons_of_mem _ hc)) heq
      exact ⟨rfl, rfl⟩

end List

section ReadsBack

variable {α γ : Type*}

/-- Whatever comes after them, as long as it may (`Stop`), the texts of two values are told
    apart unless the values are one, and end in one place. -/
def ReadsBack (Stop : List γ → Prop) (text : α → List γ) (a b : α) : Prop :=
  ∀ r r', Stop r → Stop r' → text a ++ r = text b ++ r' → a = b ∧ r = r'

/-- The entries after the first one, each with a separator before it, and the bracket. -/
def closed (text : α → List γ) (sep close : γ) : List α → List γ
  | [] => [close]
  | a :: l => sep :: (text a ++ closed text sep close l)

/-- The entries with separators between them, and the closing bracket. -/
def enclosed (text : α → List γ) (sep close : γ) : List α → List γ
  | [] => [close]
  | a :: l => text a ++ closed text sep close l

variable {text : α → List γ} {sep close : γ}

theorem intercalate_append_close (l : List α) :
    [sep].intercalate (l.map text) ++ [close] = enclosed text sep close l := by
  cases l with
  | nil => rfl
  | cons a l =>
    show [sep].intercalate (text a :: l.map text) ++ [close] = text a ++ closed text sep close l
    induction l generalizing a with
    | nil => rw [List.map_nil, List.intercalate_singleton, closed]
    | cons b l ih =>
      rw [List.map_cons, List.intercalate_cons_cons, List.append_assoc, ih b, closed,
        List.append_assoc, List.singleton_append]

variable {Stop : List γ → Prop} (hne : sep ≠ close) (hsep : ∀ r, Stop (sep :: r))
  (hclose : ∀ r, Stop (close :: r))
include hne hsep hclose

/-- A list of entries that are read back is read back, up to its bracket. -/
theorem closed_inj {l l' : List α} {r r' : List γ}
    (hread : ∀ a ∈ l, ∀ b ∈ l', ReadsBack Stop text a b)
    (heq : closed text sep close l ++ r = closed text sep close l' ++ r') : l = l' ∧ r = r' := by
  have hstop : ∀ (l : List α) r, Stop (closed text sep close l ++ r) := by
    intro l r
    cases l with
    | nil => exact hclose r
    | cons a l => exact hsep _
  induction l generalizing l' with
  | nil =>
    cases l' with
    | nil => exact ⟨rfl, (List.cons.inj heq).2⟩
    | cons b l' => exact absurd (List.cons.inj heq).1.symm hne
  | cons a l ih =>
    cases l' with
    | nil => exact absurd (List.cons.inj heq).1 hne
    | cons b l' =>
      rw [closed, closed, List.cons_append, List.cons_append, List.append_assoc,
        List.append_assoc] at heq
      -- the first entry, then the others by induction
      obtain ⟨rfl, hrest⟩ := hread a List.mem_cons_self b List.mem_cons_self _ _
        (hstop l r) (hstop l' r') (List.cons.inj heq).2
      obtain ⟨rfl, rfl⟩ := ih (fun a ha b hb => hread a (List.mem_cons_of_mem _ ha) b
        (List.mem_cons_of_mem _ hb)) hrest
      exact ⟨rfl, rfl⟩

/-- The same from the opening bracket on, if no entry begins like the closing one. -/
theorem enclosed_inj {l l' : List α} {r r' : List γ}
    (hread : ∀ a ∈ l, ∀ b ∈ l', ReadsBack Stop text a b)
    (hl : ∀ a ∈ l, ∀ s s', text a ++ s ≠ close :: s')
    (hl' : ∀ a ∈ l', ∀ s s', text a ++ s ≠ close :: s')
    (heq : enclosed text sep close l ++ r = enclosed text sep close l' ++ r') :
    l = l' ∧ r = r' := by
  cases l with
  | nil =>
    cases l' with
    | nil => exact ⟨rfl, (List.cons.inj heq).2⟩
    | cons b l' =>
      rw [enclosed, enclosed, List.append_assoc] at heq
      exact absurd heq.symm (hl' b List.mem_cons_self _ _)
  | cons a l =>
    cases l' with
    | nil =>
      rw [enclosed, enclosed, List.append_assoc] at heq
      exact absurd heq (hl a List.mem_cons_self _ _)
    | cons b l' =>
      -- one separator more, and it is a closed list
      have hcons : closed text sep close (a :: l) ++ r = closed text sep close (b :: l') ++ r' :=
        congrArg (sep :: ·) heq
      exact closed_inj hne hsep hclose hread hcons

end ReadsBack
