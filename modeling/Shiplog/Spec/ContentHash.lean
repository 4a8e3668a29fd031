import Shiplog.Spec.IngestCorrect
import Shiplog.Spec.JsonText

/-!
# Content hashes

`contentHash` compares contents by the JSON text of their canonical form. Contents are one
to it exactly if they differ in nothing but the order of keys, at any depth, and dates that
stand as themselves in the one and as their ISO strings in the other.

## Key results

- `JsVal.IsContent.isCanonical_form`, `JsVal.IsCanonical.canonicalize_eq`: `canonicalize`
  leaves canonical values, and leaves them alone
- `JsVal.IsContent.reordered_form`: it only orders keys and writes out dates
- `JsVal.Reordered.form_eq`: the order of keys before does not matter
- `contentText_eq_iff`: one text, and one hash, for the same content and for no other
-/

namespace Shiplog

/-! ## Contents -/

/-- A value of null, booleans, integers, strings, valid dates, arrays and objects with
    distinct own keys. -/
inductive JsVal.IsContent : JsVal → Prop where
  | null : IsContent .null
  | bool (b : Bool) : IsContent (.bool b)
  | int (n : Int) : IsContent (.num n)
  | str (s : String) : IsContent (.str s)
  | date (ms : Int) : IsContent (.date (some ms))
  | arr {xs : List JsVal} (hxs : ∀ x ∈ xs, IsContent x) : IsContent (.arr xs)
  | obj {fs : List (String × JsVal)} (hkeys : (fs.map Prod.fst).Nodup)
      (hproto : "__proto__" ∉ fs.map Prod.fst) (hfs : ∀ f ∈ fs, IsContent f.2) :
      IsContent (.obj fs)

/-- The value reached by putting the keys of objects, at any depth, in another order. -/
inductive JsVal.Reordered : JsVal → JsVal → Prop where
  | refl (v : JsVal) : Reordered v v
  | trans {u v w : JsVal} (huv : Reordered u v) (hvw : Reordered v w) : Reordered u w
  | keys {fs gs : List (String × JsVal)} (h : fs.Perm gs) : Reordered (.obj fs) (.obj gs)
  | item (xs ys : List JsVal) {v w : JsVal} (h : Reordered v w) :
      Reordered (.arr (xs ++ v :: ys)) (.arr (xs ++ w :: ys))
  | member (fs gs : List (String × JsVal)) (key : String) {v w : JsVal} (h : Reordered v w) :
      Reordered (.obj (fs ++ (key, v) :: gs)) (.obj (fs ++ (key, w) :: gs))

mutual

/-- Every date replaced by its ISO string. -/
def isoDates : JsVal → JsVal
  | .date (some ms) => .str (toISOString ms)
  | .arr xs => .arr (isoDatesItems xs)
  | .obj fs => .obj (isoDatesFields fs)
  | v => v

def isoDatesItems : List JsVal → List JsVal
  | [] => []
  | x :: xs => isoDates x :: isoDatesItems xs

def isoDatesFields : List (String × JsVal) → List (String × JsVal)
  | [] => []
  | (key, v) :: fs => (key, isoDates v) :: isoDatesFields fs

end

/-- The same content: equal once dates are replaced by their ISO strings, whatever the order
    of keys. -/
def SameContent (a b : JsVal) : Prop := (isoDates a).Reordered (isoDates b)

private theorem isoDatesItems_eq (xs : List JsVal) : isoDatesItems xs = xs.map isoDates := by
  induction xs with
  | nil => rfl
  | cons x xs ih => rw [isoDatesItems, ih, List.map_cons]

private theorem isoDatesFields_eq (fs : List (String × JsVal)) :
    isoDatesFields fs = fs.map fun f => (f.1, isoDates f.2) := by
  induction fs with
  | nil => rfl
  | cons f fs ih => rw [isoDatesFields, ih, List.map_cons]

namespace JsVal.Reordered

theorem symm {v w : JsVal} (h : v.Reordered w) : w.Reordered v := by
  induction h with
  | refl v => exact .refl v
  | trans _ _ ihuv ihvw => exact ihvw.trans ihuv
  | keys h => exact .keys h.symm
  | item xs ys _ ih => exact .item xs ys ih
  | member fs gs key _ ih => exact .member fs gs key ih

/-- Items reordered one after another. -/
theorem arr {f g : JsVal → JsVal} {xs : List JsVal} (h : ∀ x ∈ xs, (f x).Reordered (g x)) :
    (JsVal.arr (xs.map f)).Reordered (.arr (xs.map g)) := by
  suffices hrest : ∀ pre : List JsVal,
      (JsVal.arr (pre ++ xs.map f)).Reordered (.arr (pre ++ xs.map g)) from hrest []
  induction xs with
  | nil => exact fun pre => .refl _
  | cons x xs ih =>
    intro pre
    obtain ⟨hx, hxs⟩ := List.forall_mem_cons.mp h
    have hrest := ih hxs (pre ++ [g x])
    rw [List.append_assoc, List.append_assoc] at hrest
    exact (Reordered.item pre (xs.map f) hx).trans hrest

/-- Members reordered one after another, each under its key. -/
theorem obj {f g : JsVal → JsVal} {fs : List (String × JsVal)}
    (h : ∀ x ∈ fs, (f x.2).Reordered (g x.2)) :
    (JsVal.obj (fs.map fun x => (x.1, f x.2))).Reordered
      (.obj (fs.map fun x => (x.1, g x.2))) := by
  suffices hrest : ∀ pre : List (String × JsVal),
      (JsVal.obj (pre ++ fs.map fun x => (x.1, f x.2))).Reordered
        (.obj (pre ++ fs.map fun x => (x.1, g x.2))) from hrest []
  induction fs with
  | nil => exact fun pre => .refl _
  | cons x fs ih =>
    intro pre
    obtain ⟨hx, hfs⟩ := List.forall_mem_cons.mp h
    have hrest := ih hfs (pre ++ [(x.1, g x.2)])
    rw [List.append_assoc, List.append_assoc] at hrest
    exact (Reordered.member pre (fs.map fun y : String × JsVal => (y.1, f y.2)) x.1 hx).trans hrest

end JsVal.Reordered

/-! ## The canonical form -/

/-- What `canonicalize` returns, where it returns. -/
def JsVal.form (rt : Runtime) (v : JsVal) : JsVal :=
  match canonicalize rt v with
  | .ok w => w
  | .error _ => .undefined

section Form

variable {rt : Runtime}

theorem form_eq {v w : JsVal} (h : canonicalize rt v = .ok w) : v.form rt = w := by
  unfold JsVal.form
  rw [h]

private theorem canonicalizeItems_ok {xs : List JsVal}
    (h : ∀ x ∈ xs, canonicalize rt x = .ok (x.form rt)) :
    canonicalizeItems rt xs = .ok (xs.map (JsVal.form rt)) := by
  induction xs with
  | nil => rfl
  | cons x xs ih =>
    obtain ⟨hx, hxs⟩ := List.forall_mem_cons.mp h
    rw [canonicalizeItems, hx, ih hxs]
    rfl

private theorem canonicalizeFields_ok {fs : List (String × JsVal)}
    (hproto : "__proto__" ∉ fs.map Prod.fst)
    (h : ∀ f ∈ fs, canonicalize rt f.2 = .ok (f.2.form rt)) :
    canonicalizeFields rt fs = .ok (fs.map fun f => (f.1, f.2.form rt)) := by
  induction fs with
  | nil => rfl
  | cons f fs ih =>
    obtain ⟨key, v⟩ := f
    obtain ⟨hv, hfs⟩ := List.forall_mem_cons.mp h
    rw [List.map_cons, List.mem_cons, not_or] at hproto
    rw [canonicalizeFields, hv, ih hproto.2 hfs]
    simp only [if_neg (Ne.symm hproto.1), List.map_cons]

private theorem canonicalize_arr {xs : List JsVal}
    (h : ∀ x ∈ xs, canonicalize rt x = .ok (x.form rt)) :
    canonicalize rt (.arr xs) = .ok (.arr (xs.map (JsVal.form rt))) := by
  rw [canonicalize, canonicalizeItems_ok h]

/-- The members of an object in the order of their keys. -/
def sortKeys (fs : List (String × JsVal)) : List (String × JsVal) :=
  fs.insertionSort KeyLe

private theorem canonicalize_obj {fs : List (String × JsVal)}
    (hproto : "__proto__" ∉ fs.map Prod.fst)
    (h : ∀ f ∈ fs, canonicalize rt f.2 = .ok (f.2.form rt)) :
    canonicalize rt (.obj fs) = .ok (.obj (sortKeys (fs.map fun f => (f.1, f.2.form rt)))) := by
  rw [canonicalize, canonicalizeFields_ok hproto h]
  rfl

/-! ### Contents have one -/

instance : Std.Total (@KeyLe JsVal) := ⟨fun f g => jsStrLe_total f.1 g.1⟩

instance : IsTrans (String × JsVal) KeyLe := ⟨fun _ _ _ hfg hgh => jsStrLe_trans hfg hgh⟩

private theorem sortKeys_perm (fs : List (String × JsVal)) : (sortKeys fs).Perm fs :=
  List.perm_insertionSort KeyLe fs

/-- Two orders of members under distinct keys are sorted alike. -/
private theorem sortKeys_eq_of_perm {fs gs : List (String × JsVal)}
    (hkeys : (gs.map Prod.fst).Nodup) (h : fs.Perm gs) : sortKeys fs = sortKeys gs := by
  apply eq_of_perm_of_keyLe
  · exact ((sortKeys_perm gs).map Prod.fst).nodup_iff.mpr hkeys
  · exact List.pairwise_insertionSort KeyLe fs
  · exact List.pairwise_insertionSort KeyLe gs
  · exact (sortKeys_perm fs).trans (h.trans (sortKeys_perm gs).symm)

/-- Changing the values changes no key. -/
private theorem map_fst_map (g : JsVal → JsVal) (fs : List (String × JsVal)) :
    (fs.map fun f => (f.1, g f.2)).map Prod.fst = fs.map Prod.fst := by
  rw [List.map_map]
  rfl

namespace JsVal.IsContent

/-- `canonicalize` takes every content. -/
private theorem canonicalize_ok {v : JsVal} (h : v.IsContent) :
    canonicalize rt v = .ok (v.form rt) := by
  induction h with
  | arr hxs ih =>
    have hok := canonicalize_arr ih
    rw [hok, form_eq hok]
  | obj hkeys hproto hfs ih =>
    have hok := canonicalize_obj hproto ih
    rw [hok, form_eq hok]
  | _ => rfl

private theorem form_arr {xs : List JsVal} (h : ∀ x ∈ xs, x.IsContent) :
    (JsVal.arr xs).form rt = .arr (xs.map (JsVal.form rt)) :=
  form_eq (canonicalize_arr fun x hx => (h x hx).canonicalize_ok)

private theorem form_obj {fs : List (String × JsVal)} (hproto : "__proto__" ∉ fs.map Prod.fst)
    (h : ∀ f ∈ fs, f.2.IsContent) :
    (JsVal.obj fs).form rt = .obj (sortKeys (fs.map fun f => (f.1, f.2.form rt))) :=
  form_eq (canonicalize_obj hproto fun f hf => (h f hf).canonicalize_ok)

/-- What it leaves is canonical. -/
theorem isCanonical_form {v : JsVal} (h : v.IsContent) : (v.form rt).IsCanonical := by
  induction h with
  | null => exact .null
  | bool b => exact .bool b
  | int n => exact .int n
  | str s => exact .str s
  | date ms => exact .str _
  | arr hxs ih =>
    rw [form_arr hxs]
    exact .arr (List.forall_mem_map.mpr ih)
  | @obj fs hkeys hproto hfs ih =>
    rw [form_obj hproto hfs]
    have hperm := sortKeys_perm (fs.map fun f => (f.1, f.2.form rt))
    have hfst := hperm.map Prod.fst
    rw [map_fst_map] at hfst
    apply JsVal.IsCanonical.obj
    · exact hfst.nodup_iff.mpr hkeys
    · exact fun hmem => hproto (hfst.subset hmem)
    · exact List.pairwise_insertionSort KeyLe _
    · intro f hf
      obtain ⟨f₀, hf₀, rfl⟩ := List.mem_map.mp (hperm.subset hf)
      exact ih f₀ hf₀

/-- It only orders keys and writes out dates. -/
theorem reordered_form {v : JsVal} (h : v.IsContent) : (isoDates v).Reordered (v.form rt) := by
  induction h with
  | arr hxs ih =>
    rw [form_arr hxs, isoDates, isoDatesItems_eq]
    exact .arr ih
  | obj hkeys hproto hfs ih =>
    rw [form_obj hproto hfs, isoDates, isoDatesFields_eq]
    exact (Reordered.obj ih).trans (.keys (sortKeys_perm _).symm)
  | _ => exact .refl _

/-- Dates written out beforehand make no difference. -/
private theorem isoDates_form {v : JsVal} (h : v.IsContent) :
    (isoDates v).IsContent ∧ (isoDates v).form rt = v.form rt := by
  induction h with
  | null => exact ⟨.null, rfl⟩
  | bool b => exact ⟨.bool b, rfl⟩
  | int n => exact ⟨.int n, rfl⟩
  | str s => exact ⟨.str s, rfl⟩
  | date ms => exact ⟨.str _, rfl⟩
  | @arr xs hxs ih =>
    have hcontent : ∀ x ∈ xs.map isoDates, x.IsContent :=
      List.forall_mem_map.mpr fun x hx => (ih x hx).1
    rw [isoDates, isoDatesItems_eq]
    refine ⟨.arr hcontent, ?_⟩
    rw [form_arr hcontent, form_arr hxs, List.map_map]
    congr 1
    exact List.map_congr_left fun x hx => (ih x hx).2
  | @obj fs hkeys hproto hfs ih =>
    have hcontent : ∀ f ∈ fs.map fun f => (f.1, isoDates f.2), f.2.IsContent :=
      List.forall_mem_map.mpr fun f hf => (ih f hf).1
    -- keys stay as they are, so the result is content, and sorted alike
    rw [isoDates, isoDatesFields_eq]
    rw [← map_fst_map isoDates] at hkeys hproto
    refine ⟨.obj hkeys hproto hcontent, ?_⟩
    rw [form_obj hproto hcontent]
    rw [map_fst_map] at hproto
    rw [form_obj hproto hfs, List.map_map]
    congr 2
    exact List.map_congr_left fun f hf => Prod.ext rfl (ih f hf).2

end JsVal.IsContent

private theorem JsVal.IsCanonical.isContent {v : JsVal} (h : v.IsCanonical) : v.IsContent := by
  induction h with
  | null => exact .null
  | bool b => exact .bool b
  | int n => exact .int n
  | str s => exact .str s
  | arr hxs ih => exact .arr ih
  | obj hkeys hproto hsorted hfs ih => exact .obj hkeys hproto ih

/-- A canonical value is its own canonical form. -/
private theorem JsVal.IsCanonical.form_self {v : JsVal} (h : v.IsCanonical) : v.form rt = v := by
  induction h with
  | @arr xs hxs ih =>
    rw [IsContent.form_arr fun x hx => (hxs x hx).isContent, List.map_congr_left ih, List.map_id']
  | @obj fs hkeys hproto hsorted hfs ih =>
    have hmap : (fs.map fun f => (f.1, f.2.form rt)) = fs := by
      have hid : ∀ f ∈ fs, (f.1, f.2.form rt) = id f := fun f hf => Prod.ext rfl (ih f hf)
      rw [List.map_congr_left hid, List.map_id]
    rw [IsContent.form_obj hproto fun f hf => (hfs f hf).isContent, hmap]
    congr 1
    exact hsorted.insertionSort_eq
  | _ => rfl

/-- The order of keys before does not matter: reordered contents have one form. -/
theorem JsVal.Reordered.form_eq {v w : JsVal} (h : v.Reordered w) (hv : v.IsContent) :
    w.IsContent ∧ w.form rt = v.form rt := by
  induction h with
  | refl v => exact ⟨hv, rfl⟩
  | trans _ _ ihuv ihvw =>
    obtain ⟨hcontent, hform⟩ := ihuv hv
    obtain ⟨hcontent', hform'⟩ := ihvw hcontent
    exact ⟨hcontent', hform'.trans hform⟩
  -- distinct keys make the sorted order unique
  | @keys fs gs hperm =>
    cases hv with
    | obj hkeys hproto hfs =>
      have hfst := hperm.map Prod.fst
      have hproto' : "__proto__" ∉ gs.map Prod.fst := fun hmem => hproto (hfst.symm.subset hmem)
      have hgs : ∀ g ∈ gs, g.2.IsContent := fun g hg => hfs g (hperm.symm.subset hg)
      refine ⟨.obj (hfst.nodup_iff.mp hkeys) hproto' hgs, ?_⟩
      rw [IsContent.form_obj hproto hfs, IsContent.form_obj hproto' hgs]
      rw [← map_fst_map (JsVal.form rt)] at hkeys
      congr 1
      exact sortKeys_eq_of_perm hkeys (hperm.symm.map _)
  -- one item changes, and the ones around it stay
  | @item xs ys v w _ ih =>
    cases hv with
    | arr hxs =>
      obtain ⟨hbefore, hrest⟩ := List.forall_mem_append.mp hxs
      obtain ⟨hv, hafter⟩ := List.forall_mem_cons.mp hrest
      obtain ⟨hw, hform⟩ := ih hv
      have hxs' := List.forall_mem_append.mpr ⟨hbefore, List.forall_mem_cons.mpr ⟨hw, hafter⟩⟩
      refine ⟨.arr hxs', ?_⟩
      rw [IsContent.form_arr hxs, IsContent.form_arr hxs', List.map_append, List.map_append,
        List.map_cons, List.map_cons, hform]
  | @member fs gs key v w _ ih =>
    cases hv with
    | obj hkeys hproto hfs =>
      obtain ⟨hbefore, hrest⟩ := List.forall_mem_append.mp hfs
      obtain ⟨hv, hafter⟩ := List.forall_mem_cons.mp hrest
      obtain ⟨hw, hform⟩ := ih hv
      have hfs' : ∀ f ∈ fs ++ (key, w) :: gs, f.2.IsContent :=
        List.forall_mem_append.mpr ⟨hbefore, List.forall_mem_cons.mpr ⟨hw, hafter⟩⟩
      have hsame : (fs ++ (key, w) :: gs).map Prod.fst = (fs ++ (key, v) :: gs).map Prod.fst := by
        rw [List.map_append, List.map_append, List.map_cons, List.map_cons]
      rw [← hsame] at hkeys
      refine ⟨.obj hkeys (hsame ▸ hproto) hfs', ?_⟩
      rw [IsContent.form_obj hproto hfs, IsContent.form_obj (hsame ▸ hproto) hfs',
        List.map_append, List.map_append, List.map_cons, List.map_cons, hform]

/-! ## The same content -/

/-- Two contents have one canonical form exactly if they are the same content. -/
private theorem form_eq_iff {a b : JsVal} (ha : a.IsContent) (hb : b.IsContent) :
    a.form rt = b.form rt ↔ SameContent a b := by
  constructor
  · intro h
    have hform : (isoDates a).Reordered (b.form rt) := h ▸ ha.reordered_form
    exact hform.trans hb.reordered_form.symm
  · intro h
    obtain ⟨hcontent, hform⟩ := @JsVal.IsContent.isoDates_form rt a ha
    rw [← hform, ← hb.isoDates_form.2]
    exact (JsVal.Reordered.form_eq h hcontent).2.symm

theorem contentHash_eq {a : JsVal} (h : a.IsContent) :
    contentHash rt a = .ok (rt.sha256Hex ((a.form rt).print rt)) := by
  unfold contentHash
  rw [h.canonicalize_ok]
  simp only
  rw [jsonText_eq_some rt h.isCanonical_form.ne_undefined]

end Form

/-- **The content text is a canonical form.** For any two contents `canonicalize` returns, and
    returns the same when applied to what it returned; the JSON texts of what it returns are
    equal exactly if the contents become equal after every date is replaced by its ISO string
    and the order of keys is disregarded; and so are, without collisions of SHA-256, the two
    content hashes. -/
theorem contentText_eq_iff (rt : Runtime) (hnum : rt.PrintsIntegers) {a b : JsVal}
    (ha : a.IsContent) (hb : b.IsContent) :
    ∃ v w, canonicalize rt a = .ok v ∧ canonicalize rt b = .ok w ∧
      canonicalize rt v = .ok v ∧
      (jsonText rt v = jsonText rt w ↔ SameContent a b) ∧
      (Function.Injective rt.sha256Hex →
        (contentHash rt a = contentHash rt b ↔ SameContent a b)) := by
  have hva := @JsVal.IsContent.isCanonical_form rt a ha
  have hvb := @JsVal.IsContent.isCanonical_form rt b hb
  have htext : jsonText rt (a.form rt) = jsonText rt (b.form rt) ↔ SameContent a b := by
    rw [← @form_eq_iff rt a b ha hb]
    exact ⟨hva.eq_of_jsonText_eq hnum hvb, fun h => h ▸ rfl⟩
  refine ⟨_, _, ha.canonicalize_ok, hb.canonicalize_ok, ?_, htext, fun hsha => ?_⟩
  · rw [hva.isContent.canonicalize_ok, hva.form_self]
  · rw [contentHash_eq ha, contentHash_eq hb, ← htext, Except.ok.injEq, hsha.eq_iff,
      jsonText_eq_some rt hva.ne_undefined, jsonText_eq_some rt hvb.ne_undefined,
      Option.some.injEq]

/-! ## Members in another order -/

/-- The text of an integer: digits, and a sign before those of a negative one. -/
private theorem toList_repr_cases (n : Int) :
    ∃ k, n.repr.toList = Nat.toDigits 10 k ∨ n.repr.toList = '-' :: Nat.toDigits 10 k := by
  cases n with
  | ofNat m => exact ⟨m, Or.inl Nat.toList_repr⟩
  | negSucc m =>
    refine ⟨m + 1, Or.inr ?_⟩
    show ("-" ++ (m + 1).repr).toList = _
    rw [String.toList_append, Nat.toList_repr]
    rfl

theorem hexRuntime_printsIntegers : hexRuntime.PrintsIntegers := by
  -- it prints the numerator, and that of an integer is the integer
  have hprint : ∀ n : Int, hexRuntime.numToString n = n.repr := by
    intro n
    show toString (n : Rat).num = n.repr
    rw [Rat.num_intCast]
    rfl
  have hdigit : ∀ k, ∀ c ∈ Nat.toDigits 10 k, isNumberChar c = true := by
    intro k c hc
    unfold isNumberChar
    rw [Nat.isDigit_of_mem_toDigits (by decide) (by decide) hc]
    rfl
  constructor
  · intro m n h
    rw [hprint, hprint] at h
    exact Int.repr_injective h
  · intro n hempty
    rw [hprint, ← String.toList_eq_nil_iff] at hempty
    obtain ⟨k, hk | hk⟩ := toList_repr_cases n
    · exact Nat.toDigits_ne_nil (hk.symm.trans hempty)
    · exact List.cons_ne_nil _ _ (hk.symm.trans hempty)
  · intro n
    rw [hprint]
    obtain ⟨k, hk | hk⟩ := toList_repr_cases n
    · rw [hk]
      exact hdigit k
    · rw [hk]
      exact List.forall_mem_cons.mpr ⟨by decide, hdigit k⟩

/-- A content with a date, and one with its ISO string and the keys the other way round. -/
def datedContent : JsVal := .obj [("occurredAt", .date (some 0)), ("count", .num 2)]

def writtenContent : JsVal := .obj [("count", .num 2), ("occurredAt", .str (toISOString 0))]

theorem contentText_eq_iff_dated :
    contentHash hexRuntime datedContent = contentHash hexRuntime writtenContent := by
  have hdated : datedContent.IsContent := by
    refine .obj (by decide) (by decide) fun f hf => ?_
    rcases List.mem_pair.mp hf with rfl | rfl
    · exact .date 0
    · exact .int 2
  have hwritten : writtenContent.IsContent := by
    refine .obj (by decide) (by decide) fun f hf => ?_
    rcases List.mem_pair.mp hf with rfl | rfl
    · exact .int 2
    · exact .str _
  obtain ⟨v, w, -, -, -, -, hhash⟩ :=
    contentText_eq_iff hexRuntime hexRuntime_printsIntegers hdated hwritten
  exact (hhash Hex.ofText_injective).mpr (.keys (List.Perm.swap _ _ _))

end Shiplog
