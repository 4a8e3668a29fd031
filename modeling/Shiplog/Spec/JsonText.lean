import Shiplog.ForStd.Readable
import Shiplog.Native.Hash

/-!
# Reading JSON text back

`JSON.stringify` tells canonical values apart: keys and strings by their escapes, numbers by
their digits, arrays and objects by their separators and brackets. Objects come in one
order of keys, that of `canonicalize`, which the enumeration order of the text only permutes.

## Key results

- `jsonChar_prefixCode`, `utf16_prefixCode`: no escape and no code unit sequence begins with
  another one
- `jsStrLe_antisymm` and its siblings: the order of keys is linear
- `JsVal.IsCanonical.readsBack`: a canonical value is read back from its text, whatever
  follows
- `JsVal.IsCanonical.eq_of_jsonText_eq`: two canonical values with one text are one value
-/

namespace Shiplog

/-! ## The order of keys -/

/-- A character is told from its UTF-16 code units: surrogates are no characters. -/
theorem utf16_prefixCode : PrefixCode fun c : Char =>
    if c.toNat < 0x10000 then [c.toNat]
    else [0xD800 + (c.toNat - 0x10000) / 0x400, 0xDC00 + (c.toNat - 0x10000) % 0x400] where
  ne_nil c := by split <;> simp
  inj c d r r' h := by
    have hc : c.toNat < 0xD800 ∨ 0xDFFF < c.toNat ∧ c.toNat < 0x110000 := c.valid
    have hd : d.toNat < 0xD800 ∨ 0xDFFF < d.toNat ∧ d.toNat < 0x110000 := d.valid
    apply Char.toNat_inj.mp
    split at h <;> split at h <;> simp at h <;> omega

theorem utf16_injective : Function.Injective utf16 := by
  intro s t h
  exact String.toList_inj.mp (utf16_prefixCode.flatMap_injective h)

theorem jsStrLe_total (a b : String) : jsStrLe a b = true ∨ jsStrLe b a = true := by
  simp only [jsStrLe, decide_eq_true_eq]
  exact le_total _ _

theorem jsStrLe_trans {a b c : String} (hab : jsStrLe a b = true) (hbc : jsStrLe b c = true) :
    jsStrLe a c = true := by
  simp only [jsStrLe, decide_eq_true_eq] at hab hbc ⊢
  exact le_trans hab hbc

theorem jsStrLe_antisymm {a b : String} (hab : jsStrLe a b = true) (hba : jsStrLe b a = true) :
    a = b := by
  simp only [jsStrLe, decide_eq_true_eq] at hab hba
  exact utf16_injective (le_antisymm hab hba)

section Keys

variable {β : Type}

/-- `Object.keys(value).sort()` on members with their values. -/
abbrev KeyLe (f g : String × β) : Prop := jsStrLe f.1 g.1 = true

/-- Members in the order of their keys, no two under one key, are in that order only. -/
theorem eq_of_perm_of_keyLe {fs gs : List (String × β)} (hkeys : (gs.map Prod.fst).Nodup)
    (hf : fs.Pairwise KeyLe) (hg : gs.Pairwise KeyLe) (h : fs.Perm gs) : fs = gs := by
  apply h.eq_of_pairwise _ hf hg
  intro f g hf hg hle hge
  exact List.inj_on_of_nodup_map hkeys (h.subset hf) hg (jsStrLe_antisymm hle hge)

/-- Enumeration goes through all members. -/
theorem ownOrder_perm (fs : List (String × β)) : (ownOrder fs).Perm fs := by
  unfold ownOrder
  have hsplit := List.filter_append_perm (fun f : String × β => (arrayIndex? f.1).isSome) fs
  simp only [Option.not_isSome] at hsplit
  exact ((List.perm_insertionSort _ _).append_right _).trans hsplit

/-- The order goes by the keys. -/
theorem ownOrder_map {γ : Type} (g : β → γ) (fs : List (String × β)) :
    ownOrder (fs.map fun f => (f.1, g f.2)) = (ownOrder fs).map fun f => (f.1, g f.2) := by
  unfold ownOrder
  rw [List.map_append, List.filter_map, List.filter_map]
  congr 1
  exact (List.map_insertionSort
    (fun f g : String × β => (arrayIndex? f.1).getD 0 ≤ (arrayIndex? g.1).getD 0)
    (fun f g : String × γ => (arrayIndex? f.1).getD 0 ≤ (arrayIndex? g.1).getD 0)
    (fun f => (f.1, g f.2)) (fs.filter fun f => (arrayIndex? f.1).isSome)
    fun a _ b _ => Iff.rfl).symm

end Keys

/-! ## String literals -/

/-- The characters that a string literal escapes. -/
def escaped : List Char := '"' :: '\\' :: (List.range 32).map Char.ofNat

private theorem mem_escaped_of_lt {c : Char} (h : c.toNat < 0x20) : c ∈ escaped := by
  apply List.mem_cons_of_mem
  apply List.mem_cons_of_mem
  exact List.mem_map.mpr ⟨c.toNat, List.mem_range.mpr h, Char.ofNat_toNat c⟩

private theorem quote_mem_escaped : '"' ∈ escaped := List.mem_cons_self

private theorem backslash_mem_escaped : '\\' ∈ escaped := List.mem_cons_of_mem _ List.mem_cons_self

/-- An escape begins with a backslash. -/
private theorem jsonChar_of_mem {c : Char} (h : c ∈ escaped) :
    ∃ s, (jsonChar c).toList = '\\' :: s := by
  have hall : escaped.all (fun c => (jsonChar c).toList.head? = some '\\') = true := by decide
  have hhead := of_decide_eq_true (List.all_eq_true.mp hall c h)
  exact ⟨_, (List.cons_head?_tail hhead).symm⟩

/-- Any other character stands for itself. -/
private theorem jsonChar_of_notMem {c : Char} (h : c ∉ escaped) : (jsonChar c).toList = [c] := by
  have hquote : c ≠ '"' := fun heq => h (heq ▸ quote_mem_escaped)
  have hback : c ≠ '\\' := fun heq => h (heq ▸ backslash_mem_escaped)
  have hprint : ¬ c.toNat < 0x20 := fun hlt => h (mem_escaped_of_lt hlt)
  have hne : c.toNat ≠ 8 ∧ c.toNat ≠ 9 ∧ c.toNat ≠ 10 ∧ c.toNat ≠ 12 ∧ c.toNat ≠ 13 := by omega
  unfold jsonChar
  rw [if_neg hquote, if_neg hback, if_neg hne.1, if_neg hne.2.1, if_neg hne.2.2.1,
    if_neg hne.2.2.2.1, if_neg hne.2.2.2.2, if_neg hprint, Char.toString_eq_singleton,
    String.toList_singleton]

/-- Neither of two escapes begins with the other one. -/
def EscapesApart (c d : Char) : Prop :=
  ¬ (jsonChar c).toList <+: (jsonChar d).toList ∧ ¬ (jsonChar d).toList <+: (jsonChar c).toList

instance : DecidableRel EscapesApart := fun _ _ => inferInstanceAs (Decidable (_ ∧ _))

instance : Std.Symm EscapesApart := ⟨fun _ _ h => ⟨h.2, h.1⟩⟩

private theorem escaped_apart : escaped.Pairwise EscapesApart := by decide +kernel

/-- The first character of what a character is written as. -/
def jsonLead (c : Char) : Char := if c ∈ escaped then '\\' else c

theorem jsonChar_lead (c : Char) : ∃ s, (jsonChar c).toList = jsonLead c :: s := by
  unfold jsonLead
  split
  · next h => exact jsonChar_of_mem h
  · next h => exact ⟨[], jsonChar_of_notMem h⟩

/-- It is no quote: a literal goes on up to the closing one. -/
private theorem jsonLead_ne_quote (c : Char) : jsonLead c ≠ '"' := by
  unfold jsonLead
  split
  · decide
  · next h => exact fun heq => h (heq ▸ quote_mem_escaped)

/-- A character is told from its place in a string literal. -/
theorem jsonChar_prefixCode : PrefixCode fun c => (jsonChar c).toList where
  ne_nil c := by
    obtain ⟨s, hs⟩ := jsonChar_lead c
    rw [hs]
    exact List.cons_ne_nil _ _
  inj c d r r' h := by
    obtain ⟨s, hs⟩ := jsonChar_lead c
    obtain ⟨s', hs'⟩ := jsonChar_lead d
    have hlead : jsonLead c = jsonLead d := by
      simp only [hs, hs', List.cons_append, List.cons.injEq] at h
      exact h.1
    by_cases hc : c ∈ escaped
    · by_cases hd : d ∈ escaped
      · -- two escapes at the same place: one begins with the other
        by_contra hne
        have hapart := escaped_apart.forall hc hd hne
        have hinitial : (jsonChar c).toList <+: (jsonChar d).toList ++ r' := ⟨r, h⟩
        cases List.prefix_or_prefix_of_prefix hinitial (List.prefix_append _ _) with
        | inl hcd => exact hapart.1 hcd
        | inr hdc => exact hapart.2 hdc
      · rw [jsonLead, jsonLead, if_pos hc, if_neg hd] at hlead
        exact absurd (hlead ▸ backslash_mem_escaped) hd
    · by_cases hd : d ∈ escaped
      · rw [jsonLead, jsonLead, if_neg hc, if_pos hd] at hlead
        exact absurd (hlead ▸ backslash_mem_escaped) hc
      · rw [jsonLead, jsonLead, if_neg hc, if_neg hd] at hlead
        exact hlead

theorem toList_jsonQuote (s : String) : (jsonQuote s).toList =
    '"' :: (s.toList.flatMap (fun c => (jsonChar c).toList) ++ ['"']) := by
  unfold jsonQuote
  simp only [String.toList_append, String.toList_join, List.flatMap_map]
  rfl

/-- A string is read back from its literal, whatever follows. -/
theorem jsonQuote_inj {s t : String} {r r' : List Char}
    (h : (jsonQuote s).toList ++ r = (jsonQuote t).toList ++ r') : s = t ∧ r = r' := by
  have hend : ∀ (r : List Char) c s, '"' :: r ≠ (jsonChar c).toList ++ s := by
    intro r c s heq
    obtain ⟨s', hs'⟩ := jsonChar_lead c
    rw [hs'] at heq
    exact jsonLead_ne_quote c (List.cons.inj heq).1.symm
  rw [toList_jsonQuote, toList_jsonQuote, List.cons_append, List.cons_append, List.append_assoc,
    List.append_assoc] at h
  obtain ⟨hst, hr⟩ := jsonChar_prefixCode.flatMap_append_inj (hend r) (hend r')
    (List.cons.inj h).2
  exact ⟨String.toList_inj.mp hst, (List.cons.inj hr).2⟩

/-! ## Numbers -/

/-- The characters of a number's text. -/
def isNumberChar (c : Char) : Bool :=
  c.isDigit || c = '-' || c = '+' || c = '.' || c = 'e'

/-- The engine prints an integer as digits, signs, a point and an exponent, and no two alike. -/
structure Runtime.PrintsIntegers (rt : Runtime) : Prop where
  injective : ∀ m n : Int, rt.numToString m = rt.numToString n → m = n
  ne_empty : ∀ n : Int, rt.numToString n ≠ ""
  chars : ∀ n : Int, ∀ c ∈ (rt.numToString n).toList, isNumberChar c = true

/-- What may follow a value: the end, or anything that does not carry on a number. -/
def EndsNumber (r : List Char) : Prop := ∀ c ∈ r.head?, ¬ isNumberChar c = true

private theorem endsNumber_cons {c : Char} (h : isNumberChar c = false) (r : List Char) :
    EndsNumber (c :: r) := by
  intro c' hc'
  cases hc'
  rw [h]
  decide

/-- An integer is read back from its text, if the text ends there. -/
theorem Runtime.PrintsIntegers.inj {rt : Runtime} (h : rt.PrintsIntegers) {m n : Int}
    {r r' : List Char} (hr : EndsNumber r) (hr' : EndsNumber r')
    (heq : (rt.numToString m).toList ++ r = (rt.numToString n).toList ++ r') :
    m = n ∧ r = r' := by
  obtain ⟨hmn, hrest⟩ := List.append_inj_of_forall (h.chars m) (h.chars n) hr hr' heq
  exact ⟨h.injective m n (String.toList_inj.mp hmn), hrest⟩

/-! ## Canonical values -/

/-- A value as `canonicalize` leaves it: no dates, and the members of objects in the order of
    their keys. -/
inductive JsVal.IsCanonical : JsVal → Prop where
  | null : IsCanonical .null
  | bool (b : Bool) : IsCanonical (.bool b)
  | int (n : Int) : IsCanonical (.num n)
  | str (s : String) : IsCanonical (.str s)
  | arr {xs : List JsVal} (hxs : ∀ x ∈ xs, IsCanonical x) : IsCanonical (.arr xs)
  | obj {fs : List (String × JsVal)} (hkeys : (fs.map Prod.fst).Nodup)
      (hproto : "__proto__" ∉ fs.map Prod.fst) (hsorted : fs.Pairwise KeyLe)
      (hfs : ∀ f ∈ fs, IsCanonical f.2) : IsCanonical (.obj fs)

/-- What a value prints as inside an array. -/
def JsVal.print (rt : Runtime) (v : JsVal) : String := (jsonText rt v).getD "null"

/-- Its characters. -/
def JsVal.chars (rt : Runtime) (v : JsVal) : List Char := (v.print rt).toList

/-- The characters of a member. -/
def memberChars (rt : Runtime) (f : String × JsVal) : List Char :=
  (jsonQuote f.1).toList ++ ':' :: f.2.chars rt

section Text

variable (rt : Runtime)

/-- Only `undefined` has no text. -/
theorem jsonText_eq_some {v : JsVal} (h : v ≠ .undefined) : jsonText rt v = some (v.print rt) := by
  cases v with
  | undefined => exact absurd rfl h
  | date ms => cases ms <;> rfl
  | _ => rfl

private theorem jsonItems_eq (xs : List JsVal) : jsonItems rt xs = xs.map (JsVal.print rt) := by
  induction xs with
  | nil => rfl
  | cons x xs ih =>
    rw [jsonItems, ih]
    rfl

private theorem jsonFields_eq {fs : List (String × JsVal)} (h : ∀ f ∈ fs, f.2 ≠ .undefined) :
    jsonFields rt fs = fs.map fun f => (f.1, f.2.print rt) := by
  induction fs with
  | nil => rfl
  | cons f fs ih =>
    obtain ⟨key, v⟩ := f
    obtain ⟨hv, hfs⟩ := List.forall_mem_cons.mp h
    rw [jsonFields, jsonText_eq_some rt hv, ih hfs]
    rfl

private theorem chars_null : JsVal.null.chars rt = ['n', 'u', 'l', 'l'] := by
  show "null".toList = _
  rfl

private theorem chars_true : (JsVal.bool true).chars rt = ['t', 'r', 'u', 'e'] := by
  show "true".toList = _
  rfl

private theorem chars_false : (JsVal.bool false).chars rt = ['f', 'a', 'l', 's', 'e'] := by
  show "false".toList = _
  rfl

/-- The two booleans are read back from their first character. -/
private theorem chars_bool_inj {b b' : Bool} {r r' : List Char}
    (h : (JsVal.bool b).chars rt ++ r = (JsVal.bool b').chars rt ++ r') : b = b' ∧ r = r' := by
  cases b with
  | true =>
    cases b' with
    | true => exact ⟨rfl, List.append_cancel_left h⟩
    | false =>
      rw [chars_true, chars_false] at h
      exact absurd (List.cons.inj h).1 (by decide)
  | false =>
    cases b' with
    | true =>
      rw [chars_true, chars_false] at h
      exact absurd (List.cons.inj h).1 (by decide)
    | false => exact ⟨rfl, List.append_cancel_left h⟩

private theorem chars_arr (xs : List JsVal) :
    (JsVal.arr xs).chars rt = '[' :: enclosed (JsVal.chars rt) ',' ']' xs := by
  show ("[" ++ ",".intercalate (jsonItems rt xs) ++ "]").toList = _
  rw [jsonItems_eq, String.toList_append, String.toList_append, String.toList_intercalate,
    List.map_map, ← intercalate_append_close]
  rfl

private theorem chars_obj {fs : List (String × JsVal)} (h : ∀ f ∈ fs, f.2 ≠ .undefined) :
    (JsVal.obj fs).chars rt =
      '\x7b' :: enclosed (memberChars rt) ',' '\x7d' (ownOrder fs) := by
  show ("\x7b" ++ ",".intercalate ((ownOrder (jsonFields rt fs)).map fun f =>
    jsonQuote f.1 ++ ":" ++ f.2) ++ "\x7d").toList = _
  have hmember : ∀ f : String × JsVal,
      (jsonQuote f.1 ++ ":" ++ f.2.print rt).toList = memberChars rt f := by
    intro f
    rw [String.toList_append, String.toList_append, List.append_assoc]
    rfl
  rw [jsonFields_eq rt h, ownOrder_map, String.toList_append, String.toList_append,
    String.toList_intercalate, List.map_map, List.map_map, ← intercalate_append_close]
  simp only [Function.comp_def, hmember]
  rfl

end Text

/-! ## Reading values back -/

/-- The kinds of JSON values. -/
inductive JsonKind where
  | null
  | bool
  | num
  | str
  | arr
  | obj
deriving DecidableEq

def JsVal.kind : JsVal → JsonKind
  | .undefined | .null => .null
  | .bool _ => .bool
  | .num _ | .nonFinite _ => .num
  | .str _ | .date _ => .str
  | .arr _ => .arr
  | .obj _ => .obj

/-- The kind of the value whose text begins so. -/
def kindOf? (c : Char) : Option JsonKind :=
  if c = 'n' then some .null
  else if c = 't' ∨ c = 'f' then some .bool
  else if c = '"' then some .str
  else if c = '[' then some .arr
  else if c = '\x7b' then some .obj
  else if isNumberChar c then some .num
  else none

private theorem kindOf?_number {c : Char} (h : isNumberChar c = true) : kindOf? c = some .num := by
  have hne : ∀ c' : Char, isNumberChar c' = false → c ≠ c' := by
    rintro c' hc' rfl
    exact absurd (h.symm.trans hc') (by decide)
  unfold kindOf?
  rw [if_neg (hne _ (by decide)), if_neg (not_or.mpr ⟨hne _ (by decide), hne _ (by decide)⟩),
    if_neg (hne _ (by decide)), if_neg (hne _ (by decide)), if_neg (hne _ (by decide)), if_pos h]

/-- Text after an opening quote is read back up to its member's value. -/
private theorem memberChars_readsBack {rt : Runtime} {f g : String × JsVal}
    (h : ReadsBack EndsNumber (JsVal.chars rt) f.2 g.2) :
    ReadsBack EndsNumber (memberChars rt) f g := by
  intro r r' hr hr' heq
  unfold memberChars at heq
  rw [List.append_assoc, List.append_assoc] at heq
  obtain ⟨hkey, hrest⟩ := jsonQuote_inj heq
  obtain ⟨hv, rfl⟩ := h r r' hr hr' (List.cons.inj hrest).2
  exact ⟨Prod.ext hkey hv, rfl⟩

/-- A member's text begins with a quote. -/
private theorem memberChars_append_ne {rt : Runtime} (f : String × JsVal) {c : Char} (hc : c ≠ '"')
    (s s' : List Char) : memberChars rt f ++ s ≠ c :: s' := by
  intro heq
  unfold memberChars at heq
  rw [toList_jsonQuote] at heq
  exact hc (List.cons.inj heq).1.symm

/-- The members of an object are read back in the order of the text, which is an order of
    the object's own. -/
theorem perm_of_chars_obj {rt : Runtime} {fs gs : List (String × JsVal)}
    (hfs : ∀ f ∈ fs, f.2 ≠ .undefined) (hgs : ∀ g ∈ gs, g.2 ≠ .undefined)
    (hread : ∀ f ∈ fs, ∀ g ∈ gs, ReadsBack EndsNumber (JsVal.chars rt) f.2 g.2)
    {r r' : List Char} (h : (JsVal.obj fs).chars rt ++ r = (JsVal.obj gs).chars rt ++ r') :
    fs.Perm gs ∧ r = r' := by
  rw [chars_obj rt hfs, chars_obj rt hgs, List.cons_append, List.cons_append,
    List.cons.injEq] at h
  have hmembers : ∀ f ∈ ownOrder fs, ∀ g ∈ ownOrder gs,
      ReadsBack EndsNumber (memberChars rt) f g := by
    intro f hf g hg
    exact memberChars_readsBack
      (hread f ((ownOrder_perm fs).subset hf) g ((ownOrder_perm gs).subset hg))
  obtain ⟨hown, hrest⟩ := enclosed_inj (by decide) (endsNumber_cons (by decide))
    (endsNumber_cons (by decide)) hmembers (fun f _ => memberChars_append_ne f (by decide))
    (fun g _ => memberChars_append_ne g (by decide)) h.2
  exact ⟨(ownOrder_perm fs).symm.trans (hown ▸ ownOrder_perm gs), hrest⟩

namespace JsVal.IsCanonical

theorem ne_undefined {v : JsVal} (h : v.IsCanonical) : v ≠ .undefined := by
  rintro rfl
  cases h

section

variable {rt : Runtime} (hnum : rt.PrintsIntegers)
include hnum

/-- The first character of a text tells the kind of the value. -/
private theorem chars_lead {v : JsVal} (h : v.IsCanonical) :
    ∃ c s, v.chars rt = c :: s ∧ kindOf? c = some v.kind := by
  cases h with
  | null => exact ⟨_, _, chars_null rt, rfl⟩
  | bool b =>
    cases b with
    | true => exact ⟨_, _, chars_true rt, rfl⟩
    | false => exact ⟨_, _, chars_false rt, rfl⟩
  | int n =>
    show ∃ c s, (rt.numToString n).toList = c :: s ∧ kindOf? c = some .num
    cases hs : (rt.numToString n).toList with
    | nil => exact absurd (String.toList_eq_nil_iff.mp hs) (hnum.ne_empty n)
    | cons c s =>
      have hc := hnum.chars n c (hs ▸ List.mem_cons_self)
      exact ⟨c, s, rfl, kindOf?_number hc⟩
  | str s => exact ⟨_, _, toList_jsonQuote s, rfl⟩
  | arr hxs => exact ⟨_, _, chars_arr rt _, rfl⟩
  | obj hkeys hproto hsorted hfs =>
    exact ⟨_, _, chars_obj rt fun f hf => (hfs f hf).ne_undefined, rfl⟩

private theorem kind_eq {v w : JsVal} (hv : v.IsCanonical) (hw : w.IsCanonical) {r r' : List Char}
    (heq : v.chars rt ++ r = w.chars rt ++ r') : v.kind = w.kind := by
  obtain ⟨c, s, hvs, hvk⟩ := hv.chars_lead hnum
  obtain ⟨c', s', hws, hwk⟩ := hw.chars_lead hnum
  rw [hvs, hws, List.cons_append, List.cons_append, List.cons.injEq] at heq
  rw [heq.1, hwk] at hvk
  exact (Option.some.inj hvk).symm

/-- No text begins with a character that begins none. -/
private theorem chars_append_ne {v : JsVal} (h : v.IsCanonical) {c : Char} (hc : kindOf? c = none)
    (s s' : List Char) : v.chars rt ++ s ≠ c :: s' := by
  obtain ⟨c', t, ht, hk⟩ := h.chars_lead hnum
  rw [ht]
  intro heq
  rw [(List.cons.inj heq).1, hc] at hk
  cases hk

/-- **A canonical value is read back from its text**, whatever follows that is not part of a
    number. -/
theorem readsBack {v : JsVal} (hv : v.IsCanonical) :
    ∀ {w : JsVal}, w.IsCanonical → ReadsBack EndsNumber (JsVal.chars rt) v w := by
  induction hv with
  -- the first character tells the kinds apart, so the other text is one of the same kind
  | null =>
    intro w hw r r' hr hr' heq
    have hkind := kind_eq hnum .null hw heq
    cases hw with
    | null => exact ⟨rfl, List.append_cancel_left heq⟩
    | _ => cases hkind
  | bool b =>
    intro w hw r r' hr hr' heq
    have hkind := kind_eq hnum (.bool b) hw heq
    cases hw with
    | bool b' =>
      obtain ⟨rfl, hrest⟩ := chars_bool_inj rt heq
      exact ⟨rfl, hrest⟩
    | _ => cases hkind
  -- an integer has no closing mark: what follows must not continue it
  | int n =>
    intro w hw r r' hr hr' heq
    have hkind := kind_eq hnum (.int n) hw heq
    cases hw with
    | int m =>
      obtain ⟨rfl, hrest⟩ := hnum.inj hr hr' heq
      exact ⟨rfl, hrest⟩
    | _ => cases hkind
  -- the closing quote ends a string, since every quote inside is escaped
  | str s =>
    intro w hw r r' hr hr' heq
    have hkind := kind_eq hnum (.str s) hw heq
    cases hw with
    | str t =>
      obtain ⟨rfl, hrest⟩ := jsonQuote_inj heq
      exact ⟨rfl, hrest⟩
    | _ => cases hkind
  | @arr xs hxs ih =>
    intro w hw r r' hr hr' heq
    have hkind := kind_eq hnum (.arr hxs) hw heq
    cases hw with
    | @arr ys hys =>
      rw [chars_arr, chars_arr, List.cons_append, List.cons_append, List.cons.injEq] at heq
      -- an item ends at a comma or the bracket, neither of which continues a number
      obtain ⟨rfl, hrest⟩ := enclosed_inj (by decide) (endsNumber_cons (by decide))
        (endsNumber_cons (by decide)) (fun x hx y hy => ih x hx (hys y hy))
        (fun x hx => (hxs x hx).chars_append_ne hnum (by decide))
        (fun y hy => (hys y hy).chars_append_ne hnum (by decide)) heq.2
      exact ⟨rfl, hrest⟩
    | _ => cases hkind
  | @obj fs hkeys hproto hsorted hfs ih =>
    intro w hw r r' hr hr' heq
    have hkind := kind_eq hnum (.obj hkeys hproto hsorted hfs) hw heq
    cases hw with
    | @obj gs hkeys' hproto' hsorted' hgs =>
      -- `JSON.stringify` lists integer keys first, so the texts give the members up to order only;
      -- the sorted keys fix that order
      obtain ⟨hperm, hrest⟩ := perm_of_chars_obj (fun f hf => (hfs f hf).ne_undefined)
        (fun g hg => (hgs g hg).ne_undefined) (fun f hf g hg => ih f hf (hgs g hg)) heq
      obtain rfl := eq_of_perm_of_keyLe hkeys' hsorted hsorted' hperm
      exact ⟨rfl, hrest⟩
    | _ => cases hkind

/-- **Two canonical values with one text are one value.** -/
theorem eq_of_jsonText_eq {v w : JsVal} (hv : v.IsCanonical) (hw : w.IsCanonical)
    (h : jsonText rt v = jsonText rt w) : v = w := by
  have hprint : v.print rt = w.print rt := by
    unfold JsVal.print
    rw [h]
  have hnil : EndsNumber [] := fun c hc => by cases hc
  have heq : v.chars rt ++ [] = w.chars rt ++ [] := by
    unfold JsVal.chars
    rw [hprint]
  exact (hv.readsBack hnum hw [] [] hnil hnil heq).1

end

end JsVal.IsCanonical

end Shiplog
