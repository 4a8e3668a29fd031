import Shiplog.Spec.IngestCorrect
import Shiplog.Spec.JsonText

/-!
# What the content hash of an event tells apart

`ingestEvent` takes two versions of an entity for the same content if their content hashes are
equal. The hashed text spells out the seven semantic fields: six are JSON strings, and
`occurredAt` is an ISO string, from which the date can be read back.

## Key results

- `civilOfDays_injective`: no two days have one calendar date
- `toISOString_injective`: no two instants have one ISO string
- `eventHash_eq_iff`: for a collision-free hash, equal content hashes mean equal fields
-/

namespace Shiplog

/-! ## The calendar -/

/-- The date of a day of a year that is counted from March on. -/
def marchDate (year doy : Int) : Int × Nat × Nat :=
  let mp := (5 * doy + 2) / 153
  let month := if mp < 10 then mp + 3 else mp - 9
  (year + (if month ≤ 2 then 1 else 0), month.toNat, (doy - (153 * mp + 2) / 5 + 1).toNat)

private theorem marchDate_inj {year year' doy doy' : Int} (h0 : 0 ≤ doy) (h1 : doy ≤ 365)
    (h0' : 0 ≤ doy') (h1' : doy' ≤ 365) (h : marchDate year doy = marchDate year' doy') :
    year = year' ∧ doy = doy' := by
  simp only [marchDate, Prod.mk.injEq] at h
  obtain ⟨hyear, hmonth, hday⟩ := h
  -- the month tells which of the twelve it is, counted from March
  have hmp : (5 * doy + 2) / 153 = (5 * doy' + 2) / 153 := by
    split at hmonth
    · split at hmonth <;> omega
    · split at hmonth <;> omega
  rw [hmp] at hyear hday
  constructor
  · exact add_right_cancel hyear
  · omega

/-- The year of a 400-year era that a day of it falls into, and the day of that year. -/
private theorem yearOfEra_range {doe yoe : Int} (h0 : 0 ≤ doe) (h1 : doe < 146097)
    (hyoe : yoe = (doe - doe / 1460 + doe / 36524 - doe / 146096) / 365) :
    (0 ≤ yoe ∧ yoe ≤ 399) ∧ 0 ≤ doe - (365 * yoe + yoe / 4 - yoe / 100) ∧
      doe - (365 * yoe + yoe / 4 - yoe / 100) ≤ 365 := by
  -- century by century, of the day and of the year, the quotients are linear
  have hday : doe / 36524 = 0 ∨ doe / 36524 = 1 ∨ doe / 36524 = 2 ∨ doe / 36524 = 3 ∨
      doe = 146096 := by omega
  have hyear : yoe / 100 = 0 ∨ yoe / 100 = 1 ∨ yoe / 100 = 2 ∨ yoe / 100 = 3 := by omega
  rcases hday with hday | hday | hday | hday | hday
  all_goals rcases hyear with hyear | hyear | hyear | hyear
  all_goals omega

/-- A day number as an era, a year of it and a day of that year. -/
private theorem civilOfDays_eq (days : Int) : ∃ era yoe doy : Int,
    (0 ≤ yoe ∧ yoe ≤ 399) ∧ (0 ≤ doy ∧ doy ≤ 365) ∧
    days + 719468 = era * 146097 + (365 * yoe + yoe / 4 - yoe / 100) + doy ∧
    civilOfDays days = marchDate (yoe + era * 400) doy := by
  obtain ⟨era, hera⟩ : ∃ era, era = (days + 719468) / 146097 := ⟨_, rfl⟩
  obtain ⟨doe, hdoe⟩ : ∃ doe, doe = days + 719468 - era * 146097 := ⟨_, rfl⟩
  obtain ⟨yoe, hyoe⟩ : ∃ yoe, yoe = (doe - doe / 1460 + doe / 36524 - doe / 146096) / 365 :=
    ⟨_, rfl⟩
  have hrange : 0 ≤ doe ∧ doe < 146097 := by omega
  obtain ⟨hyear, hday⟩ := yearOfEra_range hrange.1 hrange.2 hyoe
  refine ⟨era, yoe, doe - (365 * yoe + yoe / 4 - yoe / 100), hyear, hday, by omega, ?_⟩
  rw [hyoe, hdoe, hera]
  rfl

/-- **No two days have one date.** -/
theorem civilOfDays_injective : Function.Injective civilOfDays := by
  intro days days' h
  obtain ⟨era, yoe, doy, hyoe, hdoy, hdays, hdate⟩ := civilOfDays_eq days
  obtain ⟨era', yoe', doy', hyoe', hdoy', hdays', hdate'⟩ := civilOfDays_eq days'
  rw [hdate, hdate'] at h
  obtain ⟨hyear, rfl⟩ := marchDate_inj hdoy.1 hdoy.2 hdoy'.1 hdoy'.2 h
  obtain rfl : era = era' := by omega
  obtain rfl : yoe = yoe' := by omega
  omega

private theorem marchDate_range {year doy : Int} (h0 : 0 ≤ doy) (h1 : doy ≤ 365) :
    (marchDate year doy).2.1 < 100 ∧ (marchDate year doy).2.2 < 100 := by
  simp only [marchDate]
  constructor
  · split <;> omega
  · omega

/-- The month and the day of a date have two digits. -/
private theorem civilOfDays_range (days : Int) :
    (civilOfDays days).2.1 < 100 ∧ (civilOfDays days).2.2 < 100 := by
  obtain ⟨era, yoe, doy, -, hdoy, -, hdate⟩ := civilOfDays_eq days
  rw [hdate]
  exact marchDate_range hdoy.1 hdoy.2

/-! ## Padded numbers -/

private theorem toList_padNat (width n : ℕ) : (padNat width n).toList =
    List.replicate (width - (Nat.toDigits 10 n).length) '0' ++ Nat.toDigits 10 n := by
  simp only [padNat, String.toList_ofList]

/-- A number is read back from its padded digits. -/
private theorem padNat_inj {width m n : ℕ} (h : padNat width m = padNat width n) : m = n := by
  have hread : ∀ k, Nat.ofDigitChars 10 (padNat width k).toList 0 = k := by
    intro k
    rw [toList_padNat, Nat.ofDigitChars_append, Nat.ofDigitChars_replicate_zero, Nat.mul_zero,
      Nat.ofDigitChars_ten_toDigits]
  rw [← hread m, h, hread n]

private theorem length_padNat {width n : ℕ} (hwidth : 0 < width) (hn : n < 10 ^ width) :
    (padNat width n).toList.length = width := by
  rw [toList_padNat, List.length_append, List.length_replicate]
  have hle := (Nat.length_toDigits_le_iff (by decide) hwidth).mpr hn
  omega

private theorem isDigit_of_mem_padNat {width n : ℕ} {c : Char} (h : c ∈ (padNat width n).toList) :
    c.isDigit = true := by
  rw [toList_padNat, List.mem_append] at h
  cases h with
  | inl h =>
    rw [List.eq_of_mem_replicate h]
    rfl
  | inr h => exact Nat.isDigit_of_mem_toDigits (by decide) (by decide) h

/-- A number of fixed width is read back from the front of a text. -/
private theorem padNat_append_inj {width m n : ℕ} (hwidth : 0 < width) (hm : m < 10 ^ width)
    (hn : n < 10 ^ width) {s t : String} (h : padNat width m ++ s = padNat width n ++ t) :
    m = n ∧ s = t := by
  have hlist := congrArg String.toList h
  rw [String.toList_append, String.toList_append] at hlist
  have hlen : (padNat width m).toList.length = (padNat width n).toList.length := by
    rw [length_padNat hwidth hm, length_padNat hwidth hn]
  obtain ⟨hnum, hrest⟩ := List.append_inj hlist hlen
  exact ⟨padNat_inj (String.toList_inj.mp hnum), String.toList_inj.mp hrest⟩

/-! ## ISO strings -/

/-- The year of an ISO string: four digits, or a sign and at least six. -/
def isoYear (year : Int) : String :=
  if 0 ≤ year ∧ year ≤ 9999 then padNat 4 year.toNat
  else (if year < 0 then "-" else "+") ++ padNat 6 year.natAbs

/-- What follows the year: the date, and the time of the day in milliseconds. -/
def isoRest (month day t : ℕ) : String :=
  "-" ++ (padNat 2 month ++ ("-" ++ (padNat 2 day ++ ("T" ++ (padNat 2 (t / 3600000) ++ (":" ++
    (padNat 2 (t / 60000 % 60) ++ (":" ++ (padNat 2 (t / 1000 % 60) ++ ("." ++
      (padNat 3 (t % 1000) ++ "Z")))))))))))

private theorem toISOString_eq (ms : Int) : toISOString ms =
    isoYear (civilOfDays (ms / 86400000)).1 ++ isoRest (civilOfDays (ms / 86400000)).2.1
      (civilOfDays (ms / 86400000)).2.2 (ms % 86400000).toNat := by
  simp only [toISOString, isoYear, isoRest, String.append_assoc]

private theorem isoYear_digits {year : Int} (h : 0 ≤ year ∧ year ≤ 9999) {c : Char}
    (hc : c ∈ (isoYear year).toList) : c.isDigit = true := by
  unfold isoYear at hc
  rw [if_pos h] at hc
  exact isDigit_of_mem_padNat hc

/-- The sign of a year that needs one. -/
private theorem isoYear_sign (year : Int) (h : ¬ (0 ≤ year ∧ year ≤ 9999)) :
    ∃ c, c.isDigit = false ∧ (isoYear year).toList = c :: (padNat 6 year.natAbs).toList ∧
      (year < 0 ↔ c = '-') := by
  unfold isoYear
  rw [if_neg h]
  split
  · next hneg => exact ⟨'-', rfl, String.toList_append, iff_of_true hneg rfl⟩
  · next hpos => exact ⟨'+', rfl, String.toList_append, iff_of_false hpos (by decide)⟩

private theorem isoYear_injective : Function.Injective isoYear := by
  intro year year' h
  have hlist := congrArg String.toList h
  -- a text that begins with a sign is not one of digits
  have hapart : ∀ {y y' : Int}, 0 ≤ y ∧ y ≤ 9999 → ¬ (0 ≤ y' ∧ y' ≤ 9999) →
      (isoYear y).toList ≠ (isoYear y').toList := by
    intro y y' hy hy' heq
    obtain ⟨c, hc, htext, -⟩ := isoYear_sign y' hy'
    have hdigit := isoYear_digits hy (heq ▸ htext ▸ List.mem_cons_self)
    rw [hc] at hdigit
    cases hdigit
  by_cases hyear : 0 ≤ year ∧ year ≤ 9999
  · by_cases hyear' : 0 ≤ year' ∧ year' ≤ 9999
    · unfold isoYear at h
      rw [if_pos hyear, if_pos hyear'] at h
      have hnat := padNat_inj h
      omega
    · exact absurd hlist (hapart hyear hyear')
  · by_cases hyear' : 0 ≤ year' ∧ year' ≤ 9999
    · exact absurd hlist.symm (hapart hyear' hyear)
    · obtain ⟨c, -, htext, hneg⟩ := isoYear_sign year hyear
      obtain ⟨c', -, htext', hneg'⟩ := isoYear_sign year' hyear'
      rw [htext, htext', List.cons.injEq] at hlist
      have habs := padNat_inj (String.toList_inj.mp hlist.2)
      have hsign : year < 0 ↔ year' < 0 := by rw [hneg, hneg', hlist.1]
      omega

/-- The rest of an ISO string has one length, and gives its numbers back. -/
private theorem length_isoRest {month day t : ℕ} (hmonth : month < 100) (hday : day < 100)
    (ht : t < 86400000) : (isoRest month day t).toList.length = 20 := by
  have h2 : ∀ n < 100, (padNat 2 n).toList.length = 2 := fun n hn =>
    length_padNat (by decide) hn
  have h3 : ∀ n < 1000, (padNat 3 n).toList.length = 3 := fun n hn =>
    length_padNat (by decide) hn
  simp only [isoRest, String.toList_append, List.length_append]
  rw [h2 month hmonth, h2 day hday, h2 _ (by omega), h2 _ (by omega), h2 _ (by omega),
    h3 _ (by omega)]
  rfl

private theorem isoRest_inj {month month' day day' t t' : ℕ} (hmonth : month < 100)
    (hmonth' : month' < 100) (hday : day < 100) (hday' : day' < 100) (ht : t < 86400000)
    (ht' : t' < 86400000) (h : isoRest month day t = isoRest month' day' t') :
    month = month' ∧ day = day' ∧ t = t' := by
  unfold isoRest at h
  obtain ⟨hm, h⟩ := padNat_append_inj (by decide) hmonth hmonth' ((String.append_right_inj _).mp h)
  obtain ⟨hd, h⟩ := padNat_append_inj (by decide) hday hday' ((String.append_right_inj _).mp h)
  -- the time of the day, from the hours down
  have hrange : ∀ {t : ℕ}, t < 86400000 → t / 3600000 < 10 ^ 2 ∧ t / 60000 % 60 < 10 ^ 2 ∧
      t / 1000 % 60 < 10 ^ 2 ∧ t % 1000 < 10 ^ 3 := by
    intro t ht
    omega
  obtain ⟨hhour, hminute, hsecond, hmilli⟩ := hrange ht
  obtain ⟨hhour', hminute', hsecond', hmilli'⟩ := hrange ht'
  obtain ⟨h1, h⟩ := padNat_append_inj (by decide) hhour hhour' ((String.append_right_inj _).mp h)
  obtain ⟨h2, h⟩ :=
    padNat_append_inj (by decide) hminute hminute' ((String.append_right_inj _).mp h)
  obtain ⟨h3, h⟩ :=
    padNat_append_inj (by decide) hsecond hsecond' ((String.append_right_inj _).mp h)
  obtain ⟨h4, -⟩ := padNat_append_inj (by decide) hmilli hmilli' ((String.append_right_inj _).mp h)
  exact ⟨hm, hd, by omega⟩

/-- **No two instants have one ISO string.** -/
theorem toISOString_injective : Function.Injective toISOString := by
  intro ms ms' h
  rw [toISOString_eq, toISOString_eq] at h
  obtain ⟨hmonth, hday⟩ := civilOfDays_range (ms / 86400000)
  obtain ⟨hmonth', hday'⟩ := civilOfDays_range (ms' / 86400000)
  have ht : (ms % 86400000).toNat < 86400000 := by omega
  have ht' : (ms' % 86400000).toNat < 86400000 := by omega
  have hlist := congrArg String.toList h
  rw [String.toList_append, String.toList_append] at hlist
  -- the years may differ in length, the rests do not
  obtain ⟨hyear, hrest⟩ := List.append_inj' hlist (by
    rw [length_isoRest hmonth hday ht, length_isoRest hmonth' hday' ht'])
  obtain ⟨hm, hd, htime⟩ :=
    isoRest_inj hmonth hmonth' hday hday' ht ht' (String.toList_inj.mp hrest)
  have hy := isoYear_injective (String.toList_inj.mp hyear)
  have hdays : ms / 86400000 = ms' / 86400000 :=
    civilOfDays_injective (Prod.ext hy (Prod.ext hm hd))
  omega

/-! ## The hashed text -/

/-- The members of the canonical content: the keys in order, the date written out. -/
def contentFields (ev : NormalizedEvent) : List (String × JsVal) :=
  [("actor", .str ev.actor), ("externalId", .str ev.externalId),
    ("occurredAt", .str (toISOString ev.occurredAt)), ("source", .str ev.source),
    ("title", .str ev.title), ("type", .str ev.type.name), ("url", .str ev.url)]

private theorem canonicalize_eventContent (rt : Runtime) (ev : NormalizedEvent) :
    canonicalize rt (eventContent ev) = .ok (.obj (contentFields ev)) := by
  simp +decide only [eventContent, canonicalize, canonicalizeFields, List.insertionSort_cons,
    List.insertionSort_nil, List.orderedInsert_cons, List.orderedInsert_nil, contentFields,
    if_true, if_false]

private theorem contentFields_keys (ev : NormalizedEvent) : (contentFields ev).map Prod.fst =
    ["actor", "externalId", "occurredAt", "source", "title", "type", "url"] := rfl

private theorem contentFields_sorted (ev : NormalizedEvent) :
    (contentFields ev).Pairwise KeyLe := by
  have hkeys : ((contentFields ev).map Prod.fst).Pairwise fun a b => jsStrLe a b = true := by
    rw [contentFields_keys]
    decide +kernel
  rwa [List.pairwise_map] at hkeys

/-- All of them are strings. -/
private theorem exists_of_mem_contentFields {ev : NormalizedEvent} {f : String × JsVal}
    (h : f ∈ contentFields ev) : ∃ s, f.2 = .str s := by
  simp only [contentFields, List.mem_cons, List.not_mem_nil, or_false] at h
  rcases h with rfl | rfl | rfl | rfl | rfl | rfl | rfl <;> exact ⟨_, rfl⟩

private theorem ne_undefined_of_mem_contentFields {ev : NormalizedEvent} :
    ∀ f ∈ contentFields ev, f.2 ≠ .undefined := by
  intro f hf hundef
  obtain ⟨s, hs⟩ := exists_of_mem_contentFields hf
  cases hs.symm.trans hundef

private theorem eventHash_eq (rt : Runtime) (ev : NormalizedEvent) :
    eventHash rt ev = rt.sha256Hex ((JsVal.obj (contentFields ev)).print rt) := by
  have htext := jsonText_eq_some rt (v := .obj (contentFields ev)) (fun h => by cases h)
  simp only [eventHash, contentHash, canonicalize_eventContent, htext]

/-- The members are read back from the text, which lists them in an order of its own. -/
private theorem contentFields_inj {rt : Runtime} {ev ev' : NormalizedEvent}
    (h : (JsVal.obj (contentFields ev)).print rt = (JsVal.obj (contentFields ev')).print rt) :
    contentFields ev = contentFields ev' := by
  have hread : ∀ f ∈ contentFields ev, ∀ g ∈ contentFields ev',
      ReadsBack EndsNumber (JsVal.chars rt) f.2 g.2 := by
    intro f hf g hg r r' _ _ heq
    obtain ⟨s, hs⟩ := exists_of_mem_contentFields hf
    obtain ⟨t, ht⟩ := exists_of_mem_contentFields hg
    rw [hs, ht] at heq ⊢
    obtain ⟨rfl, hrest⟩ := jsonQuote_inj heq
    exact ⟨rfl, hrest⟩
  have heq : (JsVal.obj (contentFields ev)).chars rt ++ [] =
      (JsVal.obj (contentFields ev')).chars rt ++ [] := by
    unfold JsVal.chars
    rw [h]
  have hperm := (perm_of_chars_obj ne_undefined_of_mem_contentFields
    ne_undefined_of_mem_contentFields hread heq).1
  exact eq_of_perm_of_keyLe (contentFields_keys ev' ▸ by decide) (contentFields_sorted ev)
    (contentFields_sorted ev') hperm

/-- The semantic fields of an event: all but its version. -/
structure EventFields where
  source : String
  type : EventType
  externalId : String
  actor : String
  title : String
  url : String
  occurredAt : Int
deriving DecidableEq

/-- What is hashed of an event. -/
def NormalizedEvent.content (ev : NormalizedEvent) : EventFields where
  source := ev.source
  type := ev.type
  externalId := ev.externalId
  actor := ev.actor
  title := ev.title
  url := ev.url
  occurredAt := ev.occurredAt

private theorem EventType.name_injective : Function.Injective EventType.name := by
  intro a b h
  cases a <;> cases b <;> first | rfl | exact absurd h (by decide)

/-- **Equal content hashes mean equal fields**, for a collision-free hash. -/
theorem eventHash_eq_iff {rt : Runtime} (hsha : Function.Injective rt.sha256Hex)
    {ev ev' : NormalizedEvent} : eventHash rt ev = eventHash rt ev' ↔ ev.content = ev'.content := by
  rw [eventHash_eq, eventHash_eq, hsha.eq_iff]
  constructor
  · intro h
    have hfields := contentFields_inj h
    simp only [contentFields, List.cons.injEq, Prod.mk.injEq, JsVal.str.injEq, true_and,
      and_true] at hfields
    obtain ⟨hactor, hid, hdate, hsource, htitle, htype, hurl⟩ := hfields
    simp only [NormalizedEvent.content, hactor, hid, toISOString_injective hdate, hsource, htitle,
      EventType.name_injective htype, hurl]
  · intro h
    simp only [NormalizedEvent.content, EventFields.mk.injEq] at h
    obtain ⟨hsource, htype, hid, hactor, htitle, hurl, hdate⟩ := h
    simp only [contentFields, hsource, htype, hid, hactor, htitle, hurl, hdate]

end Shiplog
