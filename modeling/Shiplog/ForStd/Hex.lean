import Mathlib

/-!
# Hexadecimal text

Bytes written as pairs of lowercase hex digits, and the forgiving reader that goes with
them: it reads pairs of digits of either case and stops at the first pair that is none,
without a sign that it did.

## Key results

- `decode_encode`: what is written is read back
- `decode_eq_iff`: exactly which texts are read as given bytes
- `ofText_injective`: the digits of a text tell the text
-/

namespace Hex

/-- The sixteen digits. -/
def digits : List Char :=
  ['0', '1', '2', '3', '4', '5', '6', '7', '8', '9', 'a', 'b', 'c', 'd', 'e', 'f']

/-- The value of a digit of either case. -/
def value? (c : Char) : Option Nat := digits.idxOf? c.toLower

/-- The digit of a value below sixteen. -/
def digit (n : Fin 16) : Char := digits.get n

/-- A byte as two digits. -/
def encodeByte (b : UInt8) : List Char :=
  [digit ⟨b.toNat / 16, by have := b.toNat_lt; omega⟩,
    digit ⟨b.toNat % 16, by omega⟩]

/-- Bytes as text. -/
def encode (bs : List UInt8) : List Char := bs.flatMap encodeByte

/-- The bytes of the longest prefix that consists of pairs of digits. -/
def decode : List Char → List UInt8
  | hi :: lo :: rest =>
    match value? hi, value? lo with
    | some h, some l => UInt8.ofNat (16 * h + l) :: decode rest
    | _, _ => []
  | _ => []

/-- The text goes on with a pair of digits. -/
def startsWithPair : List Char → Bool
  | hi :: lo :: _ => (value? hi).isSome && (value? lo).isSome
  | _ => false

/-! ## Digits -/

/-- The digits are pairwise distinct. -/
theorem digit_inj {m n : Fin 16} (h : digit m = digit n) : m = n := by
  revert m n
  decide

theorem toLower_digit (n : Fin 16) : (digit n).toLower = digit n := by
  revert n
  decide

/-- A character has a value exactly if, up to case, it is the digit of that value. -/
theorem value?_eq_some_iff {c : Char} {v : Nat} :
    value? c = some v ↔ ∃ h : v < 16, c.toLower = digit ⟨v, h⟩ := by
  unfold value?
  rw [List.idxOf?_eq_some_iff]
  constructor
  · rintro ⟨h, heq, -⟩
    exact ⟨h, heq.symm⟩
  · rintro ⟨h, heq⟩
    refine ⟨h, heq.symm, fun j hj hsame => ?_⟩
    -- an earlier digit is another one
    have hdigit : digit ⟨j, by omega⟩ = digit ⟨v, h⟩ := hsame.trans heq
    have hjv : j = v := congrArg Fin.val (digit_inj hdigit)
    omega

/-! ## Pairs -/

/-- A pair of characters is read as a byte exactly if, up to case, it is the byte's text. -/
theorem readPair_iff {hi lo : Char} {b : UInt8} :
    (∃ h l, value? hi = some h ∧ value? lo = some l ∧ UInt8.ofNat (16 * h + l) = b) ↔
      [hi.toLower, lo.toLower] = encodeByte b := by
  have hb := b.toNat_lt
  simp only [encodeByte, List.cons.injEq, and_true]
  constructor
  · rintro ⟨h, l, hh, hl, rfl⟩
    obtain ⟨hlt, hhi⟩ := value?_eq_some_iff.mp hh
    obtain ⟨llt, hlo⟩ := value?_eq_some_iff.mp hl
    -- both digits are below 16, so the byte does not wrap
    have hval : (UInt8.ofNat (16 * h + l)).toNat = 16 * h + l :=
      UInt8.toNat_ofNat_of_lt' (show 16 * h + l < 256 by omega)
    rw [hhi, hlo]
    constructor
    · congr 1
      apply Fin.ext
      show h = (UInt8.ofNat (16 * h + l)).toNat / 16
      omega
    · congr 1
      apply Fin.ext
      show l = (UInt8.ofNat (16 * h + l)).toNat % 16
      omega
  · rintro ⟨hhi, hlo⟩
    refine ⟨b.toNat / 16, b.toNat % 16, value?_eq_some_iff.mpr ⟨by omega, hhi⟩,
      value?_eq_some_iff.mpr ⟨by omega, hlo⟩, ?_⟩
    rw [show 16 * (b.toNat / 16) + b.toNat % 16 = b.toNat by omega]
    exact UInt8.ofNat_toNat

/-- Reading stops at once exactly where no pair of digits stands. -/
theorem decode_eq_nil_iff {cs : List Char} : decode cs = [] ↔ startsWithPair cs = false := by
  cases cs with
  | nil => simp [decode, startsWithPair]
  | cons hi cs =>
    cases cs with
    | nil => simp [decode, startsWithPair]
    | cons lo rest =>
      cases hh : value? hi with
      | none => simp [decode, startsWithPair, hh]
      | some h =>
        cases hl : value? lo with
        | none => simp [decode, startsWithPair, hh, hl]
        | some l => simp [decode, startsWithPair, hh, hl]

/-- One byte more is read exactly from one pair more. -/
theorem decode_eq_cons_iff {cs : List Char} {b : UInt8} {bs : List UInt8} :
    decode cs = b :: bs ↔
      ∃ hi lo rest, cs = hi :: lo :: rest ∧ [hi.toLower, lo.toLower] = encodeByte b ∧
        decode rest = bs := by
  constructor
  · intro h
    have hpair : startsWithPair cs = true := by
      rw [← Bool.not_eq_false, ← decode_eq_nil_iff, h]
      exact List.cons_ne_nil b bs
    cases cs with
    | nil => cases hpair
    | cons hi cs =>
      cases cs with
      | nil => cases hpair
      | cons lo rest =>
        simp only [startsWithPair, Bool.and_eq_true, Option.isSome_iff_exists] at hpair
        obtain ⟨⟨h', hh⟩, ⟨l, hl⟩⟩ := hpair
        simp only [decode, hh, hl, List.cons.injEq] at h
        exact ⟨hi, lo, rest, rfl, readPair_iff.mp ⟨h', l, hh, hl, h.1⟩, h.2⟩
  · rintro ⟨hi, lo, rest, rfl, hpair, rfl⟩
    obtain ⟨h, l, hh, hl, rfl⟩ := readPair_iff.mpr hpair
    simp only [decode, hh, hl]

/-! ## Texts -/

@[simp] theorem encode_nil : encode [] = [] := rfl

@[simp] theorem encode_cons (b : UInt8) (bs : List UInt8) :
    encode (b :: bs) = encodeByte b ++ encode bs := rfl

theorem length_encode (bs : List UInt8) : (encode bs).length = 2 * bs.length := by
  induction bs with
  | nil => rfl
  | cons b bs ih =>
    rw [encode_cons, List.length_append, ih, List.length_cons]
    show 2 + 2 * bs.length = 2 * (bs.length + 1)
    omega

/-- **What is read as given bytes**: the texts that begin, up to case, with the text of the
    bytes, and do not go on with a pair of digits. -/
theorem decode_eq_iff {cs : List Char} {bs : List UInt8} :
    decode cs = bs ↔
      (cs.take (2 * bs.length)).map Char.toLower = encode bs ∧
        startsWithPair (cs.drop (2 * bs.length)) = false := by
  induction bs generalizing cs with
  | nil => simp [decode_eq_nil_iff]
  | cons b bs ih =>
    have htwo : 2 * (b :: bs).length = 2 * bs.length + 1 + 1 := by
      rw [List.length_cons]
      omega
    rw [decode_eq_cons_iff, htwo, encode_cons]
    constructor
    · rintro ⟨hi, lo, rest, rfl, hpair, hrest⟩
      obtain ⟨htake, hdrop⟩ := ih.mp hrest
      rw [← hpair, ← htake]
      exact ⟨rfl, hdrop⟩
    · rintro ⟨htake, hdrop⟩
      cases cs with
      | nil => cases htake
      | cons hi cs =>
        cases cs with
        | nil =>
          -- one character is no pair
          have hlen := congrArg List.length htake
          simp [encodeByte] at hlen
        | cons lo rest =>
          have hcons : hi.toLower :: lo.toLower ::
              (rest.take (2 * bs.length)).map Char.toLower = encodeByte b ++ encode bs := htake
          have hsplit := List.append_inj
            (show [hi.toLower, lo.toLower] ++ (rest.take (2 * bs.length)).map Char.toLower =
              encodeByte b ++ encode bs from hcons) rfl
          exact ⟨hi, lo, rest, rfl, hsplit.1, ih.mpr ⟨hsplit.2, hdrop⟩⟩

/-- The text of bytes consists of lowercase digits. -/
theorem toLower_encode (bs : List UInt8) : (encode bs).map Char.toLower = encode bs := by
  induction bs with
  | nil => rfl
  | cons b bs ih =>
    rw [encode_cons, List.map_append, ih]
    simp [encodeByte, toLower_digit]

/-- What is written is read back. -/
theorem decode_encode (bs : List UInt8) : decode (encode bs) = bs := by
  rw [decode_eq_iff, ← length_encode, List.take_length, List.drop_length]
  exact ⟨toLower_encode bs, rfl⟩

/-- Every character of a text that is, up to case, the text of bytes is a digit. -/
theorem isSome_value?_of_map {cs : List Char} {bs : List UInt8}
    (h : cs.map Char.toLower = encode bs) : ∀ c ∈ cs, (value? c).isSome = true := by
  intro c hc
  have hmem : c.toLower ∈ encode bs := by
    rw [← h]
    exact List.mem_map_of_mem hc
  obtain ⟨b, -, hb⟩ := List.mem_flatMap.mp hmem
  simp only [encodeByte, List.mem_cons, List.not_mem_nil, or_false] at hb
  rw [Option.isSome_iff_exists]
  rcases hb with hb | hb
  · exact ⟨_, value?_eq_some_iff.mpr ⟨_, hb⟩⟩
  · exact ⟨_, value?_eq_some_iff.mpr ⟨_, hb⟩⟩

/-! ## Any text in digits -/

/-- A character as three bytes. -/
def charBytes (c : Char) : List UInt8 :=
  [.ofNat (c.toNat / 65536), .ofNat (c.toNat / 256), .ofNat c.toNat]

private theorem toNat_lt_of_valid (c : Char) : c.toNat < 1114112 := by
  rcases c.valid with h | h
  · exact h.trans (by decide)
  · exact h.2

theorem charBytes_inj {c c' : Char} (h : charBytes c = charBytes c') : c = c' := by
  simp only [charBytes, List.cons.injEq, and_true, ← UInt8.toNat_inj, UInt8.toNat_ofNat'] at h
  have hc := toNat_lt_of_valid c
  have hc' := toNat_lt_of_valid c'
  exact Char.toNat_inj.mp (by omega)

theorem flatMap_charBytes_inj {cs cs' : List Char}
    (h : cs.flatMap charBytes = cs'.flatMap charBytes) : cs = cs' := by
  induction cs generalizing cs' with
  | nil =>
    cases cs' with
    | nil => rfl
    | cons c' cs' => cases h
  | cons c cs ih =>
    cases cs' with
    | nil => cases h
    | cons c' cs' =>
      rw [List.flatMap_cons, List.flatMap_cons] at h
      obtain ⟨hhead, htail⟩ := List.append_inj h rfl
      rw [charBytes_inj hhead, ih htail]

/-- A text as digits, six for each character. -/
def ofText (s : String) : String := String.ofList (encode (s.toList.flatMap charBytes))

/-- The digits of a text tell the text. -/
theorem ofText_injective : Function.Injective ofText := by
  intro s s' h
  have hbytes := congrArg decode (String.ofList_injective h)
  rw [decode_encode, decode_encode] at hbytes
  exact String.toList_inj.mp (flatMap_charBytes_inj hbytes)

end Hex
