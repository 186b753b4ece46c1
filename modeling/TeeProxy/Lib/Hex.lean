/-
Numbers in hexadecimal with a fixed number of digits: the text has that many
characters and determines the number. And the decoder of Go's
`encoding/hex`, which takes any bytes.
-/
import Mathlib.Tactic.Common
import Mathlib.Tactic.Linarith
import Mathlib.Tactic.Ring
import Mathlib.Data.Nat.ModEq

namespace Hex

def digit (n : Nat) : Char := "0123456789abcdef".toList.getD n '0'

/-- The last `w` digits of `n`, most significant first. -/
def digits : Nat → Nat → List Char
  | 0, _ => []
  | w + 1, n => digit (n / 16 ^ w % 16) :: digits w n

/-- `n` in `w` digits, with a leading `0x`. -/
def text (w n : Nat) : String := String.ofList ('0' :: 'x' :: digits w n)

/-- `hex.EncodeToString` of the bytes of `n`, two digits a byte. -/
def encode (w n : Nat) : String := String.ofList (digits w n)

theorem digit_injective {a b : Nat} (ha : a < 16) (hb : b < 16) (h : digit a = digit b) : a = b := by
  have all : ∀ a < 16, ∀ b < 16, digit a = digit b → a = b := by decide
  exact all a ha b hb h

@[simp] theorem length_digits (w n : Nat) : (digits w n).length = w := by
  induction w with
  | zero => rfl
  | succ w ih => rw [digits, List.length_cons, ih]

theorem mod_eq_of_digits_eq {w a b : Nat} (h : digits w a = digits w b) : a % 16 ^ w = b % 16 ^ w := by
  induction w with
  | zero => rw [Nat.pow_zero, Nat.mod_one, Nat.mod_one]
  | succ w ih =>
    simp only [digits, List.cons.injEq] at h
    have hd : a / 16 ^ w % 16 = b / 16 ^ w % 16 :=
      digit_injective (Nat.mod_lt _ (by decide)) (Nat.mod_lt _ (by decide)) h.1
    rw [Nat.pow_succ, Nat.mod_mul, Nat.mod_mul, ih h.2, hd]

theorem digits_append_injective {w a b : Nat} {s t : List Char} (ha : a < 16 ^ w) (hb : b < 16 ^ w)
    (h : digits w a ++ s = digits w b ++ t) : a = b ∧ s = t := by
  obtain ⟨hd, hst⟩ := List.append_inj h (by simp)
  have hm := mod_eq_of_digits_eq hd
  rw [Nat.mod_eq_of_lt ha, Nat.mod_eq_of_lt hb] at hm
  exact ⟨hm, hst⟩

/-- Texts followed by anything agree only if the numbers do, and what follows. -/
theorem text_append_injective {w a b : Nat} {s t : String} (ha : a < 16 ^ w) (hb : b < 16 ^ w)
    (h : text w a ++ s = text w b ++ t) : a = b ∧ s = t := by
  have hl : (text w a ++ s).toList = (text w b ++ t).toList := by rw [h]
  simp only [text, String.toList_append, String.toList_ofList, List.cons_append, List.cons.injEq, true_and] at hl
  exact (digits_append_injective ha hb hl).imp id String.toList_inj.mp

theorem encode_append_injective {w a b : Nat} {s t : String} (ha : a < 16 ^ w) (hb : b < 16 ^ w)
    (h : encode w a ++ s = encode w b ++ t) : a = b ∧ s = t := by
  have hl : (encode w a ++ s).toList = (encode w b ++ t).toList := by rw [h]
  simp only [encode, String.toList_append, String.toList_ofList] at hl
  exact (digits_append_injective ha hb hl).imp id String.toList_inj.mp

theorem encode_injective {w a b : Nat} (ha : a < 16 ^ w) (hb : b < 16 ^ w) (h : encode w a = encode w b) : a = b :=
  (encode_append_injective ha hb (congrArg (· ++ "") h)).1

/-! ## Decoding -/

/-- `hex.InvalidByteError` and `hex.ErrLength`. -/
inductive DecodeErr
  | invalidByte (b : UInt8)
  | length
  deriving DecidableEq, Repr

/-- The value of a digit, of either case. -/
def nibble (b : UInt8) : Except DecodeErr UInt8 :=
  if 48 ≤ b ∧ b ≤ 57 then .ok (b - 48)
  else if 97 ≤ b ∧ b ≤ 102 then .ok (b - 87)
  else if 65 ≤ b ∧ b ≤ 70 then .ok (b - 55)
  else .error (.invalidByte b)

/-- `hex.DecodeString`, on the bytes of the string. A last digit without its
pair is looked at before the length is. -/
def decode : List UInt8 → Except DecodeErr (List UInt8)
  | [] => .ok []
  | [p] => do
    let _ ← nibble p
    .error .length
  | p :: q :: src => do
    let a ← nibble p
    let b ← nibble q
    let dst ← decode src
    .ok ((a <<< 4 ||| b) :: dst)

/-- The number that bytes stand for, most significant first. -/
def value (bs : List UInt8) : Nat := bs.foldl (fun n x => n * 256 + x.toNat) 0

theorem value_cons (b : UInt8) (bs : List UInt8) : value (b :: bs) = b.toNat * 16 ^ (2 * bs.length) + value bs := by
  have hfold : ∀ n, bs.foldl (fun n x => n * 256 + x.toNat) n = n * 256 ^ bs.length + value bs := by
    induction bs with
    | nil => simp [value]
    | cons c bs ih =>
      intro n
      simp only [value, List.foldl_cons, List.length_cons] at ih ⊢
      rw [ih, ih (0 * 256 + c.toNat)]
      ring
  rw [value, List.foldl_cons, hfold, pow_mul, Nat.zero_mul, Nat.zero_add]
  rfl

theorem value_lt (bs : List UInt8) : value bs < 16 ^ (2 * bs.length) := by
  induction bs with
  | nil => simp [value]
  | cons b bs ih =>
    have hb : b.toNat < 256 := b.toNat_lt
    rw [value_cons, List.length_cons, Nat.mul_succ, pow_add]
    nlinarith

theorem exists_value {k n : Nat} (h : n < 16 ^ (2 * k)) : ∃ bs, bs.length = k ∧ value bs = n := by
  induction k generalizing n with
  | zero => exact ⟨[], rfl, by simpa [value, eq_comm] using h⟩
  | succ k ih =>
    obtain ⟨bs, hlen, hval⟩ := ih (Nat.mod_lt n (Nat.pow_pos (by decide) : 0 < 16 ^ (2 * k)))
    have hdiv : n / 16 ^ (2 * k) < 256 := by
      rw [Nat.div_lt_iff_lt_mul (Nat.pow_pos (by decide))]
      calc n < 16 ^ (2 * (k + 1)) := h
        _ = 256 * 16 ^ (2 * k) := by ring
    refine ⟨UInt8.ofNat (n / 16 ^ (2 * k)) :: bs, by rw [List.length_cons, hlen], ?_⟩
    rw [value_cons, hval, hlen, UInt8.toNat_ofNat', Nat.mod_eq_of_lt hdiv, Nat.div_add_mod']

theorem digits_mul_add (w k n : Nat) : digits w (k * 16 ^ w + n) = digits w n := by
  induction w generalizing k with
  | zero => rfl
  | succ w ih =>
    have hk : k * 16 ^ (w + 1) + n = (k * 16) * 16 ^ w + n := by ring
    have hdiv : ((k * 16) * 16 ^ w + n) / 16 ^ w % 16 = n / 16 ^ w % 16 := by
      rw [Nat.add_comm, Nat.add_mul_div_right _ _ (Nat.pow_pos (by decide)), Nat.add_mul_mod_self_right]
    rw [digits, digits, hk, ih, hdiv]

theorem digits_cons (b : UInt8) (bs : List UInt8) :
    digits (2 * (b :: bs).length) (value (b :: bs)) =
      digit (b.toNat / 16) :: digit (b.toNat % 16) :: digits (2 * bs.length) (value bs) := by
  have hb : b.toNat < 256 := b.toNat_lt
  have hdiv : (b.toNat * 16 ^ (2 * bs.length) + value bs) / 16 ^ (2 * bs.length) = b.toNat := by
    rw [Nat.add_comm, Nat.add_mul_div_right _ _ (Nat.pow_pos (by decide)), Nat.div_eq_of_lt (value_lt bs), Nat.zero_add]
  rw [List.length_cons, Nat.mul_succ, digits, digits, value_cons, digits_mul_add, pow_succ,
    ← Nat.div_div_eq_div_mul, hdiv, Nat.mod_eq_of_lt (by omega : b.toNat / 16 < 16)]

/-- No capital digit. -/
def Lower (src : List UInt8) : Prop := ∀ p ∈ src, ¬ (65 ≤ p ∧ p ≤ 70)

theorem nibble_digit {a : UInt8} (h : a < 16) : nibble (digit a.toNat).toUInt8 = .ok a := by
  have all : ∀ n < 16, nibble (digit n).toUInt8 = .ok (UInt8.ofNat n) := by decide
  have hn := all a.toNat (UInt8.lt_iff_toNat_lt.mp h)
  rwa [UInt8.ofNat_toNat] at hn

theorem of_nibble {p a : UInt8} (hp : ¬ (65 ≤ p ∧ p ≤ 70)) (h : nibble p = .ok a) :
    a < 16 ∧ p = (digit a.toNat).toUInt8 := by
  have all : ∀ n < 256, ¬ (65 ≤ UInt8.ofNat n ∧ UInt8.ofNat n ≤ 70) → ∀ a ∈ (nibble (UInt8.ofNat n)).toOption,
      a < 16 ∧ UInt8.ofNat n = (digit a.toNat).toUInt8 := by decide +kernel
  have hn := all p.toNat p.toNat_lt
  rw [UInt8.ofNat_toNat] at hn
  exact hn hp a (by rw [h]; rfl)

theorem toNat_byte {a b : UInt8} (ha : a < 16) (hb : b < 16) : (a <<< 4 ||| b).toNat = a.toNat * 16 + b.toNat := by
  have all : ∀ m < 16, ∀ n < 16, (UInt8.ofNat m <<< 4 ||| UInt8.ofNat n).toNat = m * 16 + n := by decide
  have hn := all a.toNat (UInt8.lt_iff_toNat_lt.mp ha) b.toNat (UInt8.lt_iff_toNat_lt.mp hb)
  rwa [UInt8.ofNat_toNat, UInt8.ofNat_toNat] at hn

theorem decode_cons_ok_iff {p q : UInt8} {src bs : List UInt8} :
    decode (p :: q :: src) = .ok bs ↔
      ∃ a b dst, nibble p = .ok a ∧ nibble q = .ok b ∧ decode src = .ok dst ∧ (a <<< 4 ||| b) :: dst = bs := by
  rw [decode]
  cases nibble p <;> cases nibble q <;> cases decode src <;> simp [bind, Except.bind]

/-- **What is decoded.** A text without capitals is decoded to bytes exactly if
it is their number in two digits a byte. -/
theorem decode_ok_iff {src bs : List UInt8} (hlower : Lower src) :
    decode src = .ok bs ↔ src = (digits (2 * bs.length) (value bs)).map Char.toUInt8 := by
  induction src using decode.induct generalizing bs with
  | case1 =>
    constructor
    · rintro ⟨⟩; rfl
    · intro h
      have hlen := congrArg List.length h
      simp only [List.length_map, length_digits, List.length_nil] at hlen
      obtain rfl : bs = [] := List.length_eq_zero_iff.mp (by omega)
      rfl
  | case2 p =>
    -- a digit without its pair
    constructor
    · intro h
      rw [decode] at h
      cases hp : nibble p <;> rw [hp] at h <;> cases h
    · intro h
      have hlen := congrArg List.length h
      simp only [List.length_map, length_digits, List.length_singleton] at hlen
      omega
  | case3 p q src ih =>
    have hp := hlower p List.mem_cons_self
    have hq := hlower q (List.mem_cons_of_mem _ List.mem_cons_self)
    have hsrc : Lower src := fun x hx => hlower x (List.mem_cons_of_mem _ (List.mem_cons_of_mem _ hx))
    rw [decode_cons_ok_iff]
    constructor
    · rintro ⟨a, b, dst, ha, hb, hdst, rfl⟩
      obtain ⟨ha, hpa⟩ := of_nibble hp ha
      obtain ⟨hb, hqb⟩ := of_nibble hq hb
      have hb16 : b.toNat < 16 := UInt8.lt_iff_toNat_lt.mp hb
      have hdiv : (a.toNat * 16 + b.toNat) / 16 = a.toNat := by omega
      have hmod : (a.toNat * 16 + b.toNat) % 16 = b.toNat := by omega
      rw [digits_cons, toNat_byte ha hb, hdiv, hmod, List.map_cons, List.map_cons, ← hpa, ← hqb, ← (ih hsrc).mp hdst]
    · intro h
      cases bs with
      | nil => cases h
      | cons x dst =>
        have hx : x.toNat < 256 := x.toNat_lt
        rw [digits_cons, List.map_cons, List.map_cons, List.cons.injEq, List.cons.injEq] at h
        obtain ⟨rfl, rfl, hrest⟩ := h
        have hdigit : ∀ n < 16, UInt8.ofNat n < 16 ∧ (UInt8.ofNat n).toNat = n := by decide
        obtain ⟨ha, han⟩ := hdigit (x.toNat / 16) (by omega)
        obtain ⟨hb, hbn⟩ := hdigit (x.toNat % 16) (by omega)
        have hna := nibble_digit ha
        have hnb := nibble_digit hb
        rw [han] at hna
        rw [hbn] at hnb
        refine ⟨_, _, dst, hna, hnb, (ih hsrc).mpr hrest, ?_⟩
        have hxb : (UInt8.ofNat (x.toNat / 16) <<< 4 ||| UInt8.ofNat (x.toNat % 16)).toNat = x.toNat := by
          rw [toNat_byte ha hb, han, hbn, Nat.div_add_mod']
        rw [UInt8.toNat_inj.mp hxb]

end Hex
