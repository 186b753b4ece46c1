/-
Go's `time` package, as far as it decides an outcome: a time is seconds
since year 1 with a nanosecond part and, when it comes from `time.Now`, a
monotonic reading. Seconds are an int64 and wrap or saturate where Go's do:
`Unix` adds its offset with wrap-around, `Add` saturates, and a reading is
dropped when the sum leaves the range Go packs it in.
-/
import Mathlib.Algebra.Group.Int.Defs
import Mathlib.Algebra.Group.Nat.Defs
import Mathlib.Tactic.Common

namespace GoTime

/-- `time.Duration`, in nanoseconds. -/
abbrev Duration := Int

/-- `time.Second` in nanoseconds. -/
def second : Duration := 1000000000

/-- Seconds from year 1 to 1970. -/
def unixToInternal : Int := 62135596800

/-- Seconds from year 1 to 1885, where the packed seconds of a time with a
monotonic reading start. -/
def wallToInternal : Int := 59453308800

/-- The int64 an integer wraps to. -/
def int64 (x : Int) : Int := Int.bmod x (2 ^ 64)

/-- `time.Time`: the wall clock, and the monotonic reading if there is one. -/
structure Time where
  sec : Int
  nsec : Int
  mono : Option Int
  deriving DecidableEq, Repr

/-- `time.Unix(int64(sec), 0)`. -/
def unix (sec : UInt64) : Time := ⟨int64 (int64 sec.toNat + unixToInternal), 0, none⟩

/-- `t.Unix()`. -/
def Time.unix (t : Time) : Int := int64 (t.sec - unixToInternal)

/-- `uint64(t.Unix())`. -/
def Time.unixU64 (t : Time) : UInt64 := .ofNat (t.unix % 2 ^ 64).toNat

/-- `addSec`: the packed seconds of a monotonic reading overflow into the
saturating ones. -/
def Time.addSec (t : Time) (d : Int) : Time :=
  let packed := t.sec + d - wallToInternal
  if t.mono.isSome ∧ 0 ≤ packed ∧ packed < 2 ^ 33 then { t with sec := t.sec + d }
  else
    let sum := int64 (t.sec + d)
    let sec := if (t.sec < sum ↔ 0 < d) then sum else if 0 < d then 2 ^ 63 - 1 else -(2 ^ 63 - 1)
    ⟨sec, t.nsec, none⟩

/-- `t.Add(d)`. -/
def Time.add (t : Time) (d : Duration) : Time :=
  let dsec := d.tdiv second
  let nsec := t.nsec + d.tmod second
  let t' := if second ≤ nsec then ({ t with nsec := nsec - second } : Time).addSec (dsec + 1)
    else if nsec < 0 then ({ t with nsec := nsec + second } : Time).addSec (dsec - 1)
    else ({ t with nsec } : Time).addSec dsec
  match t'.mono with
  | none => t'
  | some m =>
    let te := int64 (m + d)
    if (d < 0 ∧ m < te) ∨ (0 < d ∧ te < m) then { t' with mono := none } else { t' with mono := some te }

/-- `t.Before(u)`: by the monotonic readings when both have one. -/
def Time.before (t u : Time) : Bool :=
  match t.mono, u.mono with
  | some m, some n => m < n
  | _, _ => t.sec < u.sec || (t.sec == u.sec && t.nsec < u.nsec)

/-- `t.Sub(u)`: by the monotonic readings when both have one, and saturated. -/
def Time.sub (t u : Time) : Duration :=
  let d := match t.mono, u.mono with
    | some m, some n => m - n
    | _, _ => (t.sec - u.sec) * second + (t.nsec - u.nsec)
  max (-2 ^ 63) (min (2 ^ 63 - 1) d)

/-! ## Unix times -/

/-- A time at or after 1970, as `time.Now` gives one: seconds in the range of
an int64 and a nanosecond part below one second. -/
structure Time.Current (t : Time) : Prop where
  epoch : unixToInternal ≤ t.sec
  sec_lt : t.sec < 2 ^ 63
  nsec_nonneg : 0 ≤ t.nsec
  nsec_lt : t.nsec < second

/-- Nanoseconds since 1970. -/
def Time.unixNano (t : Time) : Int := (t.sec - unixToInternal) * second + t.nsec

theorem int64_eq {x : Int} (hlo : -(2 ^ 63) ≤ x) (hhi : x < 2 ^ 63) : int64 x = x := by
  unfold int64
  rw [Int.bmod_eq_of_le] <;> omega

theorem int64_sub {x : Int} (hlo : 2 ^ 63 ≤ x) (hhi : x < 2 ^ 63 + 2 ^ 64) : int64 x = x - 2 ^ 64 := by
  unfold int64
  rw [Int.bmod_eq_iff (by decide)]
  exact ⟨by omega, by omega, -1, by omega⟩

theorem int64_add {x : Int} (hlo : -(2 ^ 63) - 2 ^ 64 ≤ x) (hhi : x < -(2 ^ 63)) : int64 x = x + 2 ^ 64 := by
  unfold int64
  rw [Int.bmod_eq_iff (by decide)]
  exact ⟨by omega, by omega, 1, by omega⟩

theorem unix_of_lt {sec : UInt64} (h : sec.toNat + unixToInternal < 2 ^ 63) :
    unix sec = ⟨sec.toNat + unixToInternal, 0, none⟩ := by
  unfold unixToInternal at h
  unfold unix unixToInternal
  have hsec : int64 sec.toNat = sec.toNat := int64_eq (by omega) (by omega)
  rw [hsec, int64_eq (by omega) (by omega)]

theorem unix_of_ge {sec : UInt64} (h : 2 ^ 63 ≤ sec.toNat + unixToInternal) :
    unix sec = ⟨sec.toNat + unixToInternal - 2 ^ 64, 0, none⟩ := by
  have hlt := sec.toNat_lt
  unfold unixToInternal at h
  unfold unix unixToInternal
  by_cases hsec : sec.toNat < 2 ^ 63
  · have hin : int64 sec.toNat = sec.toNat := int64_eq (by omega) (by omega)
    rw [hin, int64_sub (by omega) (by omega)]
  · have hin : int64 sec.toNat = sec.toNat - 2 ^ 64 := int64_sub (by omega) (by omega)
    have hshift : (sec.toNat : Int) - 2 ^ 64 + 62135596800 = sec.toNat + 62135596800 - 2 ^ 64 := by omega
    rw [hin, int64_eq (by omega) (by omega), hshift]

theorem addSec_of_none (sec nsec d : Int) : (⟨sec, nsec, none⟩ : Time).addSec d =
    ⟨if (sec < int64 (sec + d) ↔ 0 < d) then int64 (sec + d) else if 0 < d then 2 ^ 63 - 1 else -(2 ^ 63 - 1),
      nsec, none⟩ := by
  unfold Time.addSec
  rw [if_neg fun h => Bool.noConfusion h.1]

/-- A duration of whole seconds, added to a time of whole seconds without a
monotonic reading. -/
theorem add_of_none {sec k : Int} {d : Duration} (hdiv : d.tdiv second = k) (hmod : d.tmod second = 0) :
    (⟨sec, 0, none⟩ : Time).add d = (⟨sec, 0, none⟩ : Time).addSec k := by
  unfold Time.add
  dsimp only
  rw [hdiv, hmod, if_neg (by decide), if_neg (by decide), Int.add_zero, addSec_of_none]

/-- Seconds are subtracted, but not below the least int64. -/
theorem addSec_neg {sec : Int} {n : Nat} (hlo : -(2 ^ 63) ≤ sec) (hhi : sec < 2 ^ 63) (hpos : 0 < n)
    (hn : n < 2 ^ 63) :
    (⟨sec, 0, none⟩ : Time).addSec (-n) =
      ⟨if -(2 ^ 63) ≤ sec - n then sec - n else -(2 ^ 63 - 1), 0, none⟩ := by
  rw [addSec_of_none]
  by_cases hrange : -(2 ^ 63) ≤ sec - n
  · have hsum : int64 (sec + -n) = sec - n := by
      rw [int64_eq (by omega) (by omega)]
      omega
    have hkept : sec < sec - n ↔ (0 : Int) < -n := by omega
    rw [hsum, if_pos hkept, if_pos hrange]
  · have hsum : int64 (sec + -n) = sec - n + 2 ^ 64 := by
      rw [int64_add (by omega) (by omega)]
      omega
    have hwrapped : ¬ (sec < sec - n + 2 ^ 64 ↔ (0 : Int) < -n) := by omega
    have hneg : ¬ (0 : Int) < -n := by omega
    rw [hsum, if_neg hwrapped, if_neg hneg, if_neg hrange]

end GoTime
