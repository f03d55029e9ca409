import TileTraffic.Bounds

/-!
The range of numbers.

A number that is read has to have a value among binary fractions of 53 significant bits below two to
the power of 1024. Its leading digits, as many as 64 bits hold, and its power of ten are each
rounded to such a fraction, and so is their product. The number is too large when the product is.
-/

namespace TileTraffic

namespace Json

def digitValue (d : Char) : Nat :=
  d.toNat - '0'.toNat

def natOfDigits (ds : List Char) : Nat :=
  ds.foldl (fun n d => 10 * n + digitValue d) 0

namespace Magnitude

/--
Put the digits of `ds` behind those of `n` until 64 bits are full. The second part of the result is
how many of them found room.
-/
def gather (n : Nat) : List Char → Nat × Nat
  | [] => (n, 0)
  | d :: ds =>
    let m := 10 * n + digitValue d
    if m < word64 then
      let (total, taken) := gather m ds
      (total, taken + 1)
    else
      (n, 0)

theorem gather_le (n : Nat) (ds : List Char) : (gather n ds).2 ≤ ds.length := by
  induction ds generalizing n with
  | nil => simp [gather]
  | cons d ds ih =>
    have := ih (10 * n + digitValue d)
    simp only [gather]
    split
    . simpa using this
    . simp

/--
The multiple of `unit` that is nearest to `n`. Halfway between two of them it is the even multiple.
-/
def nearest (unit n : Nat) : Nat :=
  let whole := n / unit
  let rest := n % unit
  if unit < 2 * rest ∨ unit = 2 * rest ∧ whole % 2 = 1 then unit * (whole + 1) else unit * whole

theorem nearest_le (unit n : Nat) : 2 * nearest unit n ≤ 2 * n + unit := by
  have := Nat.div_add_mod n unit
  simp only [nearest]
  split
  . rw [Nat.mul_add]
    omega
  . omega

theorem le_nearest {unit : Nat} (h : 0 < unit) (n : Nat) : 2 * n ≤ 2 * nearest unit n + unit := by
  have := Nat.div_add_mod n unit
  have := Nat.mod_lt n h
  simp only [nearest]
  split
  . rw [Nat.mul_add]
    omega
  . omega

/--
`n` in 53 significant bits.
-/
def rounded (n : Nat) : Nat :=
  nearest (1 <<< (n.log2 - 52)) n

/--
The first magnitude that has no value.
-/
def limit : Nat :=
  1 <<< 1024

/--
The number with these digits before and after the point, times ten to the power of `exponent`, has
no value.
-/
def isTooLarge (whole fraction : List Char) (exponent : Int) : Bool :=
  let (front, before) := gather 0 whole
  let (digits, after) := gather front fraction
  let scale := exponent + (whole.length - before : Nat) - after
  if digits = 0 ∨ scale < 0 then
    false
  else if 308 < scale then
    true
  else
    limit ≤ rounded (rounded digits * rounded (Nat.pow 10 scale.toNat))

end Magnitude

end Json

end TileTraffic
