/-!
Numbers that have to fit a machine word.

Counts, extents and addresses are natural numbers throughout. Where the hardware or the wire format
gives them a width, a product is formed factor by factor and given up as soon as it leaves that
width.
-/

namespace TileTraffic

def word32 : Nat := 0x1_0000_0000

def word64 : Nat := 0x1_0000_0000_0000_0000

/--
`n`, provided that it is below `limit`.
-/
def fit? (limit n : Nat) : Option Nat :=
  if n < limit then some n else none

theorem fit?_eq_some_iff {limit n m : Nat} : fit? limit n = some m ↔ n < limit ∧ n = m := by
  unfold fit?
  split <;> simp [*]

/--
The product of `factors`, provided that the product of every initial stretch of them stays below
`limit`. A later factor of zero does not rescue an earlier product that was too large.
-/
def product? (limit : Nat) (factors : List Nat) : Option Nat :=
  factors.foldlM (fun n factor => fit? limit (n * factor)) 1

/--
The least number below `n` that satisfies `p`.
-/
def firstBelow (n : Nat) (p : Nat → Bool) : Option Nat :=
  go n 0
where
  go : Nat → Nat → Option Nat
    | 0, _ => none
    | left + 1, i => if p i then some i else go left (i + 1)

theorem firstBelow_go_eq_some {p : Nat → Bool} {left i n : Nat}
    (h : firstBelow.go p left i = some n) : n < i + left ∧ p n := by
  induction left generalizing i with
  | zero => simp [firstBelow.go] at h
  | succ left ih =>
    unfold firstBelow.go at h
    split at h
    . next hp =>
      obtain rfl := Option.some.inj h
      exact ⟨by omega, hp⟩
    . have := ih h
      exact ⟨by omega, this.2⟩

theorem firstBelow_eq_some {p : Nat → Bool} {limit n : Nat} (h : firstBelow limit p = some n) :
    n < limit ∧ p n := by
  have := firstBelow_go_eq_some h
  exact ⟨by omega, this.2⟩

theorem firstBelow_go_least {p : Nat → Bool} {left i n : Nat}
    (h : firstBelow.go p left i = some n) {m : Nat} (hi : i ≤ m) (hm : m < n) : p m = false := by
  induction left generalizing i with
  | zero => simp [firstBelow.go] at h
  | succ left ih =>
    unfold firstBelow.go at h
    split at h
    . obtain rfl := Option.some.inj h
      omega
    . next hp =>
      by_cases heq : m = i
      . subst heq
        simpa using hp
      . exact ih h (by omega)

theorem firstBelow_least {p : Nat → Bool} {limit n : Nat} (h : firstBelow limit p = some n)
    {m : Nat} (hm : m < n) : p m = false :=
  firstBelow_go_least h (Nat.zero_le m) hm

theorem exists_firstBelow {p : Nat → Bool} {limit n : Nat} (hn : n < limit) (hp : p n = true) :
    ∃ m, firstBelow limit p = some m := by
  suffices hall : ∀ left i, i ≤ n → n < i + left → ∃ m, firstBelow.go p left i = some m by
    exact hall limit 0 (Nat.zero_le n) (by omega)
  intro left
  induction left with
  | zero =>
    intro i hle hlt
    omega
  | succ left ih =>
    intro i hle hlt
    unfold firstBelow.go
    split
    . exact ⟨i, rfl⟩
    . next hnot =>
      have hne : i ≠ n := by
        rintro rfl
        exact hnot hp
      exact ih (i + 1) (by omega) (by omega)

end TileTraffic
