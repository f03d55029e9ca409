import TileTraffic.Json.Token

/-!
Integers are read back as they are written: the digits of a number have no zero in front and spell
the number, and numbers of 64 bits are far from too large.
-/

namespace TileTraffic

namespace Json

/-! ### Digits -/

theorem natOfDigits_toDigits (n : Nat) : natOfDigits (Nat.toDigits 10 n) = n := by
  have h := Nat.ofDigitChars_ten_toDigits (n := n)
  rw [Nat.ofDigitChars_eq_foldl] at h
  exact h

theorem isDigit_of_mem_toDigits {n : Nat} {c : Char} (h : c ∈ Nat.toDigits 10 n) :
    c.isDigit = true :=
  Nat.isDigit_of_mem_toDigits (by decide) (by decide) h

theorem head_toDigits {n : Nat} (h : 0 < n) :
    ∃ d ds, Nat.toDigits 10 n = d :: ds ∧ d ≠ '0' := by
  induction n using Nat.strongRecOn with
  | ind n ih =>
    rw [Nat.toDigits_eq_if (by decide)]
    split
    . exact ⟨_, _, rfl, by rw [ne_eq, Nat.digitChar_eq_zero]; omega⟩
    . obtain ⟨d, ds, hdigits, hd⟩ := ih (n / 10) (by omega) (by omega)
      rw [hdigits]
      exact ⟨d, _, rfl, hd⟩

namespace Magnitude

theorem gather_eq {ds : List Char} {n : Nat}
    (h : ds.foldl (fun n d => 10 * n + digitValue d) n < word64) :
    gather n ds = (ds.foldl (fun n d => 10 * n + digitValue d) n, ds.length) := by
  have hgrow : ∀ (ds : List Char) (n : Nat),
      n ≤ ds.foldl (fun n d => 10 * n + digitValue d) n := by
    intro ds
    induction ds with
    | nil => exact fun n => Nat.le_refl n
    | cons d ds ih => exact fun n => Nat.le_trans (by omega) (ih (10 * n + digitValue d))
  induction ds generalizing n with
  | nil => rfl
  | cons d ds ih =>
    rw [List.foldl_cons] at h
    have hroom : 10 * n + digitValue d < word64 := Nat.lt_of_le_of_lt (hgrow ds _) h
    simp only [gather, if_pos hroom, ih h, List.foldl_cons, List.length_cons]

theorem rounded_le (n : Nat) : rounded n ≤ 2 * n := by
  have hnear := nearest_le (1 <<< (n.log2 - 52)) n
  have hunit : 1 <<< (n.log2 - 52) ≤ n + 1 := by
    rw [Nat.one_shiftLeft]
    by_cases hzero : n = 0
    . subst hzero
      decide
    . have hpow : 2 ^ (n.log2 - 52) ≤ 2 ^ n.log2 := Nat.pow_le_pow_right (by decide) (by omega)
      have hlog := Nat.log2_self_le hzero
      omega
  unfold rounded
  omega

theorem word64_lt_limit : 4 * word64 < limit := by
  have hpow : ∀ n, 67 ≤ n → 2 ^ 67 ≤ 2 ^ n := fun _ hn => Nat.pow_le_pow_right (by decide) hn
  have hword : 4 * word64 < 2 ^ 67 := by decide
  unfold limit
  rw [Nat.one_shiftLeft]
  exact Nat.lt_of_lt_of_le hword (hpow 1024 (by decide))

/--
A number of 64 bits that is written without fraction and exponent has a value.
-/
theorem isTooLarge_of_lt {ds : List Char} (h : natOfDigits ds < word64) :
    isTooLarge ds [] 0 = false := by
  unfold isTooLarge
  have hgather : gather 0 ds = (natOfDigits ds, ds.length) := gather_eq h
  rw [hgather]
  dsimp only [gather]
  have hscale : (0 : Int) + (ds.length - ds.length : Nat) - (0 : Nat) = 0 := by omega
  rw [hscale]
  by_cases hzero : natOfDigits ds = 0 ∨ (0 : Int) < 0
  . rw [if_pos hzero]
  . rw [if_neg hzero, if_neg (by decide), decide_eq_false_iff_not, Nat.not_le]
    have hone : rounded (Nat.pow 10 (0 : Int).toNat) = 1 := by decide
    rw [hone, Nat.mul_one]
    have hlimit := word64_lt_limit
    have hfirst := rounded_le (natOfDigits ds)
    have hsecond := rounded_le (rounded (natOfDigits ds))
    omega

end Magnitude

/-! ### Numbers -/

namespace Token

theorem digits?_of_isDigit {ds : List Char} (hne : ds ≠ []) (h : ∀ d ∈ ds, d.isDigit = true) :
    digits? ds = some (ds, []) := by
  have htake := @List.takeWhile_append_of_pos Char Char.isDigit ds [] h
  have hdrop := @List.dropWhile_append_of_pos Char Char.isDigit ds [] h
  rw [List.append_nil] at htake hdrop
  unfold digits?
  rw [htake, hdrop, List.takeWhile_nil, List.dropWhile_nil, List.append_nil]
  split
  . exact absurd rfl hne
  . rfl

theorem whole?_toDigits (n : Nat) :
    whole? (Nat.toDigits 10 n) = some (Nat.toDigits 10 n, []) := by
  have hdigits := digits?_of_isDigit (Nat.toDigits_ne_nil (n := n) (b := 10))
    fun _ hd => isDigit_of_mem_toDigits hd
  unfold whole?
  rw [hdigits]
  by_cases hzero : n = 0
  . subst hzero
    rfl
  . obtain ⟨d, ds, heq, hd⟩ := head_toDigits (Nat.pos_of_ne_zero hzero)
    rw [heq]
    split
    . next hsome =>
      obtain ⟨rfl, _⟩ := List.cons.inj (Prod.mk.inj (Option.some.inj hsome)).1
      exact absurd rfl hd
    . rfl

theorem number?_toDigits {n : Nat} (h : n < word64) :
    number? (Nat.toDigits 10 n) = some (.int n) := by
  have hhead : ((Nat.toDigits 10 n).head? == some '-') = false := by
    cases hdigits : Nat.toDigits 10 n with
    | nil => rfl
    | cons d ds =>
      have hd : d.isDigit = true := isDigit_of_mem_toDigits (n := n) (by simp [hdigits])
      have hne : d ≠ '-' := by
        rintro rfl
        cases hd
      simpa using hne
  have hlarge : Magnitude.isTooLarge (Nat.toDigits 10 n) [] 0 = false :=
    Magnitude.isTooLarge_of_lt (by rwa [natOfDigits_toDigits])
  unfold number?
  simp only [hhead]
  simp [whole?_toDigits, fraction?, exponent?, hlarge, natOfDigits_toDigits]

theorem number?_neg_toDigits {n : Nat} (hpos : 0 < n) (h : n < word64) :
    number? ('-' :: Nat.toDigits 10 n) = some (.int (-n)) := by
  have hzero : Nat.toDigits 10 n ≠ ['0'] := by
    obtain ⟨d, ds, heq, hd⟩ := head_toDigits hpos
    rw [heq]
    simp [hd]
  have hlarge : Magnitude.isTooLarge (Nat.toDigits 10 n) [] 0 = false :=
    Magnitude.isTooLarge_of_lt (by rwa [natOfDigits_toDigits])
  unfold number?
  simp [whole?_toDigits, fraction?, exponent?, hlarge, hzero, natOfDigits_toDigits]

end Token

end Json

end TileTraffic
