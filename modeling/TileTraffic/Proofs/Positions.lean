import Mathlib.Algebra.BigOperators.Ring.List
import Mathlib.Algebra.Ring.Nat
import Mathlib.Data.List.Forall2
import TileTraffic.Bounds
import TileTraffic.Grid

/-!
Shapes and their positions. A shape whose sides can be multiplied out has as many positions as the
product of its sides says, and `position` goes through them without leaving one out or coming to one
twice.
-/

namespace TileTraffic

theorem product?_eq_some_iff {limit n : Nat} {factors : List Nat} (hlimit : 1 < limit) :
    product? limit factors = some n ↔
      (∀ k, (factors.take k).prod < limit) ∧ n = factors.prod := by
  suffices hall : ∀ m, m < limit →
      (factors.foldlM (fun n factor => fit? limit (n * factor)) m = some n ↔
        (∀ k, m * (factors.take k).prod < limit) ∧ n = m * factors.prod) by
    have := hall 1 hlimit
    simp only [Nat.one_mul] at this
    exact this
  induction factors with
  | nil =>
    intro m hm
    simp [hm, eq_comm]
  | cons factor factors ih =>
    intro m hm
    rw [List.foldlM_cons, Option.bind_eq_bind, Option.bind_eq_some_iff, List.prod_cons,
      ← Nat.mul_assoc]
    constructor
    . intro ⟨_, hfit, hrest⟩
      obtain ⟨hlt, rfl⟩ := fit?_eq_some_iff.mp hfit
      obtain ⟨hall, rfl⟩ := (ih _ hlt).mp hrest
      refine ⟨fun k => ?_, rfl⟩
      cases k with
      | zero => simpa using hm
      | succ k =>
        rw [List.take_succ_cons, List.prod_cons, ← Nat.mul_assoc]
        exact hall k
    . intro ⟨hall, hn⟩
      have hrest : ∀ k, m * factor * (factors.take k).prod < limit := by
        intro k
        have := hall (k + 1)
        rwa [List.take_succ_cons, List.prod_cons, ← Nat.mul_assoc] at this
      have hlt : m * factor < limit := by simpa using hrest 0
      exact ⟨_, fit?_eq_some_iff.mpr ⟨hlt, rfl⟩, (ih _ hlt).mpr ⟨hrest, hn⟩⟩

/--
Without a factor of zero, a product is found just when it fits.
-/
theorem product?_eq_some_iff_of_ne_zero {limit n : Nat} {factors : List Nat} (hlimit : 1 < limit)
    (h : 0 ∉ factors) : product? limit factors = some n ↔ n = factors.prod ∧ n < limit := by
  rw [product?_eq_some_iff hlimit]
  constructor
  . rintro ⟨hall, rfl⟩
    have hlt := hall factors.length
    rw [List.take_length] at hlt
    exact ⟨rfl, hlt⟩
  . rintro ⟨rfl, hlt⟩
    refine ⟨?_, rfl⟩
    intro k
    have hpos : 0 < (factors.drop k).prod := by
      apply Nat.pos_of_ne_zero
      exact List.prod_ne_zero fun hmem => h (List.mem_of_mem_drop hmem)
    calc (factors.take k).prod
      _ ≤ (factors.take k).prod * (factors.drop k).prod := Nat.le_mul_of_pos_right _ hpos
      _ = factors.prod := List.prod_take_mul_prod_drop factors k
      _ < limit := hlt

theorem one_lt_word32 : 1 < word32 := by
  decide

theorem one_lt_word64 : 1 < word64 := by
  decide

/--
`p` is a position of a box with the given side lengths.
-/
def IsPosition (shape p : List Nat) : Prop :=
  List.Forall₂ (fun side i => i < side) shape p

/--
The number of a position, the first coordinate running fastest.
-/
def numberOf : List Nat → List Nat → Nat
  | side :: sides, i :: is => i + side * numberOf sides is
  | _, _ => 0

variable {shape p : List Nat} {n : Nat}

theorem IsPosition.numberOf_lt (h : IsPosition shape p) : numberOf shape p < shape.prod := by
  induction h with
  | nil => simp [numberOf]
  | @cons side i sides is hi _ ih =>
    rw [numberOf, List.prod_cons]
    calc i + side * numberOf sides is
      _ < side + side * numberOf sides is := by omega
      _ = side * (numberOf sides is + 1) := by rw [Nat.mul_succ, Nat.add_comm]
      _ ≤ side * sides.prod := Nat.mul_le_mul_left side ih

theorem IsPosition.position_numberOf (h : IsPosition shape p) :
    position shape (numberOf shape p) = p := by
  induction h with
  | nil => rfl
  | @cons side i sides is hi _ ih =>
    have hside : max side 1 = side := by omega
    have hrest : (i + side * numberOf sides is) / side = numberOf sides is := by
      rw [Nat.add_mul_div_left _ _ (by omega), Nat.div_eq_of_lt hi, Nat.zero_add]
    rw [numberOf, position, hside, Nat.add_mul_mod_self_left, Nat.mod_eq_of_lt hi, hrest, ih]

theorem isPosition_position (h : n < shape.prod) : IsPosition shape (position shape n) := by
  induction shape generalizing n with
  | nil => exact .nil
  | cons side sides ih =>
    rw [List.prod_cons] at h
    have hpos : 0 < side := Nat.pos_of_ne_zero fun hzero => by simp [hzero] at h
    have hside : max side 1 = side := by omega
    rw [position, hside]
    exact .cons (Nat.mod_lt n hpos) (ih (Nat.div_lt_of_lt_mul h))

theorem numberOf_position (h : n < shape.prod) : numberOf shape (position shape n) = n := by
  induction shape generalizing n with
  | nil =>
    rw [List.prod_nil] at h
    exact (Nat.lt_one_iff.mp h).symm
  | cons side sides ih =>
    rw [List.prod_cons] at h
    have hpos : 0 < side := Nat.pos_of_ne_zero fun hzero => by simp [hzero] at h
    have hside : max side 1 = side := by omega
    rw [position, numberOf, hside, ih (Nat.div_lt_of_lt_mul h), Nat.mod_add_div]

/--
The number of a position is the only one, and every position has one.
-/
theorem position_eq_iff (hn : n < shape.prod) :
    position shape n = p ↔ IsPosition shape p ∧ n = numberOf shape p := by
  constructor
  . rintro rfl
    exact ⟨isPosition_position hn, (numberOf_position hn).symm⟩
  . rintro ⟨hp, rfl⟩
    exact hp.position_numberOf

theorem IsPosition.numberOf_inj {q : List Nat} (h : IsPosition shape p) (h' : IsPosition shape q) :
    numberOf shape p = numberOf shape q ↔ p = q := by
  constructor
  . intro heq
    rw [← h.position_numberOf, heq, h'.position_numberOf]
  . rintro rfl
    rfl

/--
Another dimension behind the others runs slowest.
-/
theorem IsPosition.numberOf_push (h : IsPosition shape p) (side i : Nat) :
    numberOf (shape ++ [side]) (p ++ [i]) = numberOf shape p + shape.prod * i := by
  induction h with
  | nil => simp [numberOf]
  | @cons first i₀ sides is _ _ ih =>
    rw [List.cons_append, List.cons_append, numberOf, numberOf, ih, List.prod_cons, Nat.mul_add,
      Nat.mul_assoc, Nat.add_assoc]

theorem isPosition_reverse : IsPosition shape.reverse p.reverse ↔ IsPosition shape p := by
  unfold IsPosition
  rw [List.forall₂_reverse_iff]

end TileTraffic
