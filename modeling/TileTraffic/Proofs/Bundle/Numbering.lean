import Mathlib.Algebra.BigOperators.Ring.Finset
import Mathlib.Data.List.GetD
import TileTraffic.Proofs.Bundle.Destination

/-!
The number of a destination, written out. Along each dimension the index counts as often as the
dimensions before it have positions; along a dimension of size 1 it does not count. So two gets
share a destination just if their indices agree along all other dimensions.
-/

namespace TileTraffic

theorem numberOf_eq_sum {shape p : List Nat} (h : p.length = shape.length) :
    numberOf shape p = ∑ i ∈ Finset.range shape.length, p.getD i 0 * (shape.take i).prod := by
  induction shape generalizing p with
  | nil => simp [numberOf]
  | cons side sides ih =>
    obtain ⟨i, is, rfl⟩ := List.exists_cons_of_length_eq_add_one h
    have hlength : is.length = sides.length := by simpa using h
    rw [numberOf, ih hlength, List.length_cons, Finset.sum_range_succ', Finset.mul_sum, Nat.add_comm]
    simp only [List.getD_cons_succ, List.getD_cons_zero, List.take_succ_cons, List.prod_cons,
      List.take_zero, List.prod_nil, Nat.mul_one, Nat.mul_left_comm]

namespace ChannelDecl

variable {c : ChannelDecl} {op op' : Op} {shape indices indices' : List Nat} {n n' : Nat}

theorem length_destinationPosition (h : indices.length = shape.length) :
    (destinationPosition shape indices).length = shape.length := by
  rw [destinationPosition, List.length_zipWith, h, Nat.min_self]

theorem getD_destinationPosition (h : indices.length = shape.length) {i : Nat}
    (hi : i < shape.length) :
    (destinationPosition shape indices).getD i 0 =
      if shape.getD i 0 = 1 then 0 else indices.getD i 0 := by
  have hi' : i < indices.length := h ▸ hi
  have hi'' : i < (destinationPosition shape indices).length :=
    length_destinationPosition h ▸ hi
  rw [List.getD_eq_getElem _ _ hi'', List.getD_eq_getElem _ _ hi, List.getD_eq_getElem _ _ hi']
  exact List.getElem_zipWith

/--
Two gets mean the same position just if their indices agree along the dimensions that count.
-/
theorem destinationPosition_eq_iff (h : indices.length = shape.length)
    (h' : indices'.length = shape.length) :
    destinationPosition shape indices = destinationPosition shape indices' ↔
      ∀ i < shape.length, shape.getD i 0 ≠ 1 → indices.getD i 0 = indices'.getD i 0 := by
  constructor
  . intro heq i hi hside
    have hsame := getD_destinationPosition h hi
    rw [heq, getD_destinationPosition h' hi, if_neg hside, if_neg hside] at hsame
    exact hsame.symm
  . intro hagree
    apply List.ext_getElem
    . rw [length_destinationPosition h, length_destinationPosition h']
    . intro i hi hi'
      have hlt : i < shape.length := length_destinationPosition h ▸ hi
      rw [← List.getD_eq_getElem _ 0 hi, ← List.getD_eq_getElem _ 0 hi',
        getD_destinationPosition h hlt, getD_destinationPosition h' hlt]
      split
      . rfl
      . next hside => exact hagree i hlt hside

theorem names_iff_getD :
    Names shape indices ↔ indices.length = shape.length ∧
      ∀ i < shape.length, indices.getD i 0 < shape.getD i 0 ∨ shape.getD i 0 = 1 := by
  unfold Names
  rw [List.forall₂_iff_get, eq_comm]
  apply and_congr_right
  intro hlength
  constructor
  . intro hall i hi
    have hi' : i < indices.length := hlength ▸ hi
    rw [List.getD_eq_getElem _ _ hi, List.getD_eq_getElem _ _ hi']
    exact hall i hi hi'
  . intro hall i hi hi'
    have hget := hall i hi
    rwa [List.getD_eq_getElem _ _ hi, List.getD_eq_getElem _ _ hi'] at hget

theorem destination_eq_ok_iff_sum (hshape : c.broadcastShape = some shape) :
    c.destination op = .ok n ↔
      op.indices.length = shape.length ∧ (∀ k, (shape.take k).prod < word32) ∧
        (∀ i < shape.length, op.indices.getD i 0 < shape.getD i 0 ∨ shape.getD i 0 = 1) ∧
        n = ∑ i ∈ Finset.range shape.length,
          (if shape.getD i 0 = 1 then 0 else op.indices.getD i 0) * (shape.take i).prod := by
  have hcountable : c.Countable ↔ ∀ k, (shape.take k).prod < word32 := by
    simp [Countable, hshape]
  rw [destination_eq_ok_iff hshape, names_iff_getD, hcountable, and_assoc, and_left_comm]
  apply and_congr_right
  intro hlength
  have hsum : numberOf shape (destinationPosition shape op.indices) =
      ∑ i ∈ Finset.range shape.length,
        (if shape.getD i 0 = 1 then 0 else op.indices.getD i 0) * (shape.take i).prod := by
    rw [numberOf_eq_sum (length_destinationPosition hlength)]
    apply Finset.sum_congr rfl
    intro i hi
    rw [getD_destinationPosition hlength (Finset.mem_range.mp hi)]
  rw [hsum]

theorem destination_lt_consumerCount (hshape : c.broadcastShape = some shape)
    (h : c.destination op = .ok n) : ∃ count, c.consumerCount? = some count ∧ n < count := by
  obtain ⟨hcountable, hnames, rfl⟩ := (destination_eq_ok_iff hshape).mp h
  refine ⟨_, consumerCount?_eq_some_iff.mpr ⟨hcountable, rfl⟩, ?_⟩
  rw [destinations, hshape]
  exact (names_iff.mp hnames).2.numberOf_lt

theorem destination_inj (hshape : c.broadcastShape = some shape) (h : c.destination op = .ok n)
    (h' : c.destination op' = .ok n') :
    n = n' ↔ ∀ i < shape.length, shape.getD i 0 ≠ 1 →
      op.indices.getD i 0 = op'.indices.getD i 0 := by
  obtain ⟨_, hnames, rfl⟩ := (destination_eq_ok_iff hshape).mp h
  obtain ⟨_, hnames', rfl⟩ := (destination_eq_ok_iff hshape).mp h'
  obtain ⟨hlength, hposition⟩ := names_iff.mp hnames
  obtain ⟨hlength', hposition'⟩ := names_iff.mp hnames'
  rw [hposition.numberOf_inj hposition', destinationPosition_eq_iff hlength hlength']

/--
The search for a destination comes to this: a get has one just if it has an index for each dimension,
the positions of the shape can be counted in a word, and each index is below its dimension or does
not count. The destination is below the number of destinations, and two gets share it just if their
indices agree wherever they count.
-/
theorem destination_closed_form (hshape : c.broadcastShape = some shape) :
    (∀ op n, c.destination op = .ok n ↔
      op.indices.length = shape.length ∧ (∀ k, (shape.take k).prod < word32) ∧
        (∀ i < shape.length, op.indices.getD i 0 < shape.getD i 0 ∨ shape.getD i 0 = 1) ∧
        n = ∑ i ∈ Finset.range shape.length,
          (if shape.getD i 0 = 1 then 0 else op.indices.getD i 0) * (shape.take i).prod) ∧
    (∀ op n, c.destination op = .ok n → ∃ count, c.consumerCount? = some count ∧ n < count) ∧
    ∀ op op' n n', c.destination op = .ok n → c.destination op' = .ok n' →
      (n = n' ↔ ∀ i < shape.length, shape.getD i 0 ≠ 1 →
        op.indices.getD i 0 = op'.indices.getD i 0) :=
  ⟨fun _ _ => destination_eq_ok_iff_sum hshape, fun _ _ => destination_lt_consumerCount hshape,
    fun _ _ _ _ => destination_inj hshape⟩

/--
A broadcast in three dimensions, the second of which has size 1.
-/
def tower : ChannelDecl :=
  ⟨"tower", some [2, 1, 3]⟩

namespace tower

def get (indices : List Nat) : Op :=
  ⟨1, .get "tower" (.whole "near" .tileLocal), none, none, indices, [], none⟩

end tower

/--
The second index may be anything.
-/
theorem tower_destination : tower.broadcastShape = some [2, 1, 3] ∧
    tower.destination (tower.get [1, 7, 2]) = .ok 5 ∧
    tower.destination (tower.get [1, 0, 2]) = .ok 5 ∧
    (∀ n, tower.destination (tower.get [2, 0, 2]) ≠ .ok n) := by
  have hshape : tower.broadcastShape = some [2, 1, 3] := rfl
  obtain ⟨hok, _, _⟩ := destination_closed_form hshape
  have hcountable : ∀ k, (([2, 1, 3] : List Nat).take k).prod < word32 := by
    intro k
    match k with
    | 0 | 1 | 2 => decide
    | k + 3 => simp [word32]
  refine ⟨hshape, (hok _ _).mpr ⟨rfl, hcountable, by decide, by decide⟩,
    (hok _ _).mpr ⟨rfl, hcountable, by decide, by decide⟩, ?_⟩
  intro n hn
  obtain ⟨_, _, hbelow, _⟩ := (hok _ _).mp hn
  exact absurd (hbelow 0 (by decide)) (by decide)

end ChannelDecl

end TileTraffic
