import TileTraffic.Proofs.Descriptor.Window

/-!
The elements of a buffer and the offsets that lead to them. With natural strides, every position in a
buffer has an element of its own, and no element is left out. Dimensions that offsets do not reach
are at 0.
-/

namespace TileTraffic

variable {shape p : List Nat} {n : Nat}

/--
The natural strides number the positions, the last coordinate running fastest.
-/
theorem IsPosition.dot_naturalStrides (h : IsPosition shape p) :
    dot p (naturalStrides shape) = numberOf shape.reverse p.reverse := by
  induction h with
  | nil => rfl
  | @cons side i sides is _ hrest ih =>
    rw [naturalStrides, dot_cons, List.reverse_cons, List.reverse_cons,
      (isPosition_reverse.mpr hrest).numberOf_push, ih, List.prod_reverse, Nat.mul_comm,
      Nat.add_comm]

theorem IsPosition.dot_lt (h : IsPosition shape p) :
    dot p (naturalStrides shape) < shape.prod := by
  rw [h.dot_naturalStrides, ← List.prod_reverse]
  exact (isPosition_reverse.mpr h).numberOf_lt

theorem existsUnique_isPosition (hn : n < shape.prod) :
    ∃! p, IsPosition shape p ∧ dot p (naturalStrides shape) = n := by
  have hn' : n < shape.reverse.prod := by rwa [List.prod_reverse]
  refine ⟨(position shape.reverse n).reverse, ?_, ?_⟩
  . have hp := isPosition_position hn'
    have hp' : IsPosition shape (position shape.reverse n).reverse := by
      rw [← isPosition_reverse, List.reverse_reverse]
      exact hp
    refine ⟨hp', ?_⟩
    rw [hp'.dot_naturalStrides, List.reverse_reverse, numberOf_position hn']
  . rintro p ⟨hp, rfl⟩
    rw [hp.dot_naturalStrides, (isPosition_reverse.mpr hp).position_numberOf, List.reverse_reverse]

theorem mem_naturalStrides_le (h : 0 ∉ shape) {stride : Nat}
    (hstride : stride ∈ naturalStrides shape) : stride ≤ shape.prod := by
  induction shape with
  | nil => cases hstride
  | cons side sides ih =>
    rw [List.mem_cons, not_or] at h
    have hle : sides.prod ≤ (side :: sides).prod := by
      rw [List.prod_cons]
      exact Nat.le_mul_of_pos_left _ (by omega)
    rcases List.mem_cons.mp hstride with rfl | hstride
    . exact hle
    . exact (ih h.2 hstride).trans hle

namespace Access

variable {a : Access} {op : Op} {buffer : Buffer}

theorem representable_of_prod_lt (hzero : 0 ∉ shape) (hvolume : shape.prod < word64) :
    a.Representable shape :=
  fun _ _ hstride => Nat.lt_of_le_of_lt (mem_naturalStrides_le hzero hstride) hvolume

/--
As many offsets as the buffer has dimensions go with all of its strides.
-/
theorem stridesFor_of_length (hstrides : a.strides = []) (h : a.offsets.length = shape.length) :
    a.stridesFor shape = (naturalStrides shape).map .known := by
  unfold stridesFor
  rw [if_pos hstrides, h, Nat.sub_self, List.drop_zero]

theorem aligned_of_length_le (hstrides : a.strides = []) (h : a.offsets.length ≤ shape.length) :
    a.Aligned shape := by
  unfold Aligned
  rw [if_pos hstrides]
  exact h

theorem baseOffset_withOffsets (hstrides : a.strides = []) (hzero : 0 ∉ buffer.shape)
    (hvolume : buffer.shape.prod < word64) (hp : IsPosition buffer.shape p) :
    (a.withOffsets p).baseOffset op buffer = .ok (dot p (naturalStrides buffer.shape)) := by
  have hlength : (a.withOffsets p).offsets.length = buffer.shape.length := by
    rw [hp.length_eq]
    exact List.length_map _
  by_cases hne : p = []
  . subst hne
    exact baseOffset_nil rfl
  . have haligned := aligned_of_length_le (a := a.withOffsets p) hstrides (Nat.le_of_eq hlength)
    have hsome : (a.withOffsets p).offsets ≠ [] := fun h => hne (List.map_eq_nil_iff.mp h)
    apply (((a.withOffsets p).exactOffset op buffer).known hsome haligned p _ rfl
      (stridesFor_of_length hstrides hlength) _).mpr
    exact ⟨representable_of_prod_lt hzero hvolume, rfl, hp.dot_lt.trans hvolume⟩

/-! ### Fewer offsets than dimensions -/

/--
The access with 0 for the offsets that are missing in front.
-/
def padTo (a : Access) (rank : Nat) : Access :=
  { a with offsets := List.replicate (rank - a.offsets.length) (.known 0) ++ a.offsets }

theorem length_offsets_padTo {rank : Nat} (h : a.offsets.length ≤ rank) :
    (a.padTo rank).offsets.length = rank := by
  unfold padTo
  rw [List.length_append, List.length_replicate]
  omega

/--
Offsets are summed up only as far as they are among the summands.
-/
theorem sumOffsets_padTo (rank sum : Nat) (dims : List (Dim × Dim)) :
    (a.padTo rank).sumOffsets op sum dims = a.sumOffsets op sum dims := by
  induction dims generalizing sum with
  | nil => rfl
  | cons dim dims ih =>
    obtain ⟨index, stride⟩ := dim
    cases index with
    | runtime name => rfl
    | known i =>
      cases stride with
      | runtime name => rfl
      | known k =>
        simp only [sumOffsets, ih]
        rfl

/--
Offsets of 0 in front leave the sum to the strides behind theirs.
-/
theorem sumOffsets_zeros {missing : Nat} {ks : List Nat} (h : missing ≤ ks.length)
    (offsets : List Dim) :
    a.sumOffsets op 0 ((List.replicate missing (Dim.known 0) ++ offsets).zip (ks.map .known)) =
      a.sumOffsets op 0 (offsets.zip ((ks.drop missing).map .known)) := by
  induction missing generalizing ks with
  | zero => rfl
  | succ missing ih =>
    cases ks with
    | nil => simp at h
    | cons k ks =>
      rw [List.replicate_succ, List.map_cons, List.cons_append, List.zip_cons_cons, sumOffsets,
        Nat.zero_mul, List.drop_succ_cons]
      exact ih (Nat.le_of_succ_le_succ h)

theorem baseOffset_eq (haligned : a.Aligned buffer.shape)
    (hrepresentable : a.Representable buffer.shape) :
    a.baseOffset op buffer = a.sumOffsets op 0 (a.offsets.zip (a.stridesFor buffer.shape)) := by
  by_cases hne : a.offsets = []
  . rw [baseOffset_nil hne, hne]
    rfl
  . unfold baseOffset
    rw [if_neg (by simpa using hne),
      effectiveStrides_eq_ok_iff.mpr ⟨haligned, hrepresentable, rfl⟩]
    rfl

/--
Leading offsets of 0 make no difference, not even to what goes wrong.
-/
theorem baseOffset_padTo (hstrides : a.strides = []) (hzero : 0 ∉ buffer.shape)
    (hvolume : buffer.shape.prod < word64) (hlength : a.offsets.length ≤ buffer.shape.length) :
    (a.padTo buffer.shape.length).baseOffset op buffer = a.baseOffset op buffer := by
  have hfull := length_offsets_padTo hlength
  have haligned : (a.padTo buffer.shape.length).Aligned buffer.shape :=
    aligned_of_length_le hstrides (Nat.le_of_eq hfull)
  have hmissing : buffer.shape.length - a.offsets.length ≤ (naturalStrides buffer.shape).length := by
    rw [length_naturalStrides]
    omega
  calc (a.padTo buffer.shape.length).baseOffset op buffer
    _ = a.sumOffsets op 0 ((a.padTo buffer.shape.length).offsets.zip
        ((naturalStrides buffer.shape).map .known)) := by
      rw [baseOffset_eq haligned (representable_of_prod_lt hzero hvolume),
        stridesFor_of_length (a := a.padTo _) hstrides hfull, sumOffsets_padTo]
    _ = a.sumOffsets op 0 (a.offsets.zip (a.stridesFor buffer.shape)) := by
      rw [padTo, sumOffsets_zeros hmissing, stridesFor, if_pos hstrides]
    _ = a.baseOffset op buffer := by
      rw [baseOffset_eq (aligned_of_length_le hstrides hlength)
        (representable_of_prod_lt hzero hvolume)]

/--
Without strides, the positions in a buffer and its elements are one to one: every position has an
element and every element just one position. Missing offsets count as 0.
-/
theorem elements_one_to_one (op : Op) (hstrides : a.strides = []) (hzero : 0 ∉ buffer.shape)
    (hvolume : buffer.shape.prod < word64) :
    (∀ p, IsPosition buffer.shape p →
      ∃ n < buffer.shape.prod, (a.withOffsets p).baseOffset op buffer = .ok n) ∧
      (∀ n < buffer.shape.prod, ∃! p, IsPosition buffer.shape p ∧
        (a.withOffsets p).baseOffset op buffer = .ok n) ∧
      (a.offsets.length ≤ buffer.shape.length →
        (a.padTo buffer.shape.length).baseOffset op buffer = a.baseOffset op buffer) := by
  refine ⟨?_, ?_, ?_⟩
  . intro p hp
    exact ⟨_, hp.dot_lt, baseOffset_withOffsets hstrides hzero hvolume hp⟩
  . intro n hn
    obtain ⟨p, ⟨hp, hdot⟩, hunique⟩ := existsUnique_isPosition hn
    refine ⟨p, ⟨hp, ?_⟩, ?_⟩
    . rw [baseOffset_withOffsets hstrides hzero hvolume hp, hdot]
    . rintro p' ⟨hp', hok⟩
      rw [baseOffset_withOffsets hstrides hzero hvolume hp'] at hok
      exact hunique p' ⟨hp', Except.ok.inj hok⟩
  . exact baseOffset_padTo hstrides hzero hvolume

/--
A store from a buffer of two layers, each of three rows of four. The row and the column are given,
the layer and the strides are not.
-/
def shelf : Op :=
  ⟨1, .put "back" slot, none, none, [], [], none⟩
where
  slot : Access := (whole "crate" .shared).withOffsets [2, 1]
  crate : Buffer := ⟨"crate", "crate", .shared, [2, 3, 4], 4, some ⟨0, 1⟩⟩

/--
One position has element 17, the first position of the second layer has an element, and the store is
from element 9, with the layer or without it.
-/
theorem shelf_elements : shelf.slot.strides = [] ∧ 0 ∉ shelf.crate.shape ∧
    shelf.crate.shape.prod < word64 ∧
    (∃! p, IsPosition shelf.crate.shape p ∧
      (shelf.slot.withOffsets p).baseOffset shelf shelf.crate = .ok 17) ∧
    (∃ n < 24, (shelf.slot.withOffsets [1, 0, 0]).baseOffset shelf shelf.crate = .ok n) ∧
    (shelf.slot.padTo 3).baseOffset shelf shelf.crate =
      shelf.slot.baseOffset shelf shelf.crate ∧
    shelf.slot.baseOffset shelf shelf.crate = .ok 9 := by
  have hstrides : shelf.slot.strides = [] := rfl
  have hzero : 0 ∉ shelf.crate.shape := by decide
  have hvolume : shelf.crate.shape.prod < word64 := by decide
  have hposition : IsPosition shelf.crate.shape [1, 0, 0] :=
    .cons (by decide) (.cons (by decide) (.cons (by decide) .nil))
  obtain ⟨hok, hunique, hpadded⟩ := elements_one_to_one shelf hstrides hzero hvolume
  exact ⟨hstrides, hzero, hvolume, hunique 17 (by decide), hok _ hposition, hpadded (by decide), rfl⟩

end Access

end TileTraffic
