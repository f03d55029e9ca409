import TileTraffic.Descriptor.Window
import TileTraffic.Proofs.Lists
import TileTraffic.Proofs.Positions
import TileTraffic.Proofs.Success

/-!
Windows are exact. The length and the offset of a window are the numbers that they ought to be,
formed without regard to any width; where these do not fit 64 bits, there is no window.
-/

namespace TileTraffic

/--
Strides of a shape whose last dimension is contiguous, as large as they come.
-/
def naturalStrides : List Nat → List Nat
  | [] => []
  | _ :: sides => sides.prod :: naturalStrides sides

theorem length_naturalStrides (shape : List Nat) :
    (naturalStrides shape).length = shape.length := by
  induction shape with
  | nil => rfl
  | cons side sides ih => rw [naturalStrides, List.length_cons, List.length_cons, ih]

/--
Strides are found if all of them fit, and then they are the natural ones.
-/
theorem rowMajorStrides?_eq_some_iff {shape strides : List Nat} :
    rowMajorStrides? shape = some strides ↔
      (∀ stride ∈ naturalStrides shape, stride < word64) ∧ strides = naturalStrides shape := by
  induction shape generalizing strides with
  | nil => simp [rowMajorStrides?, naturalStrides, eq_comm]
  | cons first sides ih =>
    cases sides with
    | nil => simp [rowMajorStrides?, naturalStrides, one_lt_word64, eq_comm]
    | cons side sides =>
      rw [rowMajorStrides?, naturalStrides, List.forall_mem_cons, List.prod_cons]
      simp only [Option.bind_eq_bind, Option.bind_eq_some_iff, ih, fit?_eq_some_iff]
      constructor
      . rintro ⟨_, ⟨hall, rfl⟩, _, ⟨hlt, rfl⟩, h⟩
        -- the outermost stride of the sides behind the first is their product but for the outermost
        rw [naturalStrides, List.headD_cons, Nat.mul_comm] at hlt h
        exact ⟨⟨hlt, hall⟩, (Option.some.inj h).symm⟩
      . rintro ⟨⟨hlt, hall⟩, rfl⟩
        refine ⟨_, ⟨hall, rfl⟩, _, ⟨?_, rfl⟩, ?_⟩
        . rw [naturalStrides, List.headD_cons, Nat.mul_comm]
          exact hlt
        . rw [naturalStrides, List.headD_cons, Nat.mul_comm]

/--
The sum of the products of two lists, entry by entry.
-/
def dot (is ks : List Nat) : Nat :=
  (List.zipWith (· * ·) is ks).sum

theorem dot_cons (i k : Nat) (is ks : List Nat) : dot (i :: is) (k :: ks) = i * k + dot is ks := by
  unfold dot
  rw [List.zipWith_cons_cons, List.sum_cons]

theorem Dim.map_known_inj {ns ms : List Nat} : ns.map Dim.known = ms.map Dim.known ↔ ns = ms :=
  List.map_inj_right fun _ _ => Dim.known.inj

theorem Dim.exists_map_known {dims : List Dim} (h : ∀ name, .runtime name ∉ dims) :
    ∃ ns : List Nat, dims = ns.map .known := by
  induction dims with
  | nil => exact ⟨[], rfl⟩
  | cons dim dims ih =>
    obtain ⟨ns, rfl⟩ := ih fun name hmem => h name (List.mem_cons_of_mem dim hmem)
    cases dim with
    | known n => exact ⟨n :: ns, rfl⟩
    | runtime name => exact absurd List.mem_cons_self (h name)

namespace Access

variable {a : Access} {op : Op} {buffer : Buffer} {n : Nat}

/-! ### Lengths -/

/--
The extents that are multiplied out: those that are given, or else the sides of the buffer.
-/
def extents (a : Access) (shape : List Nat) : List Dim :=
  if a.sizes = [] then shape.map .known else a.sizes

/--
The window has as many elements as its extents come to.
-/
def Spans (a : Access) (shape : List Nat) (n : Nat) : Prop :=
  ∃ ns : List Nat, a.extents shape = ns.map .known ∧ n = ns.prod

theorem times_eq_ok_iff {m : Nat} {size : Dim} :
    transferLength.times a op m size = .ok n ↔
      ∃ k, size = .known k ∧ fit? word64 (m * k) = some n := by
  cases size with
  | runtime name =>
    constructor
    . intro h
      cases h
    . rintro ⟨_, heq, _⟩
      cases heq
  | known k =>
    simp only [transferLength.times, Dim.known.injEq, exists_eq_left']
    cases fit? word64 (m * k) with
    | none => simp
    | some m' => simp

theorem foldlM_times_eq_ok_iff {sizes : List Dim} {m : Nat} :
    sizes.foldlM (transferLength.times a op) m = .ok n ↔ ∃ ns : List Nat, sizes = ns.map .known ∧
      ns.foldlM (fun n factor => fit? word64 (n * factor)) m = some n := by
  induction sizes generalizing m with
  | nil =>
    simp only [List.foldlM_nil, List.nil_eq, List.map_eq_nil_iff, exists_eq_left]
    exact ⟨fun h => by rw [Except.ok.inj h]; rfl, fun h => by rw [Option.some.inj h]; rfl⟩
  | cons size sizes ih =>
    rw [List.foldlM_cons]
    constructor
    . intro h
      obtain ⟨m', htimes, hrest⟩ := bind_eq_ok h
      obtain ⟨k, rfl, hfit⟩ := times_eq_ok_iff.mp htimes
      obtain ⟨ns, rfl, hns⟩ := ih.mp hrest
      refine ⟨k :: ns, rfl, ?_⟩
      rw [List.foldlM_cons, hfit]
      exact hns
    . rintro ⟨ns, heq, hns⟩
      cases ns with
      | nil => cases heq
      | cons k ns =>
        obtain ⟨rfl, hsizes⟩ := List.cons.inj heq
        rw [List.foldlM_cons] at hns
        obtain ⟨m', hfit, hns⟩ := Option.bind_eq_some_iff.mp hns
        rw [times_eq_ok_iff.mpr ⟨k, rfl, hfit⟩]
        exact ih.mpr ⟨ns, hsizes, hns⟩

theorem transferLength_eq_ok_iff :
    a.transferLength op buffer = .ok n ↔ ∃ ns : List Nat,
      a.extents buffer.shape = ns.map .known ∧ product? word64 ns = some n := by
  unfold transferLength extents
  by_cases hsizes : a.sizes = []
  . rw [if_pos (by simpa using hsizes), if_pos hsizes]
    simp only [Dim.map_known_inj, exists_eq_left']
    show _ ↔ buffer.volume? = some n
    cases buffer.volume? with
    | none => simp
    | some m => simp
  . rw [if_neg (by simpa using hsizes), if_neg hsizes]
    exact foldlM_times_eq_ok_iff

/--
What there is to know of the length: if there is one, all extents are known, and it is their
product. If they are known and none is zero, there is one just when the product fits.
-/
structure ExactLength (a : Access) (op : Op) (buffer : Buffer) : Prop where
  whole : a.sizes = [] → ∀ n, a.transferLength op buffer = .ok n → n = buffer.shape.prod
  product : a.sizes ≠ [] → ∀ n, a.transferLength op buffer = .ok n →
    ∃ ns : List Nat, a.sizes = ns.map .known ∧ n = ns.prod
  fits_iff : ∀ ns : List Nat, a.extents buffer.shape = ns.map .known → 0 ∉ ns →
    ((∃ n, a.transferLength op buffer = .ok n) ↔ ns.prod < word64)
  runtime : ∀ name, .runtime name ∈ a.sizes → ∀ n, a.transferLength op buffer ≠ .ok n

theorem spans_of_transferLength (h : a.transferLength op buffer = .ok n) :
    n < word64 ∧ a.Spans buffer.shape n := by
  obtain ⟨ns, hns, hprod⟩ := transferLength_eq_ok_iff.mp h
  obtain ⟨hall, rfl⟩ := (product?_eq_some_iff one_lt_word64).mp hprod
  have hlt := hall ns.length
  rw [List.take_length] at hlt
  exact ⟨hlt, ns, hns, rfl⟩

theorem exactLength (a : Access) (op : Op) (buffer : Buffer) : a.ExactLength op buffer where
  whole := by
    intro hsizes n hn
    obtain ⟨_, ns, hns, rfl⟩ := spans_of_transferLength hn
    rw [extents, if_pos hsizes, Dim.map_known_inj] at hns
    rw [hns]
  product := by
    intro hsizes n hn
    obtain ⟨_, ns, hns, rfl⟩ := spans_of_transferLength hn
    rw [extents, if_neg hsizes] at hns
    exact ⟨ns, hns, rfl⟩
  fits_iff := by
    intro ns hns hzero
    simp only [transferLength_eq_ok_iff, hns, Dim.map_known_inj, exists_eq_left',
      product?_eq_some_iff_of_ne_zero one_lt_word64 hzero, exists_eq_left]
  runtime := by
    intro name hmem n hn
    obtain ⟨_, ns, hns, _⟩ := spans_of_transferLength hn
    rw [extents, if_neg (List.ne_nil_of_mem hmem)] at hns
    rw [hns] at hmem
    simp at hmem

/-! ### Offsets -/

/--
Every offset has a stride: as many strides are given, or the buffer has dimensions enough.
-/
def Aligned (a : Access) (shape : List Nat) : Prop :=
  if a.strides = [] then a.offsets.length ≤ shape.length else a.strides.length = a.offsets.length

/--
The strides that go with the offsets: those that are given, or else the innermost natural ones.
-/
def stridesFor (a : Access) (shape : List Nat) : List Dim :=
  if a.strides = [] then
    ((naturalStrides shape).drop (shape.length - a.offsets.length)).map .known
  else
    a.strides

/--
Where no strides are given, the natural ones fit 64 bits. The strides of all dimensions count, also
of those that the offsets do not reach. All of them fit if the buffer has no side of zero and its
elements can be counted.
-/
def Representable (a : Access) (shape : List Nat) : Prop :=
  a.strides = [] → ∀ stride ∈ naturalStrides shape, stride < word64

/--
An offset, or a stride that goes with the offsets, is left to the run time.
-/
def Deferred (a : Access) (shape : List Nat) : Prop :=
  ∃ name, .runtime name ∈ a.offsets ++ a.stridesFor shape

theorem Aligned.length_stridesFor {shape : List Nat} (h : a.Aligned shape) :
    (a.stridesFor shape).length = a.offsets.length := by
  unfold Aligned at h
  unfold stridesFor
  split at h
  . next hstrides =>
    rw [if_pos hstrides, List.length_map, List.length_drop, length_naturalStrides]
    omega
  . next hstrides =>
    rw [if_neg hstrides]
    exact h

theorem effectiveStrides_eq_ok_iff {strides : List Dim} :
    a.effectiveStrides op buffer = .ok strides ↔
      a.Aligned buffer.shape ∧ a.Representable buffer.shape ∧
        strides = a.stridesFor buffer.shape := by
  unfold effectiveStrides Aligned Representable stridesFor
  by_cases hstrides : a.strides = []
  . simp only [hstrides, List.isEmpty_nil, if_true, true_implies]
    cases hnatural : rowMajorStrides? buffer.shape with
    | none =>
      have hnot : ¬∀ stride ∈ naturalStrides buffer.shape, stride < word64 := by
        intro hall
        rw [rowMajorStrides?_eq_some_iff.mpr ⟨hall, rfl⟩] at hnatural
        cases hnatural
      simp [hnot]
    | some natural =>
      obtain ⟨hall, rfl⟩ := rowMajorStrides?_eq_some_iff.mp hnatural
      dsimp only
      rw [length_naturalStrides]
      by_cases hlength : a.offsets.length ≤ buffer.shape.length
      . simp only [hlength, if_true, true_and, Except.ok.injEq]
        exact ⟨fun h => ⟨hall, h.symm⟩, fun h => h.2.symm⟩
      . simp [hlength]
  . have hempty : a.strides.isEmpty = false := by simpa using hstrides
    simp only [hempty, hstrides, if_false, false_implies, true_and, Bool.false_eq_true]
    by_cases hlength : a.strides.length = a.offsets.length
    . simp [hlength, eq_comm]
    . simp [hlength]

theorem baseOffset_nil (h : a.offsets = []) : a.baseOffset op buffer = .ok 0 := by
  unfold baseOffset
  rw [h]
  rfl

theorem baseOffset_eq_ok_iff (h : a.offsets ≠ []) :
    a.baseOffset op buffer = .ok n ↔ a.Aligned buffer.shape ∧ a.Representable buffer.shape ∧
      a.sumOffsets op 0 (a.offsets.zip (a.stridesFor buffer.shape)) = .ok n := by
  unfold baseOffset
  rw [if_neg (by simpa using h)]
  constructor
  . intro hok
    obtain ⟨strides, hstrides, hsum⟩ := bind_eq_ok hok
    obtain ⟨haligned, hrepresentable, rfl⟩ := effectiveStrides_eq_ok_iff.mp hstrides
    exact ⟨haligned, hrepresentable, hsum⟩
  . rintro ⟨haligned, hrepresentable, hsum⟩
    rw [effectiveStrides_eq_ok_iff.mpr ⟨haligned, hrepresentable, rfl⟩]
    exact hsum

theorem sumOffsets_nil {sum : Nat} (hsum : sum < word64) :
    a.sumOffsets op sum [] = .ok n ↔ n = sum + 0 ∧ n < word64 := by
  rw [sumOffsets, Except.ok.injEq, Nat.add_zero]
  exact ⟨fun h => ⟨h.symm, h ▸ hsum⟩, fun h => h.1.symm⟩

/--
A chain of checked products and sums is as good as one check at the end.
-/
theorem sumOffsets_known {is ks : List Nat} {sum : Nat} (hsum : sum < word64) :
    a.sumOffsets op sum ((is.map .known).zip (ks.map .known)) = .ok n ↔
      n = sum + dot is ks ∧ n < word64 := by
  induction is generalizing ks sum with
  | nil => exact sumOffsets_nil hsum
  | cons i is ih =>
    cases ks with
    | nil => exact sumOffsets_nil hsum
    | cons k ks =>
      rw [List.map_cons, List.map_cons, List.zip_cons_cons, sumOffsets, dot_cons, ← Nat.add_assoc]
      by_cases hfits : sum + i * k < word64
      . have hstep : i * k < word64 := by omega
        simp only [fit?, hstep, hfits, if_true, Option.bind_some]
        exact ih hfits
      . -- what does not fit here does not fit with more added to it
        have hnone : ((fit? word64 (i * k)).bind fun step => fit? word64 (sum + step)) = none := by
          unfold fit?
          split
          . simp [hfits]
          . rfl
        simp only [hnone, reduceCtorEq, false_iff, not_and]
        omega

theorem sumOffsets_runtime {dims : List (Dim × Dim)} {sum : Nat} {name : String}
    (hdims : ∃ x ∈ dims, x.1 = .runtime name ∨ x.2 = .runtime name)
    (h : a.sumOffsets op sum dims = .ok n) : a.level = .external ∧ n = 0 := by
  induction dims generalizing sum with
  | nil => simp at hdims
  | cons dim dims ih =>
    unfold sumOffsets at h
    split at h
    . next heq => cases heq
    . next heq =>
      obtain ⟨rfl, rfl⟩ := List.cons.inj heq
      split at h
      . apply ih _ h
        obtain ⟨x, hx, hname⟩ := hdims
        rcases List.mem_cons.mp hx with rfl | hx
        . simp at hname
        . exact ⟨x, hx, hname⟩
      . cases h
    . split at h
      . next hlevel => exact ⟨hlevel, (Except.ok.inj h).symm⟩
      . cases h

/--
What there is to know of the offset. It is 0 if no offsets are given. Otherwise every offset needs a
stride; if all of them are known, the offset is the sum of their products just when it fits, and if
some are left to the run time, there is none but 0, in external memory.
-/
structure ExactOffset (a : Access) (op : Op) (buffer : Buffer) : Prop where
  origin : a.offsets = [] → a.baseOffset op buffer = .ok 0
  mismatch : a.offsets ≠ [] → ¬a.Aligned buffer.shape → ∃ e, a.baseOffset op buffer = .error e
  known : a.offsets ≠ [] → a.Aligned buffer.shape → ∀ is ks : List Nat,
    a.offsets = is.map .known → a.stridesFor buffer.shape = ks.map .known →
      ∀ n, a.baseOffset op buffer = .ok n ↔
        a.Representable buffer.shape ∧ n = dot is ks ∧ n < word64
  runtime : a.offsets ≠ [] → a.Deferred buffer.shape → ∀ n, a.baseOffset op buffer = .ok n →
    a.level = .external ∧ n = 0

theorem exactOffset (a : Access) (op : Op) (buffer : Buffer) : a.ExactOffset op buffer where
  origin := baseOffset_nil
  mismatch := by
    intro hne hnot
    cases h : a.baseOffset op buffer with
    | ok n => exact absurd ((baseOffset_eq_ok_iff hne).mp h).1 hnot
    | error e => exact ⟨e, rfl⟩
  known := by
    intro hne haligned is ks his hks n
    rw [baseOffset_eq_ok_iff hne, his, hks, sumOffsets_known (by decide), Nat.zero_add]
    exact ⟨fun h => h.2, fun h => ⟨haligned, h⟩⟩
  runtime := by
    rintro hne ⟨name, hname⟩ n hn
    obtain ⟨haligned, _, hsum⟩ := (baseOffset_eq_ok_iff hne).mp hn
    apply sumOffsets_runtime (mem_zip_or ?_ hname) hsum
    exact haligned.length_stridesFor.symm

/-! ### Windows -/

/--
The window starts where the offsets lead to. Where that is left to the run time, 0 stands for it.
-/
inductive StartsAt (a : Access) (shape : List Nat) : Nat → Prop where
  | origin : a.offsets = [] → a.StartsAt shape 0
  | known {is ks : List Nat} : a.offsets = is.map .known → a.stridesFor shape = ks.map .known →
      is.length = ks.length → a.StartsAt shape (dot is ks)
  | deferred : a.level = .external → a.Deferred shape → a.StartsAt shape 0

theorem startsAt_of_baseOffset (h : a.baseOffset op buffer = .ok n) :
    n < word64 ∧ a.StartsAt buffer.shape n := by
  have hexact := a.exactOffset op buffer
  by_cases hne : a.offsets = []
  . rw [baseOffset_nil hne] at h
    obtain rfl := Except.ok.inj h
    exact ⟨by decide, .origin hne⟩
  . by_cases hdeferred : a.Deferred buffer.shape
    . obtain ⟨hlevel, rfl⟩ := hexact.runtime hne hdeferred n h
      exact ⟨by decide, .deferred hlevel hdeferred⟩
    . obtain ⟨haligned, _, _⟩ := (baseOffset_eq_ok_iff hne).mp h
      obtain ⟨is, his⟩ := Dim.exists_map_known fun name hmem =>
        hdeferred ⟨name, List.mem_append_left _ hmem⟩
      obtain ⟨ks, hks⟩ := Dim.exists_map_known fun name hmem =>
        hdeferred ⟨name, List.mem_append_right _ hmem⟩
      obtain ⟨_, rfl, hlt⟩ := (hexact.known hne haligned is ks his hks n).mp h
      have hlength := haligned.length_stridesFor
      rw [his, hks, List.length_map, List.length_map] at hlength
      exact ⟨hlt, .known his hks hlength.symm⟩

end Access

end TileTraffic
