import TileTraffic.Bundle.Destination
import TileTraffic.Proofs.Positions

/-!
The destinations of a logical channel. Where their number fits a word, a get is sent to the number
of the position that its indices name, and to none if they name no position.
-/

namespace TileTraffic

/--
The indices name a position of the shape: each of them is below its side, where those of sides of
length 1 do not matter.
-/
def Names (shape indices : List Nat) : Prop :=
  List.Forall₂ (fun side index => index < side ∨ side = 1) shape indices

namespace ChannelDecl

theorem names_iff {shape indices : List Nat} :
    Names shape indices ↔
      indices.length = shape.length ∧ IsPosition shape (destinationPosition shape indices) := by
  induction shape generalizing indices with
  | nil =>
    cases indices with
    | nil => exact iff_of_true .nil ⟨rfl, .nil⟩
    | cons i indices => exact iff_of_false (fun h => nomatch h) (by simp)
  | cons side shape ih =>
    cases indices with
    | nil => exact iff_of_false (fun h => nomatch h) (by simp)
    | cons i indices =>
      have hside : (if side = 1 then 0 else i) < side ↔ i < side ∨ side = 1 := by
        split <;> omega
      unfold Names IsPosition destinationPosition at *
      rw [List.zipWith_cons_cons, List.forall₂_cons, List.forall₂_cons, ih, hside,
        List.length_cons, List.length_cons, Nat.add_right_cancel_iff]
      exact and_left_comm

/--
Number of destinations.
-/
def destinations (c : ChannelDecl) : Nat :=
  match c.broadcastShape with
  | some shape => shape.prod
  | none => 1

/--
The product of every initial stretch of the broadcast shape fits 32 bits.
-/
def Countable (c : ChannelDecl) : Prop :=
  ∀ shape, c.broadcastShape = some shape → ∀ k, (shape.take k).prod < word32

variable {c : ChannelDecl} {op : Op} {t : Target} {shape : List Nat} {n : Nat}

theorem consumerCount?_eq_some_iff :
    c.consumerCount? = some n ↔ c.Countable ∧ n = c.destinations := by
  unfold consumerCount? Countable destinations
  cases c.broadcastShape with
  | none => simp [eq_comm]
  | some shape =>
    rw [product?_eq_some_iff one_lt_word32]
    simp

theorem destinationCount_eq_ok_iff :
    c.destinationCount t = .ok n ↔
      c.Countable ∧ n = c.destinations ∧ c.destinations ≤ t.columns * t.rows := by
  rw [← and_assoc, ← consumerCount?_eq_some_iff]
  unfold destinationCount
  cases hcount : c.consumerCount? with
  | none => simp
  | some count =>
    obtain ⟨_, rfl⟩ := consumerCount?_eq_some_iff.mp hcount
    by_cases hle : c.destinations ≤ t.columns * t.rows <;> simp [hle]

theorem destination_of_unicast (h : c.broadcastShape = none) : c.destination op = .ok 0 := by
  unfold destination
  rw [h]

theorem destination_eq_ok_iff (hshape : c.broadcastShape = some shape) :
    c.destination op = .ok n ↔
      c.Countable ∧ Names shape op.indices ∧
        n = numberOf shape (destinationPosition shape op.indices) := by
  have hdestinations : c.destinations = shape.prod := by rw [destinations, hshape]
  rw [names_iff]
  unfold destination
  rw [hshape]
  dsimp only
  by_cases hrank : op.indices.length = shape.length
  . rw [if_neg (not_not_intro hrank)]
    cases hcount : c.consumerCount? with
    | none =>
      refine iff_of_false (fun h => nomatch h) fun ⟨hcountable, _⟩ => ?_
      rw [consumerCount?_eq_some_iff.mpr ⟨hcountable, rfl⟩] at hcount
      cases hcount
    | some count =>
      obtain ⟨hcountable, rfl⟩ := consumerCount?_eq_some_iff.mp hcount
      rw [hdestinations]
      dsimp only
      cases hfirst : firstBelow shape.prod fun n =>
          position shape n = destinationPosition shape op.indices with
      | none =>
        refine iff_of_false (fun h => nomatch h) fun ⟨_, ⟨_, hposition⟩, _⟩ => ?_
        obtain ⟨m, hm⟩ : ∃ m, firstBelow shape.prod (fun n =>
            position shape n = destinationPosition shape op.indices) = some m :=
          exists_firstBelow hposition.numberOf_lt (decide_eq_true hposition.position_numberOf)
        exact nomatch hfirst.symm.trans hm
      | some m =>
        obtain ⟨hlt, hm⟩ := firstBelow_eq_some hfirst
        obtain ⟨hposition, rfl⟩ := (position_eq_iff hlt).mp (of_decide_eq_true hm)
        simp [hcountable, hrank, hposition, eq_comm]
  . rw [if_pos hrank]
    exact iff_of_false (fun h => nomatch h) fun ⟨_, ⟨hlength, _⟩, _⟩ => hrank hlength

/--
A get whose indices name a position has a destination among those that are counted.
-/
theorem exists_destination (hcountable : c.Countable)
    (hnames : ∀ shape, c.broadcastShape = some shape → Names shape op.indices) :
    ∃ n, n < c.destinations ∧ c.destination op = .ok n := by
  unfold destinations
  cases hshape : c.broadcastShape with
  | none => exact ⟨0, Nat.one_pos, destination_of_unicast hshape⟩
  | some shape =>
    have hnames := hnames shape hshape
    exact ⟨_, (names_iff.mp hnames).2.numberOf_lt,
      (destination_eq_ok_iff hshape).mpr ⟨hcountable, hnames, rfl⟩⟩

end ChannelDecl

end TileTraffic
