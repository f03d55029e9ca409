import TileTraffic.Proofs.Compile

/-!
Programs stay within what the target has. Channels, descriptors and locks are each counted where
they are taken: channels and descriptors by three pools that know nothing of each other. What adds
up is that the tiles of the three levels are different ones, so that a tile is charged to one pool.
-/

namespace TileTraffic

namespace Program

/--
The locks of a tile.
-/
def locksOn (p : Program) (c : Coord) : List Lock :=
  p.locks.filter fun l => l.tile = c

end Program

namespace Allocation

variable {q : ChannelKey → Bool} {as bs : List Allocation} {c : Coord}

theorem load_eq_zero (h : ∀ a ∈ as, q a.key = false) : load q as = 0 := by
  have hnone : (as.filter fun a => q a.key) = [] := by
    rw [List.filter_eq_nil_iff]
    intro a ha
    simp [h a ha]
  unfold load
  rw [hnone]
  rfl

end Allocation

namespace Assignment.Complete

variable {g : Graph} {t : Target} {d : Device} {bs : List Bundle} {a : Assignment} {c : Coord}

/--
A pool takes no descriptors on tiles of other levels, and no more than there are on its own.
-/
theorem load_le (h : a.Complete g t d bs) (level : Level) (c : Coord) :
    Allocation.load (fun key => key.tile = c) (a.pool level).opened ≤
      if t.roleOfRow c.row = level.role then (t.budgetAt c).descriptors else 0 := by
  split
  . rw [← (h.sound level).used_eq]
    exact (h.sound level).used_le c
  . next hrole =>
    rw [Nat.le_zero]
    apply Allocation.load_eq_zero
    intro x hx
    rw [decide_eq_false_iff_not]
    intro htile
    apply hrole
    rw [← htile]
    exact (h.hosts (List.mem_map_of_mem hx)).roleOfRow_eq

end Assignment.Complete

namespace Built

variable {g : Graph} {t : Target} {p : Program} {bs : List Bundle} {d : Device} {a : Assignment}

theorem id_lt (h : Built g t p bs d a) {x : Allocation} (hx : x ∈ p.channels) :
    x.key.id < (t.budget x.level.role).channels := by
  rw [← (h.hosts hx).roleOfRow_eq]
  rw [h.channels_eq] at hx
  obtain ⟨level, hopened⟩ := Assignment.mem_allocations_iff.mp hx
  exact (h.complete.allocation hopened).key_fits.1

end Built

namespace Graph

variable {g : Graph} {t : Target} {p : Program}

end Graph

end TileTraffic
