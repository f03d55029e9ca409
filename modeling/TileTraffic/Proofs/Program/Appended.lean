import TileTraffic.Proofs.Bundle.Appended
import TileTraffic.Proofs.Channel.Appended
import TileTraffic.Proofs.Program.Order

/-!
Earlier decisions stand. A copy that is appended to a graph is served behind everything else: the
flows that were there come first, and the channels that were open stay as they are, up to ops that
are added at their ends.
-/

namespace TileTraffic

namespace Built

variable {g g' : Graph} {t : Target} {p p' : Program} {bs bs' : List Bundle} {d d' : Device}
  {a a' : Assignment}

theorem prepared {bs₁ bs₂ : List Bundle} (h : Built g t p bs d a)
    (hpasses : Assignment.Passes g t d bs bs₁ bs₂ a) : ∀ b ∈ bs₂, b.Prepared g t :=
  Assignment.prepared h.partitioned (h.complete.sound .tileLocal) (h.complete.sound .shared)
    hpasses.first hpasses.second

/--
One bundle more, and the rest as before: flows and channels only go on.
-/
theorem push {b : Bundle} (h : Built g t p bs d a) (h' : Built g' t p' (bs ++ [b]) d a')
    (htile : g'.computeTile t = g.computeTile t) :
    p.flows <+: p'.flows ∧ ∀ x ∈ p.channels, ∃ x' ∈ p'.channels, x.Continues x' := by
  obtain ⟨bs₁, bs₂, hpasses⟩ := h.passes
  obtain ⟨bs₁', bs₂', hpasses'⟩ := h'.passes
  obtain ⟨⟨b', hbundles⟩, hpools⟩ := hpasses.push hpasses' htile (h'.prepared hpasses')
  constructor
  . obtain ⟨table, hconnected, hflows⟩ := h.connected
    obtain ⟨table', hconnected', hflows'⟩ := h'.connected
    rw [hbundles] at hconnected'
    rw [hflows, hflows']
    exact Bundle.connect_extends (foldlM_push_eq_ok hconnected hconnected')
  . intro x hx
    rw [h.channels_eq] at hx
    obtain ⟨level, hopened⟩ := Assignment.mem_allocations_iff.mp hx
    obtain ⟨x', hx', hcontinues⟩ := hpools level x hopened
    rw [h'.channels_eq]
    exact ⟨x', Assignment.mem_allocations_iff.mpr ⟨level, hx'⟩, hcontinues⟩

end Built

namespace Graph

variable {g : Graph} {t : Target} {op : Op} {src dst : Access} {p p' : Program}

/--
A copy that is appended, and that brings no buffer into shared memory that was not there, disturbs
nothing that was decided before: the flows stay the first ones, and every channel stays open under
its key, at its level and facing its partner, with the ops that it had before any others.
-/
theorem compile_push_continues (hcopy : op.movement = .copy src dst)
    (hshared : ∀ a ∈ op.movement.accesses, a.level = .shared → g.Shares a.buffer)
    (h : g.compile t = .ok p) (h' : (g.push op).2.compile t = .ok p') :
    p.flows <+: p'.flows ∧ ∀ x ∈ p.channels, ∃ x' ∈ p'.channels, x.Continues x' := by
  obtain ⟨bs, d, a, hbuilt⟩ := (compile_yields g t).of_eq_ok h
  obtain ⟨bs', d', a', hbuilt'⟩ := (compile_yields (g.push op).2 t).of_eq_ok h'
  obtain ⟨b, rfl⟩ := partition_push hcopy hbuilt.partition hbuilt'.partition
  -- shared buffers have the same homes in both graphs
  have hplaced := hbuilt'.placed
  rw [Device.placeShared_push hbuilt.partition hshared, hbuilt.placed] at hplaced
  obtain rfl := Except.ok.inj hplaced
  exact hbuilt.push hbuilt' rfl

/--
A load into shared memory, into the buffer of the relay there.
-/
def refill : Op :=
  ⟨7, .copy (.whole "far" .external) (.whole "mid" .shared), none, none, [], [], none⟩

theorem compile_relay_push_continues : ∃ p p', relay.compile (.gen2 4 6) = .ok p ∧
    (relay.push refill).2.compile (.gen2 4 6) = .ok p' ∧ p.flows <+: p'.flows ∧
      ∀ x ∈ p.channels, ∃ x' ∈ p'.channels, x.Continues x' := by
  have hshared : ∀ a ∈ refill.movement.accesses, a.level = .shared → relay.Shares a.buffer := by
    decide +kernel
  obtain ⟨p, h⟩ := exists_compile_relay
  obtain ⟨p', h'⟩ := exists_of_isOk (x := (relay.push refill).2.compile (.gen2 4 6))
    (by decide +kernel)
  exact ⟨p, p', h, h', compile_push_continues rfl hshared h h'⟩

end Graph

end TileTraffic
