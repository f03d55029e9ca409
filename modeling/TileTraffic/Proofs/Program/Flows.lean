import TileTraffic.Proofs.Compile

/-!
What a program does for the graph that it was compiled from: the ends of all bundles run on channels
of the program, its flows lead from the producing ends to the consuming ones, and it has nothing
else.
-/

namespace TileTraffic

namespace Endpoint

/--
All ops of the end run on the channel `a`: it lists them, and it is of the level and direction that
they need, on the tile where they have to be.
-/
structure RunsOn (g : Graph) (d : Device) (level : Level) (direction : Direction) (e : Endpoint)
    (a : Allocation) : Prop where
  key_eq : e.key = some a.key
  level_eq : a.level = level
  direction_eq : a.key.direction = direction
  side : ∀ occ ∈ e.ops, occ.op.directionAt a.level = .ok a.key.direction
  listed : ∀ occ ∈ e.ops, occ.op.id ∈ a.opIds
  sits : ∀ occ ∈ e.ops, Assignment.Sits g d level occ.op a.key.tile

end Endpoint

namespace Flow

/--
The channel is at one end of the flow.
-/
def Touches (f : Flow) (key : ChannelKey) : Prop :=
  f.source = key ∨ f.dest = key

end Flow

namespace Program

/--
The program is what the bundles ask for, and no more than that.
-/
structure Realizes (p : Program) (g : Graph) (d : Device) (bs : List Bundle) : Prop where
  producer : ∀ b ∈ bs, ∃ a ∈ p.channels, b.producer.RunsOn g d b.producerLevel .outbound a
  consumer : ∀ b ∈ bs, ∀ e ∈ b.consumers,
    ∃ a ∈ p.channels, e.RunsOn g d b.consumerLevel .inbound a
  flows_nodup : p.flows.Nodup
  mem_flows : ∀ f, f ∈ p.flows ↔ ∃ b ∈ bs, b.HasFlow f
  touched : ∀ a ∈ p.channels, ∃ f ∈ p.flows, f.Touches a.key

end Program

namespace Assignment.Complete

variable {g : Graph} {t : Target} {d : Device} {bs : List Bundle} {a : Assignment}

theorem runsOn (h : a.Complete g t d bs) (hbs : ∀ b ∈ bs, b.Sound g t) {b : Bundle}
    (hb : b ∈ a.bundles) {level : Level} {x : Direction × Endpoint} (hx : x ∈ b.endsAt level) :
    ∃ y ∈ a.allocations, x.2.RunsOn g d level x.1 y := by
  have hsound := h.bundle_sound hbs hb
  obtain ⟨key, hkey, hserved⟩ := h.served hb hx
  obtain ⟨first, rest, hcons⟩ := List.exists_cons_of_ne_nil (hsound.ends_ne hx)
  obtain ⟨y, hy, rfl, _⟩ := hserved.serves first (by simp [hcons])
  have hlevel := (h.allocation hy).level_eq
  refine ⟨y, mem_allocations_iff.mpr ⟨level, hy⟩, hkey, hlevel, hserved.direction, ?_, ?_,
    hserved.sits⟩
  . intro occ hocc
    rw [hlevel, hserved.direction]
    exact hsound.directionAt hx hocc
  . intro occ hocc
    -- the channel that lists this op has the key of the one that lists the first
    obtain ⟨z, hz, hzkey, hid⟩ := hserved.serves occ hocc
    obtain rfl : z = y := eq_of_nodup_map (h.sound level).keys_nodup hz hy hzkey
    exact hid

end Assignment.Complete

namespace Built

variable {g : Graph} {t : Target} {p : Program} {bs : List Bundle} {d : Device} {a : Assignment}

theorem touched (h : Built g t p bs d a) {x : Allocation} (hx : x ∈ p.channels) :
    ∃ f ∈ p.flows, f.Touches x.key := by
  rw [h.channels_eq] at hx
  obtain ⟨level, hopened⟩ := Assignment.mem_allocations_iff.mp hx
  -- the channel was opened for an end of a bundle, and the bundle has another end
  obtain ⟨y, hy, hkey⟩ := (h.complete.covered level).needed x.key (List.mem_map_of_mem hopened)
  obtain ⟨b, hb, hy⟩ := List.mem_flatMap.mp hy
  have hconnectable := h.complete.connectable h.partitioned.sound hb
  rcases Bundle.mem_endsAt_iff.mp hy with ⟨_, rfl⟩ | ⟨_, e, he, rfl⟩
  . obtain ⟨e, es, hcons⟩ := (h.complete.bundle_sound h.partitioned.sound hb).exists_consumer
    have he : e ∈ b.consumers := by simp [hcons]
    obtain ⟨dest, hdest, _⟩ := hconnectable.dest e he
    exact ⟨⟨x.key, dest⟩, (h.mem_flows _).mpr ⟨b, hb, hkey, e, he, hdest⟩, .inl rfl⟩
  . obtain ⟨source, hsource, _⟩ := hconnectable.source
    exact ⟨⟨source, x.key⟩, (h.mem_flows _).mpr ⟨b, hb, hsource, e, he, hkey⟩, .inr rfl⟩

theorem realizes (h : Built g t p bs d a) : p.Realizes g d a.bundles where
  producer := by
    intro b hb
    rw [h.channels_eq]
    exact h.complete.runsOn h.partitioned.sound hb Bundle.producer_mem_endsAt
  consumer := by
    intro b hb e he
    rw [h.channels_eq]
    exact h.complete.runsOn h.partitioned.sound hb (Bundle.consumer_mem_endsAt he)
  flows_nodup := h.flows_nodup
  mem_flows := h.mem_flows
  touched := fun _ hx => h.touched hx

end Built

namespace Graph

variable {g : Graph} {t : Target} {p : Program}

/--
A compiled program realizes the bundles into which the graph is partitioned. They are listed here
with the channels that they were given; without these they are the partition.
-/
theorem compile_realizes (h : g.compile t = .ok p) :
    ∃ bs d, g.partition t = .ok (bs.map Bundle.unassigned) ∧
      (Device.empty t t.lockPolicy).placeShared g = .ok d ∧ p.Realizes g d bs := by
  obtain ⟨bs, d, a, hbuilt⟩ := (compile_yields g t).of_eq_ok h
  refine ⟨a.bundles, d, ?_, hbuilt.placed, hbuilt.realizes⟩
  rw [hbuilt.complete.unassigned]
  exact hbuilt.partition

theorem compile_relay_realizes : ∃ p, relay.compile (.gen2 4 6) = .ok p ∧
    ∃ bs d, relay.partition (.gen2 4 6) = .ok (bs.map Bundle.unassigned) ∧
      (Device.empty (.gen2 4 6) .counting).placeShared relay = .ok d ∧ p.Realizes relay d bs := by
  obtain ⟨p, h⟩ := exists_compile_relay
  exact ⟨p, h, compile_realizes h⟩

end Graph

end TileTraffic
