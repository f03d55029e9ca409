import TileTraffic.Proofs.Channel.Links
import TileTraffic.Proofs.Program.Flows

/-!
Interface channels of programs without broadcasts: each is at the end of one flow, whose other end
is on the tile that the channel was opened for, and no two of them are opened toward one channel as
long as there are enough descriptors.
-/

namespace TileTraffic

/--
All bundles have one consumer: nothing is broadcast.
-/
def Graph.Unicast (g : Graph) (t : Target) : Prop :=
  ∀ bs, g.partition t = .ok bs → ∀ b ∈ bs, b.consumers.length = 1

namespace Flow

/--
The flow leads from one of the channels to the other, whichever is the source.
-/
def Joins (f : Flow) (key other : ChannelKey) : Prop :=
  f.source = key ∧ f.dest = other ∨ f.source = other ∧ f.dest = key

theorem exists_joins_of_touches {f : Flow} {key : ChannelKey} (h : f.Touches key) :
    ∃ other, f.Joins key other := by
  rcases h with h | h
  . exact ⟨f.dest, .inl ⟨h, rfl⟩⟩
  . exact ⟨f.source, .inr ⟨rfl, h⟩⟩

theorem Joins.symm {f : Flow} {key other : ChannelKey} (h : f.Joins key other) :
    f.Joins other key := by
  rcases h with h | h
  . exact .inr h
  . exact .inl h

theorem eq_of_joins {f f' : Flow} {key other : ChannelKey}
    (hf : f.source.direction = .outbound ∧ f.dest.direction = .inbound)
    (hf' : f'.source.direction = .outbound ∧ f'.dest.direction = .inbound)
    (h : f.Joins key other) (h' : f'.Joins key other) : f = f' := by
  obtain ⟨source, dest⟩ := f
  obtain ⟨source', dest'⟩ := f'
  dsimp only at hf hf'
  -- flows that run against each other would have a channel of both directions
  rcases h with ⟨rfl, rfl⟩ | ⟨rfl, rfl⟩
  . rcases h' with ⟨rfl, rfl⟩ | ⟨rfl, rfl⟩
    . rfl
    . rw [hf'.1] at hf
      cases hf.2
  . rcases h' with ⟨rfl, rfl⟩ | ⟨rfl, rfl⟩
    . rw [hf'.1] at hf
      cases hf.2
    . rfl

end Flow

namespace Program

/--
The channel is at the end of one flow only, and it faces the tile at the other end.
-/
def FacesOne (p : Program) (x : Allocation) : Prop :=
  ∃ f ∈ p.flows, (∃ other, f.Joins x.key other ∧ x.partner = some other.tile) ∧
    ∀ f' ∈ p.flows, f'.Touches x.key → f' = f

/--
At most one interface channel of each direction leads to the channel.
-/
def MetByOne (p : Program) (y : Allocation) : Prop :=
  ∀ x ∈ p.channels, ∀ x' ∈ p.channels, x.level = .external → x'.level = .external →
    x.key.direction = x'.key.direction → ∀ f ∈ p.flows, ∀ f' ∈ p.flows,
      f.Joins y.key x.key → f'.Joins y.key x'.key → x = x'

end Program

namespace Graph

variable {g : Graph} {t : Target} {d : Device} {bs : List Bundle}

/--
After the external pass over a graph without broadcasts, the links of all bundles are paired.
-/
theorem ofBundles_linked (hcolumns : t.interfaceColumns.Nodup)
    (hunicast : ∀ b ∈ bs, b.consumers.length = 1) (htarget : d.target = t) (hhomes : d.Homes g)
    (hbs : g.Partitioned t bs) :
    Yields (Assignment.ofBundles g t d bs) fun a =>
      ∃ index, Bundle.LinkedPass g t a.bundles index a.external [] := by
  apply (Assignment.ofBundles_yields (Bundle.LinkedPass g t) _ _ htarget hhomes hbs).mono
  . intro a h
    exact h.2
  . intro done bs rest index p p' b b' hprepared hpass hlinked hstep
    have hone := hlinked.unicast b (by simp)
    exact hlinked.push hcolumns hprepared hpass.sound hpass.passOver.level_eq
      (hstep.linkStep (hprepared b (by simp)) hone)
  . intro bs' _ hmap
    apply Bundle.LinkedPass.start
    . intro b hb
      have hmem : b.unassigned ∈ bs := by
        rw [← hmap]
        exact List.mem_map_of_mem hb
      simpa [Bundle.unassigned] using hunicast _ hmem
    . have hops := hbs.opsAt_le .external
      rw [← hmap, List.flatMap_map] at hops
      simpa only [Bundle.opsAt_unassigned] using hops

end Graph

namespace Bundle

theorem HasFlow.mem_keysToward {b : Bundle} {f : Flow} (h : b.HasFlow f) :
    f.source ∈ b.ends.keysToward .outbound ∧ f.dest ∈ b.ends.keysToward .inbound := by
  obtain ⟨hsource, e, he, hdest⟩ := h
  constructor
  . simpa [Ends.keysToward, ends] using hsource
  . simpa [Ends.keysToward, Ends.consumerKeys, ends] using ⟨e, he, hdest⟩

end Bundle

theorem Assignment.Complete.sideLevel_eq {g : Graph} {t : Target} {d : Device} {bs : List Bundle}
    {a : Assignment} (h : a.Complete g t d bs) (hbs : ∀ b ∈ bs, b.Sound g t) {b : Bundle}
    (hb : b ∈ a.bundles) {need : Direction} {key : ChannelKey} {level : Level}
    (hkey : key ∈ b.ends.keysToward need) (hhosts : t.Hosts level key.tile) :
    b.sideLevel need = level := by
  obtain ⟨x, hx, _, hxkey⟩ := Bundle.mem_keysToward_iff.mp hkey
  apply role_injective
  rw [← h.role_of_end hbs hb hx hxkey, hhosts.roleOfRow_eq]

namespace Built

variable {g : Graph} {t : Target} {p : Program} {bs : List Bundle} {d : Device} {a : Assignment}
  {x : Allocation} {f : Flow} {far : ChannelKey}

theorem flow_directions (h : Built g t p bs d a) (hf : f ∈ p.flows) :
    f.source.direction = .outbound ∧ f.dest.direction = .inbound := by
  obtain ⟨b, hb, hsource, e, he, hdest⟩ := (h.mem_flows f).mp hf
  have hconnectable := h.complete.connectable h.partitioned.sound hb
  obtain ⟨key, hkey, hout⟩ := hconnectable.source
  obtain ⟨key', hkey', hin⟩ := hconnectable.dest e he
  obtain rfl : key = f.source := by simpa [hkey] using hsource
  obtain rfl : key' = f.dest := by simpa [hkey'] using hdest
  exact ⟨hout, hin⟩

theorem mem_external (h : Built g t p bs d a) (hx : x ∈ p.channels) (hlevel : x.level = .external) :
    x ∈ a.external.opened := by
  rw [h.channels_eq] at hx
  obtain ⟨level, hopened⟩ := Assignment.mem_allocations_iff.mp hx
  have heq := (h.complete.allocation hopened).level_eq
  rw [hlevel] at heq
  subst heq
  exact hopened

/--
A flow at an interface channel is a link of the bundle that it belongs to.
-/
theorem linksOf_of_joins (h : Built g t p bs d a) (hx : x ∈ p.channels)
    (hlevel : x.level = .external) (hf : f ∈ p.flows) (hjoins : f.Joins x.key far) :
    Bundle.linksOf a.bundles x.key.direction x.key far := by
  obtain ⟨hout, hin⟩ := h.flow_directions hf
  obtain ⟨b, hb, hflow⟩ := (h.mem_flows f).mp hf
  obtain ⟨hsource, hdest⟩ := hflow.mem_keysToward
  have hhosts := h.hosts hx
  rw [hlevel] at hhosts
  refine ⟨b, hb, ?_⟩
  rcases hjoins with ⟨hnear, rfl⟩ | ⟨rfl, hnear⟩
  . rw [← hnear] at hhosts ⊢
    rw [hout]
    exact ⟨h.complete.sideLevel_eq h.partitioned.sound hb hsource hhosts, hsource, hdest⟩
  . rw [← hnear] at hhosts ⊢
    rw [hin]
    exact ⟨h.complete.sideLevel_eq h.partitioned.sound hb hdest hhosts, hdest, hsource⟩

theorem facesOne (h : Built g t p bs d a) (hpaired : Paired t (Bundle.linksOf a.bundles) a.external)
    (hx : x ∈ p.channels) (hlevel : x.level = .external) : p.FacesOne x := by
  obtain ⟨f, hf, htouches⟩ := h.touched hx
  obtain ⟨far, hjoins⟩ := Flow.exists_joins_of_touches htouches
  have hlink := h.linksOf_of_joins hx hlevel hf hjoins
  refine ⟨f, hf, ⟨far, hjoins, hpaired.partner (h.mem_external hx hlevel) hlink⟩, ?_⟩
  intro f' hf' htouches'
  obtain ⟨far', hjoins'⟩ := Flow.exists_joins_of_touches htouches'
  -- both flows are links of the channel, which has only one far end
  obtain rfl : far' = far :=
    hpaired.far_unique (h.linksOf_of_joins hx hlevel hf' hjoins') hlink
  exact Flow.eq_of_joins (h.flow_directions hf') (h.flow_directions hf) hjoins' hjoins

theorem metByOne (h : Built g t p bs d a) (hunshared : Unshared (Bundle.linksOf a.bundles))
    (y : Allocation) : p.MetByOne y := by
  intro x hx x' hx' hlevel hlevel' hd f hf f' hf' hjoins hjoins'
  have hlink := h.linksOf_of_joins hx hlevel hf hjoins.symm
  have hlink' := h.linksOf_of_joins hx' hlevel' hf' hjoins'.symm
  rw [← hd] at hlink'
  have hkey : x.key = x'.key := hunshared _ _ _ _ hlink hlink'
  rw [h.channels_eq] at hx hx'
  exact eq_of_nodup_map h.complete.keys_nodup hx hx' hkey

end Built

namespace Graph

variable {g : Graph} {t : Target} {p : Program}

/--
Without broadcasts, every interface channel of a compiled program is at the end of one flow and
faces the tile at its other end. If each interface tile could have a descriptor for every op, other
channels have at most one interface channel of each direction: no second one is opened where the
first could be used again.
-/
theorem compile_interface_paired (hcolumns : t.interfaceColumns.Nodup) (hunicast : g.Unicast t)
    (h : g.compile t = .ok p) :
    (∀ x ∈ p.channels, x.level = .external → p.FacesOne x) ∧
      (g.ops.length ≤ t.interface.descriptors →
        ∀ y ∈ p.channels, y.level ≠ .external → p.MetByOne y) := by
  obtain ⟨bs, d, a, hbuilt⟩ := (compile_yields g t).of_eq_ok h
  have hone := hunicast bs hbuilt.partition
  obtain ⟨index, hlinked⟩ :=
    (ofBundles_linked hcolumns hone hbuilt.target_eq hbuilt.homes hbuilt.partitioned).of_eq_ok
      hbuilt.assigned
  constructor
  . intro x hx hlevel
    exact hbuilt.facesOne hlinked.paired hx hlevel
  . intro hroom y _ _
    exact hbuilt.metByOne (hlinked.unshared hroom) y

theorem relay_unicast : relay.Unicast (.gen2 4 6) := by
  intro bs hbs
  have hone : ((relay.partition (.gen2 4 6)).toOption.all fun bs =>
      bs.all fun b => b.consumers.length = 1) = true := by
    decide +kernel
  rw [hbs] at hone
  simpa [Except.toOption] using hone

/--
The third load rides on the interface channel of the first.
-/
theorem compile_relay_interface_paired : ∃ p, relay.compile (.gen2 4 6) = .ok p ∧
    (∀ x ∈ p.channels, x.level = .external → p.FacesOne x) ∧
      ∀ y ∈ p.channels, y.level ≠ .external → p.MetByOne y := by
  obtain ⟨p, h⟩ := exists_compile_relay
  have hpaired := compile_interface_paired (by decide) relay_unicast h
  exact ⟨p, h, hpaired.1, hpaired.2 (by decide)⟩

end Graph

end TileTraffic
