import TileTraffic.Proofs.Channel.Riders
import TileTraffic.Proofs.Program.Interface
import TileTraffic.Proofs.Program.Order

/-!
Whether what is sent arrives where it should, and nowhere else. All flows of a channel carry whatever
is sent on it. An outbound interface channel delivers if the bundles on it have one destination each
or the same ones; where a broadcast shares it with a bundle that has others, data goes astray.
-/

namespace TileTraffic

namespace Bundle

/--
The bundle has ops of its producing end on the channel.
-/
def SendsOn (b : Bundle) (x : Allocation) : Prop :=
  ∃ occ ∈ b.producer.ops, occ ∈ x.ops

instance (b : Bundle) (x : Allocation) : Decidable (b.SendsOn x) :=
  inferInstanceAs (Decidable (∃ occ ∈ b.producer.ops, occ ∈ x.ops))

end Bundle

namespace Program

/--
The channel with the key lists the id of an op at a destination of the bundle.
-/
def Serves (p : Program) (key : ChannelKey) (b : Bundle) : Prop :=
  ∃ y ∈ p.channels, y.key = key ∧ ∃ e ∈ b.consumers, ∃ o ∈ e.ops, o.op.id ∈ y.opIds

instance (p : Program) (key : ChannelKey) (b : Bundle) : Decidable (p.Serves key b) :=
  inferInstanceAs (Decidable (∃ y ∈ p.channels, y.key = key ∧
    ∃ e ∈ b.consumers, ∃ o ∈ e.ops, o.op.id ∈ y.opIds))

/--
Two bundles that send on the channel have one destination each, or the same channels serve the
destinations of both.
-/
def Compatible (p : Program) (bs : List Bundle) (x : Allocation) : Prop :=
  bs.Pairwise fun b b' => b.SendsOn x → b'.SendsOn x →
    b.consumers.length = 1 ∧ b'.consumers.length = 1 ∨
      ∀ y ∈ p.channels, p.Serves y.key b ↔ p.Serves y.key b'

instance (p : Program) (bs : List Bundle) (x : Allocation) : Decidable (p.Compatible bs x) :=
  inferInstanceAs (Decidable (bs.Pairwise _))

/--
Every op on the channel belongs to a bundle, and all flows from the channel lead to channels that
serve destinations of this bundle.
-/
def Delivers (p : Program) (bs : List Bundle) (x : Allocation) : Prop :=
  ∀ occ ∈ x.ops, ∃ b ∈ bs, occ ∈ b.producer.ops ∧
    ∀ f ∈ p.flows, f.source = x.key → p.Serves f.dest b

instance (p : Program) (bs : List Bundle) (x : Allocation) : Decidable (p.Delivers bs x) :=
  inferInstanceAs (Decidable (∀ occ ∈ x.ops, ∃ b ∈ bs, occ ∈ b.producer.ops ∧
    ∀ f ∈ p.flows, f.source = x.key → p.Serves f.dest b))

end Program

namespace Graph

variable {g : Graph} {t : Target} {d : Device} {bs : List Bundle}

theorem ofBundles_ridden (htarget : d.target = t) (hhomes : d.Homes g)
    (hbs : g.Partitioned t bs) :
    Yields (Assignment.ofBundles g t d bs) fun a =>
      ∃ index, Bundle.RiddenPass t a.bundles index a.external [] := by
  apply (Assignment.ofBundles_yields (Bundle.RiddenPass t) _ _ htarget hhomes hbs).mono
  . intro a h
    exact h.2
  . intro done bs rest index p p' b b' hprepared hpass hridden hstep
    exact hridden.push hprepared hpass hstep
  . intro bs' _ _
    exact Bundle.RiddenPass.start

end Graph

namespace Built

variable {g : Graph} {t : Target} {p : Program} {bs : List Bundle} {d : Device} {a : Assignment}
  {x : Allocation} {b : Bundle}

theorem ridden (h : Built g t p bs d a) :
    ∃ index, Bundle.RiddenPass t a.bundles index a.external [] :=
  (Graph.ofBundles_ridden h.target_eq h.homes h.partitioned).of_eq_ok h.assigned

theorem external_ops_eq (h : Built g t p bs d a) (hx : x ∈ p.channels)
    (hlevel : x.level = .external) : x.ops = a.bundles.flatMap fun b => b.opsOn x.key := by
  obtain ⟨bs₁, bs₂, hpasses⟩ := h.passes
  have hopened : x ∈ (a.pool .external).opened := h.mem_external hx hlevel
  apply h.ops_eq_of_ledger hopened
  exact hpasses.ledger_external h.partitioned (Graph.partition_arranged h.partition)

theorem rides_of_key (h : Built g t p bs d a) (hx : x ∈ p.channels) (hlevel : x.level = .external)
    (hb : b ∈ a.bundles) (hkey : b.producer.key = some x.key) : b.Rides x.key := by
  have hmem : x.key ∈ b.ends.keysToward .outbound := by
    simp [Ends.keysToward, Bundle.ends, hkey]
  have hhosts := h.hosts hx
  rw [hlevel] at hhosts
  exact ⟨h.complete.sideLevel_eq h.partitioned.sound hb hmem hhosts, hkey⟩

/--
An op on an outbound interface channel belongs to a bundle that rides there.
-/
theorem exists_rider (h : Built g t p bs d a) (hx : x ∈ p.channels) (hlevel : x.level = .external)
    (hout : x.key.direction = .outbound) {occ : Occurrence} (hocc : occ ∈ x.ops) :
    ∃ b ∈ a.bundles, b.Rides x.key ∧ occ ∈ b.producer.ops := by
  rw [h.external_ops_eq hx hlevel] at hocc
  obtain ⟨b, hb, hocc⟩ := List.mem_flatMap.mp hocc
  obtain ⟨e, he, hocc⟩ := List.mem_flatMap.mp hocc
  obtain ⟨he, hkey⟩ := List.mem_filter.mp he
  have hkey : e.key = some x.key := by simpa using hkey
  rcases List.mem_cons.mp he with rfl | he
  . exact ⟨b, hb, h.rides_of_key hx hlevel hb hkey, hocc⟩
  . -- consuming ends are on inbound channels
    obtain ⟨key, hkey', hin⟩ := (h.complete.connectable h.partitioned.sound hb).dest e he
    obtain rfl : key = x.key := by simpa [hkey'] using hkey
    rw [hout] at hin
    cases hin

theorem sendsOn_of_rides (h : Built g t p bs d a) (hx : x ∈ p.channels)
    (hlevel : x.level = .external) (hb : b ∈ a.bundles) (hrides : b.Rides x.key) :
    b.unassigned.SendsOn x := by
  obtain ⟨occ, rest, hcons⟩ :=
    List.exists_cons_of_ne_nil (h.complete.bundle_sound h.partitioned.sound hb).producer_ne
  have hocc : occ ∈ b.producer.ops := by simp [hcons]
  refine ⟨occ, hocc, ?_⟩
  rw [h.external_ops_eq hx hlevel, List.mem_flatMap]
  exact ⟨b, hb, (Bundle.sublist_opsOn (by simp) hrides.2).subset hocc⟩

/--
A channel at the end of a bundle serves the ops that the bundle has there.
-/
theorem serves (h : Built g t p bs d a) (hb : b ∈ a.bundles) {key : ChannelKey}
    (hkey : key ∈ b.ends.consumerKeys) : p.Serves key b.unassigned := by
  obtain ⟨e, he, hekey⟩ : ∃ e ∈ b.consumers, e.key = some key := by
    simpa [Ends.consumerKeys, Bundle.ends] using hkey
  have hmem := Bundle.consumer_mem_endsAt he
  obtain ⟨o, rest, hcons⟩ :=
    List.exists_cons_of_ne_nil ((h.complete.bundle_sound h.partitioned.sound hb).ends_ne hmem)
  have ho : o ∈ e.ops := by
    dsimp only at hcons
    simp [hcons]
  obtain ⟨key', hkey', hserved⟩ := h.complete.served hb hmem
  obtain rfl : key' = key := by simpa [hekey] using hkey'.symm
  obtain ⟨y, hy, hykey, hid⟩ := hserved.serves o ho
  refine ⟨y, ?_, hykey, e.unassigned, List.mem_map_of_mem he, o, ho, hid⟩
  rw [h.channels_eq, Assignment.mem_allocations_iff]
  exact ⟨_, hy⟩

/--
Where a broadcast rides on a channel with compatible bundles, the same channels serve all riders.
-/
theorem serves_iff_of_broadcast (h : Built g t p bs d a) (hx : x ∈ p.channels)
    (hlevel : x.level = .external) (hcompatible : p.Compatible bs x) {r : Bundle}
    (hr : r ∈ a.bundles) (hrides : r.Rides x.key) (hbroadcast : r.consumers.length ≠ 1)
    (hb : b ∈ a.bundles) (hrides' : b.Rides x.key) {y : Allocation} (hy : y ∈ p.channels) :
    p.Serves y.key r.unassigned ↔ p.Serves y.key b.unassigned := by
  by_cases heq : r = b
  . rw [heq]
  unfold Program.Compatible at hcompatible
  rw [← h.complete.unassigned, List.pairwise_map] at hcompatible
  have hpair := rel_of_pairwise hcompatible ?_ hr hb heq
    (h.sendsOn_of_rides hx hlevel hr hrides) (h.sendsOn_of_rides hx hlevel hb hrides')
  . rcases hpair with ⟨hsingle, _⟩ | hsame
    . simp [Bundle.unassigned, hbroadcast] at hsingle
    . exact hsame y hy
  . intro b b' hboth hb' hb
    rcases hboth hb hb' with hsingle | hsame
    . exact .inl hsingle.symm
    . exact .inr fun y hy => (hsame y hy).symm

/--
The destinations of one rider serve all compatible riders.
-/
theorem serves_of_rides (h : Built g t p bs d a) (hx : x ∈ p.channels)
    (hlevel : x.level = .external) (hcolumn : t.interfaceColumns.count x.key.tile.col = 1)
    (hcompatible : p.Compatible bs x) {c : Bundle} (hb : b ∈ a.bundles) (hc : c ∈ a.bundles)
    (hrides : b.Rides x.key) (hrides' : c.Rides x.key) {key : ChannelKey}
    (hkey : key ∈ c.ends.consumerKeys) : p.Serves key b.unassigned := by
  by_cases hsingle : ∀ r ∈ a.bundles, r.Rides x.key → r.consumers.length = 1
  . obtain ⟨index, hridden⟩ := h.ridden
    apply h.serves hb
    rw [hridden.alike x.key hcolumn hsingle b hb c hc hrides hrides']
    exact hkey
  . obtain ⟨r, hr, hrrides, hbroadcast⟩ : ∃ r ∈ a.bundles, r.Rides x.key ∧
        r.consumers.length ≠ 1 := by
      simpa using hsingle
    have hserves := h.serves hc hkey
    obtain ⟨y, hy, rfl, _⟩ := id hserves
    rw [← h.serves_iff_of_broadcast hx hlevel hcompatible hr hrrides hbroadcast hc hrides' hy,
      h.serves_iff_of_broadcast hx hlevel hcompatible hr hrrides hbroadcast hb hrides hy] at hserves
    exact hserves

theorem delivers (h : Built g t p bs d a) (hx : x ∈ p.channels) (hlevel : x.level = .external)
    (hout : x.key.direction = .outbound)
    (hcolumn : t.interfaceColumns.count x.key.tile.col = 1) (hcompatible : p.Compatible bs x) :
    p.Delivers bs x := by
  intro occ hocc
  obtain ⟨b, hb, hrides, hocc⟩ := h.exists_rider hx hlevel hout hocc
  refine ⟨b.unassigned, ?_, hocc, ?_⟩
  . rw [← h.complete.unassigned]
    exact List.mem_map_of_mem hb
  intro f hf hsource
  -- the flow belongs to a bundle that rides on the same channel
  obtain ⟨c, hc, hflow⟩ := (h.mem_flows f).mp hf
  have hcrides : c.Rides x.key := h.rides_of_key hx hlevel hc (hsource ▸ hflow.1)
  exact h.serves_of_rides hx hlevel hcolumn hcompatible hb hc hrides hcrides
    hflow.mem_keysToward.2

end Built

namespace Graph

variable {g : Graph} {t : Target} {p : Program} {bs : List Bundle} {x : Allocation}

/--
An outbound interface channel with compatible bundles, in a column that is listed once, delivers:
whatever rides there, however the channel was found, is sent to its own destinations only.
-/
theorem compile_delivers (h : g.compile t = .ok p) (hbs : g.partition t = .ok bs)
    (hx : x ∈ p.channels) (hlevel : x.level = .external) (hout : x.key.direction = .outbound)
    (hcolumn : t.interfaceColumns.count x.key.tile.col = 1) (hcompatible : p.Compatible bs x) :
    p.Delivers bs x := by
  obtain ⟨bs', d, a, hbuilt, _⟩ := compile_eq_ok h
  obtain rfl : bs = bs' := Except.ok.inj (hbs.symm.trans hbuilt.partition)
  exact hbuilt.delivers hx hlevel hout hcolumn hcompatible

/--
The first and the third load ride on one channel.
-/
theorem compile_relay_delivers : ∃ p bs, relay.compile (.gen2 4 6) = .ok p ∧
    relay.partition (.gen2 4 6) = .ok bs ∧ ∃ x ∈ p.channels, x.level = .external ∧
      x.key.direction = .outbound ∧ x.opIds = [1, 3] ∧
      (Target.gen2 4 6).interfaceColumns.count x.key.tile.col = 1 ∧ p.Compatible bs x ∧
      p.Delivers bs x := by
  have hfound : (match relay.compile (.gen2 4 6), relay.partition (.gen2 4 6) with
      | .ok p, .ok bs => decide (∃ x ∈ p.channels, x.level = .external ∧
          x.key.direction = .outbound ∧ x.opIds = [1, 3] ∧
          (Target.gen2 4 6).interfaceColumns.count x.key.tile.col = 1 ∧ p.Compatible bs x)
      | _, _ => false) = true := by
    decide +kernel
  cases hp : relay.compile (.gen2 4 6) with
  | error e => simp [hp] at hfound
  | ok p =>
    cases hbs : relay.partition (.gen2 4 6) with
    | error e => simp [hp, hbs] at hfound
    | ok bs =>
      rw [hp, hbs] at hfound
      obtain ⟨x, hx, hlevel, hout, hids, hcolumn, hcompatible⟩ := of_decide_eq_true hfound
      exact ⟨p, bs, rfl, rfl, x, hx, hlevel, hout, hids, hcolumn, hcompatible,
        compile_delivers hp hbs hx hlevel hout hcolumn hcompatible⟩

/--
A broadcast to two cells, and two loads into the first of them.
-/
def overheard : Graph where
  scope := "overheard"
  buffers := [⟨"far", .external, [16], 4⟩, ⟨"near", .tileLocal, [16], 4⟩]
  channels := [⟨"both", some [2]⟩]
  regions := [⟨"pair", 0, 2, 2, 1⟩]
  ops := [⟨1, .put "both" (.whole "far" .external), none, none, [], [], none⟩,
    hear 2 0, hear 3 1, load 4, load 5]
  host := none
where
  hear (id cell : Nat) : Op :=
    ⟨id, .get "both" (.whole "near" .tileLocal), some "pair", some [cell, 0], [cell], [], none⟩
  load (id : Nat) : Op :=
    ⟨id, .copy (.whole "far" .external) (.whole "near" .tileLocal), some "pair", some [0, 0], [],
      [], none⟩

/--
The second load ends up on the channel on which the first cell gets the broadcast. So it is found to
lead to its destination, and rides on it to the other cell as well.
-/
theorem compile_overheard_astray : ∃ p bs, overheard.compile (.gen2 4 6) = .ok p ∧
    overheard.partition (.gen2 4 6) = .ok bs ∧ ∃ x ∈ p.channels, x.level = .external ∧
      x.key.direction = .outbound ∧ x.opIds = [1, 5] ∧ ¬ p.Delivers bs x := by
  have hfound : (match overheard.compile (.gen2 4 6), overheard.partition (.gen2 4 6) with
      | .ok p, .ok bs => decide (∃ x ∈ p.channels, x.level = .external ∧
          x.key.direction = .outbound ∧ x.opIds = [1, 5] ∧ ¬ p.Delivers bs x)
      | _, _ => false) = true := by
    decide +kernel
  cases hp : overheard.compile (.gen2 4 6) with
  | error e => simp [hp] at hfound
  | ok p =>
    cases hbs : overheard.partition (.gen2 4 6) with
    | error e => simp [hp, hbs] at hfound
    | ok bs =>
      rw [hp, hbs] at hfound
      exact ⟨p, bs, rfl, rfl, of_decide_eq_true hfound⟩

end Graph

end TileTraffic
