import TileTraffic.Proofs.Bundle.Cover
import TileTraffic.Proofs.Channel.Excerpt
import TileTraffic.Proofs.Descriptor.Blocks
import TileTraffic.Proofs.Program.Order

/-!
The order of ops on the channels of a program, for all graphs. A channel lists what it has of the
first end that is on it, then what it has of the second, and so on, each in the order of the graph.
The whole list is in the order of the graph just if the ends come one after the other in the graph,
which they need not do.
-/

namespace TileTraffic

theorem eq_filter_of_sublist {α : Type} [DecidableEq α] {as bs : List α} (h : as.Sublist bs)
    (hbs : bs.Nodup) : as = bs.filter (· ∈ as) := by
  induction h with
  | slnil => rfl
  | @cons as bs b hsub ih =>
    rw [List.nodup_cons] at hbs
    rw [List.filter_cons_of_neg (by simpa using fun hb => hbs.1 (hsub.subset hb))]
    exact ih hbs.2
  | @cons_cons as bs b hsub ih =>
    rw [List.nodup_cons] at hbs
    rw [List.filter_cons_of_pos (by simp)]
    refine congrArg (b :: ·) ((ih hbs.2).trans (List.filter_congr ?_))
    intro c hc
    have hne : c ≠ b := fun heq => hbs.1 (heq ▸ hc)
    simp [hne]

namespace Endpoint

/--
Of the ops in the list, those of the first end come before those of the second in the graph.
-/
def Precedes (ops : List Occurrence) (e e' : Endpoint) : Prop :=
  ∀ o ∈ ops, ∀ o' ∈ ops, o ∈ e.ops → o' ∈ e'.ops → o.ref < o'.ref

/--
What has been picked from ends, each in the order of the graph, is in that order just if it is so
from end to end.
-/
theorem increasing_iff {ops : List Occurrence} {es : List Endpoint}
    (h : ops.Sublist (es.flatMap Endpoint.ops))
    (hdistinct : Occurrence.Distinct (es.flatMap Endpoint.ops))
    (hes : ∀ e ∈ es, Occurrence.Increasing e.ops) :
    Occurrence.Increasing ops ↔ es.Pairwise (Precedes ops) := by
  have hnodup : (es.flatMap Endpoint.ops).Nodup :=
    hdistinct.imp fun href heq => href (congrArg Occurrence.ref heq)
  have hfilter := eq_filter_of_sublist h hnodup
  constructor
  . intro hops
    unfold Occurrence.Increasing at hops
    rw [hfilter, List.pairwise_filter, List.pairwise_flatMap] at hops
    apply hops.2.imp
    intro e e' hlt o ho o' ho' hoe hoe'
    exact hlt o hoe o' hoe' (by simpa using ho) (by simpa using ho')
  . intro hends
    unfold Occurrence.Increasing
    rw [hfilter, List.pairwise_filter, List.pairwise_flatMap]
    constructor
    . intro e he
      exact (hes e he).imp fun hlt _ _ => hlt
    . apply hends.imp
      intro e e' hprecedes o hoe o' hoe' ho ho'
      exact hprecedes o (by simpa using ho) o' (by simpa using ho') hoe hoe'

end Endpoint

namespace Bundle

/--
The ends of the bundles that are on a channel, bundle by bundle.
-/
def endsOn (bs : List Bundle) (key : ChannelKey) : List Endpoint :=
  bs.flatMap fun b => (b.producer :: b.consumers).filter fun e => e.key = some key

variable {bs : List Bundle} {key : ChannelKey}

theorem ops_unassigned (b : Bundle) : b.unassigned.ops = b.ops := by
  unfold ops lists
  rw [show b.unassigned.consumers.map Endpoint.ops = b.consumers.map Endpoint.ops from
    map_ops_unassigned b.consumers]
  rfl

theorem flatMap_ops_endsOn :
    (endsOn bs key).flatMap Endpoint.ops = bs.flatMap fun b => b.opsOn key := by
  unfold endsOn
  rw [List.flatMap_assoc]
  rfl

theorem mem_endsOn_iff {e : Endpoint} :
    e ∈ endsOn bs key ↔ ∃ b ∈ bs, e ∈ b.producer :: b.consumers ∧ e.key = some key := by
  unfold endsOn
  rw [List.mem_flatMap]
  simp only [List.mem_filter, decide_eq_true_eq]

end Bundle

namespace Program

/--
The channels list ops of the bundles, whose ends are all on channels of the program: end by end, and
of every end in the order of the graph. The chains have one block for every op in the list.
-/
structure Interleaves (p : Program) (bs : List Bundle) : Prop where
  keyed : ∀ b ∈ bs, ∀ e ∈ b.producer :: b.consumers, ∃ x ∈ p.channels, e.key = some x.key
  sublist : ∀ x ∈ p.channels, x.ops.Sublist ((Bundle.endsOn bs x.key).flatMap Endpoint.ops)
  ends : ∀ b ∈ bs, ∀ e ∈ b.producer :: b.consumers, Occurrence.Increasing e.ops
  /-- A channel is in the order of the graph just if no two ends on it are interleaved there. -/
  increasing_iff : ∀ x ∈ p.channels,
    Occurrence.Increasing x.ops ↔ (Bundle.endsOn bs x.key).Pairwise (Endpoint.Precedes x.ops)
  /-- Every bundle has an op that comes before all ops of the bundles behind it. -/
  first : bs.Pairwise fun b c => ∃ o ∈ b.ops, ∀ o' ∈ c.ops, o.ref < o'.ref
  /-- Every channel has a chain, the blocks of which are in the order of the channel. -/
  chains : ∀ x ∈ p.channels, ∃ q ∈ p.tiles, q.tile = x.key.tile ∧ ∃ c ∈ q.chains,
    c.direction = x.key.direction ∧ c.channel = x.key.id ∧
      c.blocks.map Block.op = x.ops.map fun o => o.op.id
  /-- There are no other chains. -/
  blocks : ∀ q ∈ p.tiles, ∀ c ∈ q.chains, ∃ x ∈ p.channels,
    x.key = ⟨q.tile, c.direction, c.channel⟩ ∧
      c.blocks.map Block.op = x.ops.map fun o => o.op.id

end Program

namespace Built

variable {g : Graph} {t : Target} {p : Program} {bs : List Bundle} {d : Device} {a : Assignment}

theorem opsOn_endpointsAt (h : Built g t p bs d a) {level : Level} {x : Allocation}
    (hx : x ∈ (a.pool level).opened) :
    Endpoint.opsOn (a.bundles.flatMap (Bundle.endpointsAt level)) x.key =
      (Bundle.endsOn a.bundles x.key).flatMap Endpoint.ops := by
  rw [Bundle.flatMap_ops_endsOn, Endpoint.opsOn_flatMap, List.flatMap_def, List.flatMap_def]
  congr 1
  apply List.map_congr_left
  intro b hb
  exact h.complete.opsOn_endpointsAt h.partitioned.sound hx hb

theorem sublist_endsOn (h : Built g t p bs d a) {level : Level} {x : Allocation}
    (hx : x ∈ (a.pool level).opened) :
    x.ops.Sublist ((Bundle.endsOn a.bundles x.key).flatMap Endpoint.ops) := by
  obtain ⟨bs₁, bs₂, hpasses⟩ := h.passes
  have hexcerpt := hpasses.excerpt h.partitioned (Graph.partition_arranged h.partition) level x.key
  rw [ChannelPool.opsOn_of_mem (h.complete.sound level).keys_nodup hx,
    h.opsOn_endpointsAt hx] at hexcerpt
  exact hexcerpt

theorem distinct_endsOn (h : Built g t p bs d a) {level : Level} {x : Allocation}
    (hx : x ∈ (a.pool level).opened) :
    Occurrence.Distinct ((Bundle.endsOn a.bundles x.key).flatMap Endpoint.ops) := by
  have hdistinct :=
    (Graph.partition_arranged h.partition).distinct_opsAt h.partitioned.sound level
  have hmap : a.bundles.map Bundle.unassigned = bs.map Bundle.unassigned := by
    rw [h.complete.unassigned, h.partitioned.unassigned]
  rw [← Bundle.flatMap_opsAt_congr hmap, ← Bundle.flatMap_ops_endpointsOf] at hdistinct
  rw [← h.opsOn_endpointsAt hx]
  exact hdistinct.sublist (flatMap_sublist _ List.filter_sublist)

theorem interleaves (h : Built g t p bs d a) {d' : Device} {bindings : Bindings}
    (hemitted : Emitted t p d' bindings) : p.Interleaves a.bundles := by
  have hopened : ∀ x ∈ p.channels, ∃ level, x ∈ (a.pool level).opened := by
    intro x hx
    rw [h.channels_eq] at hx
    exact Assignment.mem_allocations_iff.mp hx
  have hkeys : (p.channels.map Allocation.key).Nodup := by
    rw [h.channels_eq]
    exact h.complete.keys_nodup
  obtain ⟨hblocks, hchains⟩ := Device.synthesize_eq_ok hkeys hemitted.tiles_eq
  constructor
  . exact fun b hb e he => h.keyed hb he
  . intro x hx
    obtain ⟨level, hx⟩ := hopened x hx
    exact h.sublist_endsOn hx
  . exact fun b hb e he => h.increasing hb he
  . intro x hx
    obtain ⟨level, hx⟩ := hopened x hx
    apply Endpoint.increasing_iff (h.sublist_endsOn hx) (h.distinct_endsOn hx)
    intro e he
    obtain ⟨b, hb, he, _⟩ := Bundle.mem_endsOn_iff.mp he
    exact h.increasing hb he
  . have hfirst := Graph.partition_first h.partition
    rw [← h.complete.unassigned, List.pairwise_map] at hfirst
    simp only [Bundle.ops_unassigned] at hfirst
    exact hfirst
  . intro x hx
    obtain ⟨level, hopen⟩ := hopened x hx
    obtain ⟨q, hq, htile, c, hc, hok⟩ := hchains x hx (h.complete.allocation hopen).ops_ne
    obtain ⟨hdirection, hchannel, _⟩ := Device.chain_eq_ok hok
    exact ⟨q, hq, htile, c, hc, hdirection, hchannel, Device.map_op_of_chain_eq_ok hok⟩
  . intro q hq c hc
    obtain ⟨x, hx, htile, hok⟩ := hblocks q hq c hc
    obtain ⟨hdirection, hchannel, _⟩ := Device.chain_eq_ok hok
    refine ⟨x, hx, ?_, Device.map_op_of_chain_eq_ok hok⟩
    rw [← htile, hdirection, hchannel]

end Built

namespace Graph

variable {g : Graph} {t : Target} {p : Program}

theorem compile_interleaves (h : g.compile t = .ok p) :
    ∃ bs, g.partition t = .ok (bs.map Bundle.unassigned) ∧ p.Interleaves bs := by
  obtain ⟨bs, d, a, hbuilt, d', bindings, hemitted⟩ := compile_eq_ok h
  refine ⟨a.bundles, ?_, hbuilt.interleaves hemitted⟩
  rw [hbuilt.complete.unassigned]
  exact hbuilt.partition

/--
Two stores over one logical channel, with two direct stores in between that open a second channel
and come back to the first.
-/
def braid : Graph where
  scope := "braid"
  buffers := [⟨"far", .external, [16], 4⟩, ⟨"near", .tileLocal, [16], 4⟩]
  channels := [⟨"a", none⟩]
  regions := [⟨"cell", 0, 2, 1, 1⟩]
  ops := [put 1, get 2, store 3, store 4, put 5, get 6]
  host := none
where
  far : Access := .whole "far" .external
  near : Access := .whole "near" .tileLocal
  put (id : Nat) : Op := ⟨id, .put "a" near, some "cell", some [0, 0], [], [], none⟩
  get (id : Nat) : Op := ⟨id, .get "a" far, none, none, [], [], none⟩
  store (id : Nat) : Op := ⟨id, .copy near far, some "cell", some [0, 0], [], [], none⟩

theorem compile_braid_interleaves :
    ∃ p, braid.compile (.gen2 4 6) = .ok p ∧
      ∃ bs, braid.partition (.gen2 4 6) = .ok (bs.map Bundle.unassigned) ∧ p.Interleaves bs := by
  obtain ⟨p, hp⟩ : ∃ p, braid.compile (.gen2 4 6) = .ok p := exists_of_isOk (by decide +kernel)
  exact ⟨p, hp, compile_interleaves hp⟩

/--
The second put joins the first on its channel before the store in between does.
-/
theorem compile_braid_disordered : ∃ p, braid.compile (.gen2 4 6) = .ok p ∧
    ∃ x ∈ p.channels, x.ops.map Occurrence.ref = [0, 4, 3] ∧ ¬ Occurrence.Increasing x.ops := by
  have hdecided : ∃ p, braid.compile (.gen2 4 6) = .ok p ∧
      ∃ x ∈ p.channels, x.ops.map Occurrence.ref = [0, 4, 3] :=
    exists_ok_of_decide (by decide +kernel)
  obtain ⟨p, hp, x, hx, hrefs⟩ := hdecided
  refine ⟨p, hp, x, hx, hrefs, ?_⟩
  intro hops
  have hmap : (x.ops.map Occurrence.ref).Pairwise (· < ·) := List.pairwise_map.mpr hops
  rw [hrefs] at hmap
  revert hmap
  decide

end Graph

end TileTraffic
