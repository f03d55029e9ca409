import TileTraffic.Proofs.Channel.Passes
import TileTraffic.Proofs.Program.Stages

/-!
The order of ops on the channels of a program. Where the ids of ops are different, every channel
lists its ops bundle by bundle, so that two bundles that share a flow have their transfers in the
same order at both ends of it.
-/

namespace TileTraffic

namespace Bundle

/--
The ops of the bundle on a channel: those of the producing end, and then those of the destinations
in order.
-/
def opsOn (b : Bundle) (key : ChannelKey) : List Occurrence :=
  Endpoint.opsOn (b.producer :: b.consumers) key

theorem sublist_opsOn {b : Bundle} {key : ChannelKey} {e : Endpoint}
    (he : e ∈ b.producer :: b.consumers) (hkey : e.key = some key) :
    e.ops.Sublist (b.opsOn key) := by
  have hmem : e ∈ (b.producer :: b.consumers).filter fun e => e.key = some key := by
    rw [List.mem_filter]
    exact ⟨he, by simpa using hkey⟩
  have hsublist := flatMap_sublist Endpoint.ops (List.singleton_sublist.mpr hmem)
  rw [List.flatMap_singleton] at hsublist
  exact hsublist

end Bundle

theorem Endpoint.opsOn_eq_nil {es : List Endpoint} {key : ChannelKey}
    (h : ∀ e ∈ es, e.key ≠ some key) : opsOn es key = [] := by
  have hnil : (es.filter fun e => e.key = some key) = [] := by
    rw [List.filter_eq_nil_iff]
    intro e he
    simpa using h e he
  unfold opsOn
  rw [hnil]
  rfl

theorem Endpoint.opsOn_flatMap {α : Type} (as : List α) (f : α → List Endpoint)
    (key : ChannelKey) : opsOn (as.flatMap f) key = as.flatMap fun a => opsOn (f a) key := by
  unfold opsOn
  rw [List.filter_flatMap, List.flatMap_assoc]

namespace Program

/--
At both ends of the flow, all that the first bundle has there comes before what the second one has.
-/
def Agrees (p : Program) (f : Flow) (b b' : Bundle) : Prop :=
  ∃ x ∈ p.channels, ∃ y ∈ p.channels, x.key = f.source ∧ y.key = f.dest ∧
    (b.producer.ops ++ b'.producer.ops).Sublist x.ops ∧
    ∀ e ∈ b.consumers, ∀ e' ∈ b'.consumers, e.key = some f.dest → e'.key = some f.dest →
      (e.ops ++ e'.ops).Sublist y.ops

/--
The channels list their ops by the bundles, whose ends are all on channels of the program: bundle by
bundle, end by end, and every end in the order of the graph. What one bundle sends over a flow comes
before what a later one sends over it, and is received before.
-/
structure InOrder (p : Program) (bs : List Bundle) : Prop where
  keyed : ∀ b ∈ bs, ∀ e ∈ b.producer :: b.consumers, ∃ x ∈ p.channels, e.key = some x.key
  ops_eq : ∀ x ∈ p.channels, x.ops = bs.flatMap fun b => b.opsOn x.key
  opIds_eq : ∀ x ∈ p.channels, x.opIds = x.ops.map fun o => o.op.id
  distinct : ∀ x ∈ p.channels, Occurrence.Distinct x.ops
  increasing : ∀ b ∈ bs, ∀ e ∈ b.producer :: b.consumers, Occurrence.Increasing e.ops
  agree : ∀ b b', [b, b'].Sublist bs → ∀ f, b.HasFlow f → b'.HasFlow f →
    f ∈ p.flows ∧ p.Agrees f b b'

end Program

namespace Assignment.Complete

variable {g : Graph} {t : Target} {d : Device} {bs : List Bundle} {a : Assignment}

/--
A channel has no ops of ends at other levels than its own.
-/
theorem opsOn_endpointsAt (h : a.Complete g t d bs) (hbs : ∀ b ∈ bs, b.Sound g t) {level : Level}
    {x : Allocation} (hx : x ∈ (a.pool level).opened) {b : Bundle} (hb : b ∈ a.bundles) :
    Endpoint.opsOn (b.endpointsAt level) x.key = b.opsOn x.key := by
  have hother : ∀ other, other ≠ level → ∀ e ∈ b.endpointsAt other, e.key ≠ some x.key := by
    intro other hne e he hkey
    obtain ⟨y, hy, rfl⟩ := List.mem_map.mp he
    have hrole := (h.hosts (List.mem_map_of_mem hx)).roleOfRow_eq
    rw [h.role_of_end hbs hb hy hkey] at hrole
    exact hne (role_injective hrole)
  have hproducer : b.producerLevel ≠ level → b.producer.key ≠ some x.key := by
    intro hne
    exact hother _ hne _ (List.mem_map_of_mem (f := Prod.snd) Bundle.producer_mem_endsAt)
  have hconsumer : b.consumerLevel ≠ level → ∀ e ∈ b.consumers, e.key ≠ some x.key := by
    intro hne e he
    exact hother _ hne _ (List.mem_map_of_mem (f := Prod.snd) (Bundle.consumer_mem_endsAt he))
  have hsplit : b.opsOn x.key =
      Endpoint.opsOn [b.producer] x.key ++ Endpoint.opsOn b.consumers x.key :=
    Endpoint.opsOn_append [b.producer] b.consumers x.key
  rw [hsplit]
  by_cases hp : b.producerLevel = level
  . have hc : b.consumerLevel ≠ level := by
      rw [← hp]
      exact Ne.symm (h.bundle_sound hbs hb).level_ne
    rw [Bundle.endpointsAt_of_producer hp hc, Endpoint.opsOn_eq_nil (hconsumer hc),
      List.append_nil]
  . rw [Endpoint.opsOn_singleton, if_neg (hproducer hp), List.nil_append]
    by_cases hc : b.consumerLevel = level
    . rw [Bundle.endpointsAt_of_consumer hp hc]
    . rw [Bundle.endpointsAt_of_neither hp hc, Endpoint.opsOn_eq_nil (hconsumer hc)]
      rfl

theorem exists_channel (h : a.Complete g t d bs) (hbs : ∀ b ∈ bs, b.Sound g t) {b : Bundle}
    (hb : b ∈ a.bundles) {level : Level} {y : Direction × Endpoint} (hy : y ∈ b.endsAt level) :
    ∃ x ∈ a.allocations, y.2.key = some x.key := by
  have hne := (h.bundle_sound hbs hb).ends_ne hy
  obtain ⟨key, hkey, hopen⟩ := (h.covered level).key_mem (Bundle.mem_endsOf hb hy) hne
  obtain ⟨x, hx, rfl⟩ := List.mem_map.mp hopen
  exact ⟨x, mem_allocations_iff.mpr ⟨level, hx⟩, hkey⟩

end Assignment.Complete

namespace Built

variable {g : Graph} {t : Target} {p : Program} {bs : List Bundle} {d : Device} {a : Assignment}

theorem passes (h : Built g t p bs d a) : ∃ bs₁ bs₂, Assignment.Passes g t d bs bs₁ bs₂ a :=
  Assignment.ofBundles_eq_ok h.target_eq h.homes h.partitioned h.assigned

/--
What a channel lists, once it is known that its pool has kept a ledger.
-/
theorem ops_eq_of_ledger (h : Built g t p bs d a) {level : Level} {x : Allocation}
    (hx : x ∈ (a.pool level).opened)
    (hledger : (a.pool level).Ledger (a.bundles.flatMap (Bundle.endpointsAt level))) :
    x.ops = a.bundles.flatMap fun b => b.opsOn x.key := by
  rw [← ChannelPool.opsOn_of_mem (h.complete.sound level).keys_nodup hx, hledger.opsOn_eq,
    Endpoint.opsOn_flatMap, List.flatMap_def, List.flatMap_def]
  congr 1
  apply List.map_congr_left
  intro b hb
  exact h.complete.opsOn_endpointsAt h.partitioned.sound hx hb

theorem keyed (h : Built g t p bs d a) {b : Bundle} (hb : b ∈ a.bundles) {e : Endpoint}
    (he : e ∈ b.producer :: b.consumers) : ∃ x ∈ p.channels, e.key = some x.key := by
  rw [h.channels_eq]
  rcases List.mem_cons.mp he with rfl | he
  . exact h.complete.exists_channel h.partitioned.sound hb Bundle.producer_mem_endsAt
  . exact h.complete.exists_channel h.partitioned.sound hb (Bundle.consumer_mem_endsAt he)

theorem increasing (h : Built g t p bs d a) {b : Bundle} (hb : b ∈ a.bundles) {e : Endpoint}
    (he : e ∈ b.producer :: b.consumers) : Occurrence.Increasing e.ops := by
  have hmem : b.unassigned ∈ bs := by
    rw [← h.complete.unassigned]
    exact List.mem_map_of_mem hb
  have hall := (Graph.partition_arranged h.partition).increasing _ hmem
  rcases List.mem_cons.mp he with rfl | he
  . exact hall b.unassigned.producer (by simp)
  . apply hall e.unassigned
    exact List.mem_cons_of_mem _ (List.mem_map_of_mem he)

/--
What two bundles have on one channel is there in the order of the bundles.
-/
theorem sublist_ops {x : Allocation} (hops : x.ops = a.bundles.flatMap fun b => b.opsOn x.key)
    {b b' : Bundle} (hbundles : [b, b'].Sublist a.bundles) {e e' : Endpoint}
    (he : e ∈ b.producer :: b.consumers) (he' : e' ∈ b'.producer :: b'.consumers)
    (hkey : e.key = some x.key) (hkey' : e'.key = some x.key) :
    (e.ops ++ e'.ops).Sublist x.ops := by
  have hboth := flatMap_sublist (fun b => b.opsOn x.key) hbundles
  rw [← hops, List.flatMap_cons, List.flatMap_singleton] at hboth
  exact ((Bundle.sublist_opsOn he hkey).append (Bundle.sublist_opsOn he' hkey')).trans hboth

theorem agrees (h : Built g t p bs d a)
    (hops : ∀ x ∈ p.channels, x.ops = a.bundles.flatMap fun b => b.opsOn x.key) {b b' : Bundle}
    (hbundles : [b, b'].Sublist a.bundles) {f : Flow} (hflow : b.HasFlow f)
    (hflow' : b'.HasFlow f) : p.Agrees f b b' := by
  have hb : b ∈ a.bundles := hbundles.subset (by simp)
  obtain ⟨e, he, hdest⟩ := hflow.2
  obtain ⟨x, hx, hxkey⟩ := h.keyed hb (e := b.producer) (by simp)
  obtain ⟨y, hy, hykey⟩ := h.keyed hb (List.mem_cons_of_mem _ he)
  have hsource : f.source = x.key := Option.some.inj (hflow.1.symm.trans hxkey)
  have hdest : f.dest = y.key := Option.some.inj (hdest.symm.trans hykey)
  refine ⟨x, hx, y, hy, hsource.symm, hdest.symm, ?_, ?_⟩
  . apply sublist_ops (hops x hx) hbundles (by simp) (by simp) hxkey
    rw [← hsource]
    exact hflow'.1
  . intro e he e' he' hkey hkey'
    rw [hdest] at hkey hkey'
    exact sublist_ops (hops y hy) hbundles (List.mem_cons_of_mem _ he)
      (List.mem_cons_of_mem _ he') hkey hkey'

theorem distinct_of_ledger (h : Built g t p bs d a) {level : Level} {x : Allocation}
    (hx : x ∈ (a.pool level).opened)
    (hledger : (a.pool level).Ledger (a.bundles.flatMap (Bundle.endpointsAt level))) :
    Occurrence.Distinct x.ops := by
  have hdistinct :=
    (Graph.partition_arranged h.partition).distinct_opsAt h.partitioned.sound level
  have hmap : a.bundles.map Bundle.unassigned = bs.map Bundle.unassigned := by
    rw [h.complete.unassigned, h.partitioned.unassigned]
  rw [← Bundle.flatMap_opsAt_congr hmap, ← Bundle.flatMap_ops_endpointsOf] at hdistinct
  rw [← ChannelPool.opsOn_of_mem (h.complete.sound level).keys_nodup hx, hledger.opsOn_eq]
  exact hdistinct.sublist (flatMap_sublist _ List.filter_sublist)

theorem inOrder (h : Built g t p bs d a) (hids : (g.ops.map Op.id).Nodup) :
    p.InOrder a.bundles := by
  obtain ⟨bs₁, bs₂, hpasses⟩ := h.passes
  have hledger := hpasses.ledger h.partitioned (Graph.partition_arranged h.partition) hids
  have hopened : ∀ x ∈ p.channels, ∃ level, x ∈ (a.pool level).opened := by
    intro x hx
    rw [h.channels_eq] at hx
    exact Assignment.mem_allocations_iff.mp hx
  have hops : ∀ x ∈ p.channels, x.ops = a.bundles.flatMap fun b => b.opsOn x.key := by
    intro x hx
    obtain ⟨level, hx⟩ := hopened x hx
    exact h.ops_eq_of_ledger hx (hledger level)
  constructor
  . exact fun b hb e he => h.keyed hb he
  . exact hops
  . intro x hx
    obtain ⟨level, hx⟩ := hopened x hx
    exact (h.complete.allocation hx).opIds_eq
  . intro x hx
    obtain ⟨level, hx⟩ := hopened x hx
    exact h.distinct_of_ledger hx (hledger level)
  . exact fun b hb e he => h.increasing hb he
  . intro b b' hbundles f hflow hflow'
    refine ⟨(h.mem_flows f).mpr ⟨b, hbundles.subset (by simp), hflow⟩, ?_⟩
    exact h.agrees hops hbundles hflow hflow'

end Built

namespace Graph

variable {g : Graph} {t : Target} {p : Program}

/--
A program that comes out of a graph whose ops have different ids lists them in the order of the
bundles of the graph.
-/
theorem compile_inOrder (hids : (g.ops.map Op.id).Nodup) (h : g.compile t = .ok p) :
    ∃ bs, g.partition t = .ok (bs.map Bundle.unassigned) ∧ p.InOrder bs := by
  obtain ⟨bs, d, a, hbuilt, _⟩ := compile_eq_ok h
  refine ⟨a.bundles, ?_, hbuilt.inOrder hids⟩
  rw [hbuilt.complete.unassigned]
  exact hbuilt.partition

theorem compile_relay_inOrder : (relay.ops.map Op.id).Nodup ∧
    ∃ p, relay.compile (.gen2 4 6) = .ok p ∧ ∃ bs,
      relay.partition (.gen2 4 6) = .ok (bs.map Bundle.unassigned) ∧ p.InOrder bs := by
  have hids : (relay.ops.map Op.id).Nodup := by decide
  obtain ⟨p, hp⟩ := exists_compile_relay
  exact ⟨hids, p, hp, compile_inOrder hids hp⟩

end Graph

end TileTraffic
