import TileTraffic.Proofs.Descriptor.Blocks
import TileTraffic.Proofs.Descriptor.Laps

/-!
Synthesis emits what has been allocated, and nothing else. Every tile with channels has a program,
and every channel with ops a chain; the order in which the channels are listed does not matter.
-/

namespace TileTraffic

/--
The order of chains on a tile: by direction, and then by number.
-/
def Chain.Precedes (c c' : Chain) : Prop :=
  c.direction.rank < c'.direction.rank ∨ c.direction = c'.direction ∧ c.channel < c'.channel

namespace Device

variable {d : Device} {bindings : Bindings} {as : List Allocation} {a : Allocation} {c : Chain}
  {occ : Occurrence}

/-! ### Chains -/

/--
The chain runs the ops of a channel: it has one block for each op, in their order, each of which
leads to the one behind it and the last one to the first. From any block on, lap after lap, each of
them runs in turn.
-/
structure RunsOps (d : Device) (bindings : Bindings) (a : Allocation) (c : Chain) : Prop where
  direction_eq : c.direction = a.key.direction
  channel_eq : c.channel = a.key.id
  length_eq : c.blocks.length = a.ops.length
  block : ∀ n occ, a.ops[n]? = some occ → ∃ b, c.blocks[n]? = some b ∧ b.op = occ.op.id ∧
    b.next = (n + 1) % a.ops.length ∧ d.block bindings a occ b.next = .ok b
  laps : ∀ i < c.blocks.length, ∀ n, c.visits (n * c.blocks.length) i =
    (List.replicate n ((List.range c.blocks.length).rotate i)).flatten

/--
The block at a position is that of the op at this position.
-/
theorem getElem?_blocks (h : d.chain bindings a = .ok c) (n : Nat) :
    (a.ops[n]?.map fun occ => d.block bindings a occ ((n + 1) % a.ops.length)) =
      c.blocks[n]?.map .ok := by
  unfold chain at h
  obtain ⟨blocks, hblocks, h⟩ := bind_eq_ok h
  obtain rfl := Except.ok.inj h
  have hget := getElem?_of_mapM_eq_ok hblocks n
  rw [List.getElem?_zipIdx, Option.map_map, Nat.zero_add] at hget
  rw [← hget]
  cases hocc : a.ops[n]? with
  | none => rfl
  | some occ =>
    have hpos := Nat.zero_lt_of_lt (List.getElem?_eq_some_iff.mp hocc).1
    simp only [Option.map_some, Function.comp_apply, remainder_of_pos hpos]
    rfl

theorem chain_runs (h : d.chain bindings a = .ok c) : d.RunsOps bindings a c := by
  obtain ⟨hdirection, hchannel, _⟩ := chain_eq_ok h
  have hlength : c.blocks.length = a.ops.length := by
    rw [← List.length_map (f := Block.op), map_op_of_chain_eq_ok h, List.length_map]
  have hblock : ∀ n occ, a.ops[n]? = some occ → ∃ b, c.blocks[n]? = some b ∧ b.op = occ.op.id ∧
      b.next = (n + 1) % a.ops.length ∧ d.block bindings a occ b.next = .ok b := by
    intro n occ hocc
    have hget := getElem?_blocks h n
    rw [hocc, Option.map_some] at hget
    obtain ⟨b, hb, hok⟩ := Option.map_eq_some_iff.mp hget.symm
    obtain ⟨hop, hnext, _⟩ := block_eq_ok hok.symm
    exact ⟨b, hb, hop, hnext, by rw [hnext]; exact hok.symm⟩
  have hcircular : c.Circular := by
    intro n b hb
    have hn := (List.getElem?_eq_some_iff.mp hb).1
    rw [hlength] at hn
    obtain ⟨b', hb', _, hnext, _⟩ := hblock n _ (List.getElem?_eq_getElem hn)
    obtain rfl := Option.some.inj (hb.symm.trans hb')
    rw [hnext, hlength]
  exact ⟨hdirection, hchannel, hlength, hblock, fun i hi n => hcircular.visits_laps hi n⟩

/--
Whether an op has a block does not depend on where the block leads to.
-/
theorem block_next (n : Nat) :
    d.block bindings a occ n = (d.block bindings a occ 0).map fun b => { b with next := n } := by
  unfold block
  cases occ.op.accessAt? a.level with
  | none => rfl
  | some access =>
    dsimp only [bind, Except.bind]
    cases bound bindings a occ with
    | error e => rfl
    | ok m =>
      dsimp only
      cases d.bufferAt m with
      | error e => rfl
      | ok buffer =>
        dsimp only
        cases d.pair? m a.key with
        | none => rfl
        | some pair =>
          dsimp only
          cases access.baseOffset occ.op buffer with
          | error e => rfl
          | ok offset =>
            dsimp only
            cases access.transferLength occ.op buffer with
            | error e => rfl
            | ok length => rfl

theorem exists_block_iff {n : Nat} :
    (∃ b, d.block bindings a occ n = .ok b) ↔ ∃ b, d.block bindings a occ 0 = .ok b := by
  rw [block_next n]
  constructor
  . rintro ⟨b, h⟩
    obtain ⟨b', hb', _⟩ := map_eq_ok h
    exact ⟨b', hb'⟩
  . rintro ⟨b, h⟩
    rw [h]
    exact ⟨_, rfl⟩

theorem exists_chain_iff :
    (∃ c, d.chain bindings a = .ok c) ↔
      ∀ occ ∈ a.ops, ∃ b, d.block bindings a occ 0 = .ok b := by
  constructor
  . rintro ⟨c, hc⟩ occ hocc
    obtain ⟨n, hn⟩ := List.getElem?_of_mem hocc
    obtain ⟨b, _, _, _, hb⟩ := (chain_runs hc).block n occ hn
    exact exists_block_iff.mp ⟨b, hb⟩
  . intro h
    unfold chain
    have hblocks : ∀ x ∈ a.ops.zipIdx, ∃ b,
        (do d.block bindings a x.1 (← remainder (x.2 + 1) a.ops.length)) = .ok b := by
      intro ⟨occ, i⟩ hmem
      have hocc := List.fst_mem_of_mem_zipIdx hmem
      rw [remainder_of_pos (List.length_pos_of_mem hocc)]
      exact exists_block_iff.mpr (h occ hocc)
    obtain ⟨bs, hbs⟩ := exists_mapM_eq_ok hblocks
    rw [hbs]
    exact ⟨_, rfl⟩

/-! ### Programs -/

/--
The program is that of the channels of its tile: a chain for every channel with ops, in order, all of
which the dispatcher starts before it is done.
-/
structure Programs (d : Device) (bindings : Bindings) (as : List Allocation) (q : TileProgram) :
    Prop where
  sorted : q.chains.Pairwise Chain.Precedes
  channel : ∀ c ∈ q.chains, ∃ a ∈ as, a.key.tile = q.tile ∧ a.ops ≠ [] ∧ d.RunsOps bindings a c
  chain : ∀ a ∈ as, a.key.tile = q.tile → a.ops ≠ [] → ∃ c ∈ q.chains, d.RunsOps bindings a c
  started : ∀ cs, q.Starts q.first cs ↔ cs = q.chains

/--
There is a program for every tile with channels, in the order of their coordinates.
-/
structure Emits (d : Device) (bindings : Bindings) (as : List Allocation) (qs : List TileProgram) :
    Prop where
  sorted : qs.Pairwise fun q q' => q.tile < q'.tile
  mem_tiles : ∀ tile, tile ∈ qs.map TileProgram.tile ↔ tile ∈ as.map fun a => a.key.tile
  programs : ∀ q ∈ qs, d.Programs bindings as q

theorem pairwise_precedes (h : (as.map Allocation.key).Nodup) {tile : Coord} {cs : List Chain}
    (hcs : ((Allocation.channelsOn tile as).filter fun a => !a.ops.isEmpty).mapM
      (d.chain bindings) = .ok cs) : cs.Pairwise Chain.Precedes := by
  have hmap := map_eq_of_mapM_eq_ok (p := fun a : Allocation => (a.key.direction, a.key.id))
    (q := fun c : Chain => (c.direction, c.channel)) hcs <| by
      intro a c hc
      rw [(chain_runs hc).direction_eq, (chain_runs hc).channel_eq]
  suffices hpairs : (cs.map fun c => (c.direction, c.channel)).Pairwise fun x y =>
      x.1.rank < y.1.rank ∨ x.1 = y.1 ∧ x.2 < y.2 by
    exact (List.pairwise_map (f := fun c : Chain => (c.direction, c.channel))).mp hpairs
  rw [hmap, List.pairwise_map]
  apply ((Allocation.sorted_channelsOn tile as).filter _).imp_of_mem
  intro a b ha hb hlt
  -- on one tile, the order of keys is that of directions and numbers
  have hatile := ((Allocation.mem_channelsOn h).mp (List.mem_filter.mp ha).1).2
  have hbtile := ((Allocation.mem_channelsOn h).mp (List.mem_filter.mp hb).1).2
  rcases hlt with hlt | ⟨_, hlt⟩
  . rw [hatile, hbtile] at hlt
    exact absurd hlt (StrictTotal.irrefl tile)
  . exact hlt

theorem tileProgram_programs (h : (as.map Allocation.key).Nodup) {tile : Coord} {q : TileProgram}
    (hq : d.tileProgram bindings tile (Allocation.channelsOn tile as) = .ok q) :
    d.Programs bindings as q := by
  obtain ⟨_, _, hentries, hchains⟩ := tileProgram_parts hq
  obtain ⟨rfl, hchannel, hchain⟩ := tileProgram_eq_ok h hq
  constructor
  . exact pairwise_precedes h hchains
  . intro c hc
    obtain ⟨a, ha, htile, hne, hok⟩ := hchannel c hc
    exact ⟨a, ha, htile, hne, chain_runs hok⟩
  . intro a ha htile hne
    obtain ⟨c, hc, hok⟩ := hchain a ha htile hne
    exact ⟨c, hc, chain_runs hok⟩
  . intro cs
    have hstarts := TileProgram.starts_first hentries
    constructor
    . exact fun hcs => hcs.unique hstarts
    . rintro rfl
      exact hstarts

theorem exists_tileProgram {tile : Coord} {channels : List Allocation}
    (h : ∀ a ∈ channels, ∀ occ ∈ a.ops, ∃ b, d.block bindings a occ 0 = .ok b) :
    ∃ q, d.tileProgram bindings tile channels = .ok q := by
  have hchains : ∀ a ∈ channels.filter fun a => !a.ops.isEmpty,
      ∃ c, d.chain bindings a = .ok c := by
    intro a ha
    exact exists_chain_iff.mpr (h a (List.mem_filter.mp ha).1)
  obtain ⟨cs, hcs⟩ := exists_mapM_eq_ok hchains
  unfold tileProgram
  rw [hcs]
  exact ⟨_, rfl⟩

theorem exists_synthesize_iff (h : (as.map Allocation.key).Nodup) :
    (∃ qs, d.synthesize bindings as = .ok qs) ↔
      ∀ a ∈ as, ∀ occ ∈ a.ops, ∃ b, d.block bindings a occ 0 = .ok b := by
  constructor
  . rintro ⟨qs, hqs⟩ a ha occ hocc
    obtain ⟨_, _, _, c, _, hc⟩ := (synthesize_eq_ok h hqs).2 a ha (List.ne_nil_of_mem hocc)
    exact exists_chain_iff.mp ⟨c, hc⟩ occ hocc
  . intro hblocks
    rw [synthesize_eq]
    apply exists_mapM_eq_ok
    intro tile _
    apply exists_tileProgram
    intro a ha
    exact hblocks a ((Allocation.mem_channelsOn h).mp ha).1

theorem emits_of_synthesize (h : (as.map Allocation.key).Nodup) {qs : List TileProgram}
    (hqs : d.synthesize bindings as = .ok qs) : d.Emits bindings as qs := by
  rw [synthesize_eq] at hqs
  have hmap : qs.map TileProgram.tile = Ordered.ofList id (as.map fun a => a.key.tile) := by
    have := map_eq_of_mapM_eq_ok (p := id) hqs fun tile q hq => (tileProgram_parts hq).1
    rwa [List.map_id] at this
  constructor
  . have hsorted := Ordered.sorted_ofList id (as.map fun a => a.key.tile)
    rw [← hmap] at hsorted
    exact List.pairwise_map.mp hsorted
  . intro tile
    rw [hmap, Ordered.mem_ofList_id]
  . intro q hq
    obtain ⟨tile, _, hok⟩ := mem_of_mapM_eq_ok hqs hq
    exact tileProgram_programs h hok

/--
What is emitted, or that nothing is, does not depend on the order of the channels. Programs are
emitted if every op on every channel has a block, and then they are those of the channels.
-/
theorem synthesize_emits (h : (as.map Allocation.key).Nodup) :
    (∀ as', as'.Perm as → d.synthesize bindings as' = d.synthesize bindings as) ∧
      ((∃ qs, d.synthesize bindings as = .ok qs) ↔
        ∀ a ∈ as, ∀ occ ∈ a.ops, ∃ b, d.block bindings a occ 0 = .ok b) ∧
      ∀ qs, d.synthesize bindings as = .ok qs → d.Emits bindings as qs := by
  refine ⟨?_, exists_synthesize_iff h, fun qs hqs => emits_of_synthesize h hqs⟩
  intro as' hperm
  unfold synthesize
  rw [Allocation.byTile_eq_of_perm h hperm]

/--
Two tiles with a buffer each. All channels of the first tile share a pair of locks.
-/
def depot : Device :=
  { Device.empty (.gen1 4 4) .binary with
    buffers := [buffer ⟨0, 2⟩, buffer ⟨1, 2⟩]
    pairs := [((0, ⟨⟨0, 2⟩, .inbound, 0⟩), pair ⟨0, 2⟩), ((0, ⟨⟨0, 2⟩, .outbound, 0⟩), pair ⟨0, 2⟩),
      ((1, ⟨⟨1, 2⟩, .inbound, 0⟩), pair ⟨1, 2⟩)] }
where
  buffer (tile : Coord) : BufferKey × Buffer :=
    let key := .tileLocal "near" tile
    (key, ⟨key.symbol, "near", .tileLocal, [16], 4, some tile⟩)
  pair (tile : Coord) : LockPair :=
    ⟨⟨tile, 0⟩, ⟨tile, 0⟩⟩

namespace depot

/--
Three loads and a store, and a channel that has no ops.
-/
def channels : List Allocation :=
  [channel ⟨⟨1, 2⟩, .inbound, 0⟩ [load 3], channel ⟨⟨0, 2⟩, .outbound, 1⟩ [],
    channel ⟨⟨0, 2⟩, .outbound, 0⟩ [store 2], channel ⟨⟨0, 2⟩, .inbound, 0⟩ [load 0, load 1]]
where
  channel (key : ChannelKey) (ops : List Occurrence) : Allocation :=
    ⟨key, .tileLocal, none, ops.map fun occ => occ.op.id, ops⟩
  load (n : Nat) : Occurrence :=
    ⟨n, n, .copy (.whole "far" .external) (.whole "near" .tileLocal), none, none, [], [], none⟩
  store (n : Nat) : Occurrence :=
    ⟨n, n, .copy (.whole "near" .tileLocal) (.whole "far" .external), none, none, [], [], none⟩

def table : Bindings :=
  [((⟨⟨0, 2⟩, .inbound, 0⟩, 0), 0), ((⟨⟨0, 2⟩, .inbound, 0⟩, 1), 0), ((⟨⟨0, 2⟩, .outbound, 0⟩, 2), 0),
    ((⟨⟨1, 2⟩, .inbound, 0⟩, 3), 1)]

end depot

/--
The channels of the first tile come in order, with the two loads in turn, and the one without ops is
left out.
-/
theorem depot_emits : (depot.channels.map Allocation.key).Nodup ∧
    ∃ qs, depot.synthesize depot.table depot.channels.reverse = .ok qs ∧
      depot.Emits depot.table depot.channels qs ∧
      (qs.map fun q => q.chains.map fun c => c.blocks.map fun b => (b.op, b.next)) =
        [[[(0, 1), (1, 0)], [(2, 0)]], [[(3, 0)]]] := by
  have hkeys : (depot.channels.map Allocation.key).Nodup := by decide
  obtain ⟨hperm, _, hemits⟩ := @synthesize_emits depot depot.table depot.channels hkeys
  have hblocks : ∃ qs, depot.synthesize depot.table depot.channels = .ok qs ∧
      (qs.map fun q => q.chains.map fun c => c.blocks.map fun b => (b.op, b.next)) =
        [[[(0, 1), (1, 0)], [(2, 0)]], [[(3, 0)]]] :=
    exists_ok_of_decide (by decide +kernel)
  obtain ⟨qs, hqs, hblocks⟩ := hblocks
  exact ⟨hkeys, qs, (hperm _ (List.reverse_perm _)).trans hqs, hemits qs hqs, hblocks⟩

end Device

end TileTraffic
