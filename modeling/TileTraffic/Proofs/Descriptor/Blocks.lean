import TileTraffic.Proofs.Descriptor.Chain
import TileTraffic.Proofs.Success

/-!
Where blocks and core uses come from. A block of a program is the block of an op on the channel of
its chain, every op on a channel has one, and a core uses what the ops on its channels are bound to.
-/

namespace TileTraffic

namespace Device

variable {d : Device} {bindings : Bindings} {as : List Allocation} {a : Allocation}
  {occ : Occurrence}

/--
The buffer that an op is bound to on a channel, and the lock pair of the buffer there.
-/
structure Finds (d : Device) (bindings : Bindings) (a : Allocation) (occ : Occurrence) (n : Nat)
    (buffer : Buffer) (pair : LockPair) : Prop where
  bound : bindings.lookup (a.key, occ.ref) = some n
  buffer_eq : d.buffer? n = some buffer
  pair_eq : d.pair? n a.key = some pair

theorem bound_eq_ok {n : Nat} (h : bound bindings a occ = .ok n) :
    bindings.lookup (a.key, occ.ref) = some n := by
  unfold bound at h
  split at h
  . next heq =>
    obtain rfl := Except.ok.inj h
    exact heq
  . cases h

theorem bufferAt_eq_ok {n : Nat} {buffer : Buffer} (h : d.bufferAt n = .ok buffer) :
    d.buffer? n = some buffer := by
  unfold bufferAt at h
  split at h
  . next heq =>
    obtain rfl := Except.ok.inj h
    exact heq
  . cases h

theorem block_eq_ok {next : Nat} {b : Block} (h : d.block bindings a occ next = .ok b) :
    b.op = occ.op.id ∧ b.next = next ∧ ∃ n buffer pair, d.Finds bindings a occ n buffer pair ∧
      b.descriptor.buffer = buffer.symbol ∧ b.guard = d.policy.dmaGuard pair a.key.direction ∧
      ∃ access, occ.op.accessAt? a.level = some access ∧
        access.baseOffset occ.op buffer = .ok b.descriptor.offset ∧
        access.transferLength occ.op buffer = .ok b.descriptor.length := by
  unfold block at h
  split at h
  . cases h
  . next access haccess =>
    obtain ⟨n, hn, h⟩ := bind_eq_ok h
    obtain ⟨buffer, hbuffer, h⟩ := bind_eq_ok h
    split at h
    . cases h
    . next pair hpair =>
      obtain ⟨offset, hoffset, h⟩ := bind_eq_ok h
      obtain ⟨length, hlength, h⟩ := bind_eq_ok h
      obtain rfl := Except.ok.inj h
      exact ⟨rfl, rfl, n, buffer, pair, ⟨bound_eq_ok hn, bufferAt_eq_ok hbuffer, hpair⟩, rfl, rfl,
        access, haccess, hoffset, hlength⟩

/--
The blocks of a chain are those of the ops on the channel, each followed by the next one and the
last by the first.
-/
theorem chain_eq_ok {c : Chain} (h : d.chain bindings a = .ok c) :
    c.direction = a.key.direction ∧ c.channel = a.key.id ∧
      (∀ b ∈ c.blocks, ∃ occ ∈ a.ops, ∃ i < a.ops.length,
        d.block bindings a occ ((i + 1) % a.ops.length) = .ok b) ∧
      ∀ occ ∈ a.ops, ∃ b ∈ c.blocks, ∃ next, d.block bindings a occ next = .ok b := by
  unfold chain at h
  obtain ⟨blocks, hblocks, h⟩ := bind_eq_ok h
  obtain rfl := Except.ok.inj h
  refine ⟨rfl, rfl, ?_, ?_⟩
  . intro b hb
    obtain ⟨⟨occ, i⟩, hmem, hok⟩ := mem_of_mapM_eq_ok hblocks hb
    obtain ⟨next, hnext, hok⟩ := bind_eq_ok hok
    rw [remainder_eq_ok hnext] at hok
    rw [List.mk_mem_zipIdx_iff_getElem?] at hmem
    exact ⟨occ, List.mem_of_getElem? hmem, i, (List.getElem?_eq_some_iff.mp hmem).1, hok⟩
  . intro occ hocc
    obtain ⟨i, hi⟩ := List.getElem?_of_mem hocc
    have hmem : (occ, i) ∈ a.ops.zipIdx := by
      rw [List.mk_mem_zipIdx_iff_getElem?]
      exact hi
    obtain ⟨b, hb, hok⟩ := exists_of_mapM_eq_ok hblocks hmem
    obtain ⟨next, _, hok⟩ := bind_eq_ok hok
    exact ⟨b, hb, next, hok⟩

/--
The blocks of a chain are in the order of the ops on the channel.
-/
theorem map_op_of_chain_eq_ok {c : Chain} (h : d.chain bindings a = .ok c) :
    c.blocks.map Block.op = a.ops.map fun occ => occ.op.id := by
  unfold chain at h
  obtain ⟨blocks, hblocks, h⟩ := bind_eq_ok h
  obtain rfl := Except.ok.inj h
  have hops : blocks.map Block.op = a.ops.zipIdx.map fun x => x.1.op.id := by
    apply map_eq_of_mapM_eq_ok hblocks
    intro x b hb
    obtain ⟨next, _, hb⟩ := bind_eq_ok hb
    exact (block_eq_ok hb).1
  have hfst : (a.ops.zipIdx.map fun x => x.1.op.id) =
      (a.ops.zipIdx.map Prod.fst).map fun occ => occ.op.id := by
    rw [List.map_map]
    rfl
  rw [hops, hfst, List.zipIdx_map_fst]

/--
The parts of the program of a tile: its chains are those of the channels that have ops, and its
dispatcher goes through them.
-/
theorem tileProgram_parts {tile : Coord} {channels : List Allocation} {q : TileProgram}
    (h : d.tileProgram bindings tile channels = .ok q) :
    q.tile = tile ∧ q.role = d.target.roleOfRow tile.row ∧ q.entries = dispatch q.chains ∧
      (channels.filter fun a => !a.ops.isEmpty).mapM (d.chain bindings) = .ok q.chains := by
  unfold tileProgram at h
  obtain ⟨cs, hcs, h⟩ := bind_eq_ok h
  obtain rfl := Except.ok.inj h
  exact ⟨rfl, rfl, rfl, hcs⟩

theorem tileProgram_eq_ok (hnodup : (as.map Allocation.key).Nodup) {tile : Coord} {q : TileProgram}
    (h : d.tileProgram bindings tile (Allocation.channelsOn tile as) = .ok q) :
    q.tile = tile ∧
      (∀ c ∈ q.chains, ∃ a ∈ as, a.key.tile = tile ∧ a.ops ≠ [] ∧ d.chain bindings a = .ok c) ∧
      ∀ a ∈ as, a.key.tile = tile → a.ops ≠ [] →
        ∃ c ∈ q.chains, d.chain bindings a = .ok c := by
  obtain ⟨htile, _, _, hchains⟩ := tileProgram_parts h
  refine ⟨htile, ?_, ?_⟩
  . intro c hc
    obtain ⟨a, ha, hok⟩ := mem_of_mapM_eq_ok hchains hc
    obtain ⟨ha, hne⟩ := List.mem_filter.mp ha
    obtain ⟨ha, hon⟩ := (Allocation.mem_channelsOn hnodup).mp ha
    exact ⟨a, ha, hon, by simpa using hne, hok⟩
  . intro a ha hon hne
    apply exists_of_mapM_eq_ok hchains
    rw [List.mem_filter, Allocation.mem_channelsOn hnodup]
    exact ⟨⟨ha, hon⟩, by simpa using hne⟩

/--
The chains of a program are those of its channels, and every channel with ops has one.
-/
theorem synthesize_eq_ok (hnodup : (as.map Allocation.key).Nodup) {ps : List TileProgram}
    (h : d.synthesize bindings as = .ok ps) :
    (∀ q ∈ ps, ∀ c ∈ q.chains, ∃ a ∈ as, a.key.tile = q.tile ∧ d.chain bindings a = .ok c) ∧
      ∀ a ∈ as, a.ops ≠ [] →
        ∃ q ∈ ps, q.tile = a.key.tile ∧ ∃ c ∈ q.chains, d.chain bindings a = .ok c := by
  rw [synthesize_eq] at h
  constructor
  . intro q hq c hc
    obtain ⟨tile, _, hok⟩ := mem_of_mapM_eq_ok h hq
    obtain ⟨htile, hchains, _⟩ := tileProgram_eq_ok hnodup hok
    obtain ⟨a, ha, hon, _, hchain⟩ := hchains c hc
    exact ⟨a, ha, hon.trans htile.symm, hchain⟩
  . intro a ha hne
    have htile : a.key.tile ∈ Ordered.ofList id (as.map fun a => a.key.tile) := by
      rw [Ordered.mem_ofList_id]
      exact List.mem_map_of_mem ha
    obtain ⟨q, hq, hok⟩ := exists_of_mapM_eq_ok h htile
    obtain ⟨hqtile, _, hchains⟩ := tileProgram_eq_ok hnodup hok
    exact ⟨q, hq, hqtile, hchains a ha rfl hne⟩

theorem coreUse?_eq_ok {u : CoreUse} (h : d.coreUse? bindings a occ = .ok (some u)) :
    u.op = occ.op.id ∧ u.channel = a.key ∧ ∃ n buffer pair,
      d.Finds bindings a occ n buffer pair ∧ u.buffer = buffer.symbol ∧
        u.guard = d.policy.coreGuard pair a.key.direction := by
  unfold coreUse? at h
  obtain ⟨n, hn, h⟩ := bind_eq_ok h
  split at h
  . cases h
  . next pair hpair =>
    obtain ⟨buffer, hbuffer, h⟩ := bind_eq_ok h
    obtain rfl := Option.some.inj (Except.ok.inj h)
    exact ⟨rfl, rfl, n, buffer, pair, ⟨bound_eq_ok hn, bufferAt_eq_ok hbuffer, hpair⟩, rfl, rfl⟩

/--
The uses by cores are those of ops on tile-local channels, each by the core of the tile.
-/
theorem corePrograms_eq_ok {cores : List CoreProgram}
    (h : d.corePrograms bindings as = .ok cores) :
    ∀ c ∈ cores, ∀ u ∈ c.uses, u.channel.tile = c.tile ∧
      ∃ a ∈ as, a.level = .tileLocal ∧ ∃ occ ∈ a.ops,
        d.coreUse? bindings a occ = .ok (some u) := by
  unfold corePrograms at h
  obtain ⟨uses, huses, h⟩ := bind_eq_ok h
  obtain rfl := Except.ok.inj h
  unfold coreUses at huses
  dsimp only at huses
  obtain ⟨found, hfound, huses⟩ := bind_eq_ok huses
  obtain rfl := Except.ok.inj huses
  intro c hc u hu
  obtain ⟨tile, _, rfl⟩ := List.mem_map.mp hc
  obtain ⟨hmem, htile⟩ := List.mem_filter.mp hu
  refine ⟨by simpa using htile, ?_⟩
  obtain ⟨_, hmem, rfl⟩ := List.mem_filterMap.mp hmem
  obtain ⟨us, hus, hmem⟩ := List.mem_flatten.mp hmem
  obtain ⟨a, ha, hok⟩ := mem_of_mapM_eq_ok hfound hus
  obtain ⟨ha, hlevel⟩ := List.mem_filter.mp ha
  obtain ⟨occ, hocc, huse⟩ := mem_of_mapM_eq_ok hok hmem
  exact ⟨a, ha, by simpa using hlevel, occ, hocc, huse⟩

end Device

end TileTraffic
