import TileTraffic.Proofs.Descriptor.Tiles
import TileTraffic.Proofs.Device.Guards

/-!
Descriptor programs have one block for every op on every channel, in the order in which the ops came
to the channel, and nothing that they look up is missing.
-/

namespace TileTraffic

namespace Access

variable (a : Access) (op : Op) (buffer : Buffer)

theorem isInternal_overflow (quantity : Quantity) :
    (overflow op quantity).isInternal = false := by
  unfold overflow
  rw [Op.isInternal_blame]
  rfl

theorem times_yields (n : Nat) (size : Dim) :
    Yields (transferLength.times a op n size) fun _ => True := by
  unfold transferLength.times
  split
  . split
    . trivial
    . apply Yields.error
      apply isInternal_overflow
  . rfl

theorem transferLength_yields : Yields (a.transferLength op buffer) fun _ => True := by
  unfold transferLength
  split
  . split
    . trivial
    . apply Yields.error
      apply isInternal_overflow
  . apply Yields.foldlM fun _ _ => True
    . trivial
    . intro _ size _ n _
      apply times_yields

theorem effectiveStrides_yields : Yields (a.effectiveStrides op buffer) fun _ => True := by
  unfold effectiveStrides
  dsimp only
  split
  . split
    . apply Yields.error
      apply isInternal_overflow
    . split
      . trivial
      . apply Yields.error
        rw [Op.isInternal_blame]
        rfl
  . split
    . trivial
    . apply Yields.error
      rw [Op.isInternal_blame]
      rfl

theorem sumOffsets_yields (sum : Nat) (dims : List (Dim × Dim)) :
    Yields (a.sumOffsets op sum dims) fun _ => True := by
  induction dims generalizing sum with
  | nil => trivial
  | cons dim dims ih =>
    unfold sumOffsets
    split
    . trivial
    . next heq =>
      obtain ⟨rfl, rfl⟩ := List.cons.inj heq
      split
      . apply ih
      . apply Yields.error
        apply isInternal_overflow
    . split
      . trivial
      . rfl

theorem baseOffset_yields : Yields (a.baseOffset op buffer) fun _ => True := by
  unfold baseOffset
  split
  . trivial
  . apply (effectiveStrides_yields a op buffer).bind
    intro strides _
    apply sumOffsets_yields

end Access

namespace Allocation

/--
The ids of the ops on the channels of a tile.
-/
def idsOn (c : Coord) (as : List Allocation) : List Nat :=
  (as.filter fun a => a.key.tile = c).flatMap Allocation.opIds

end Allocation

namespace TileProgram

/--
The ops of all blocks, chain by chain.
-/
def opIds (p : TileProgram) : List Nat :=
  (p.chains.flatMap Chain.blocks).map Block.op

end TileProgram

namespace Device

variable {d : Device} {bindings : Bindings} {as : List Allocation} {a : Allocation}
  {occ : Occurrence}

theorem bound_yields (h : d.Guarded bindings (workOf as)) (ha : a ∈ as) (hocc : occ ∈ a.ops) :
    Yields (bound bindings a occ) fun n => (d.buffer? n).isSome ∧ (d.pair? n a.key).isSome := by
  have hbound := h.bound (a, occ) (mem_workOf.mpr ⟨ha, hocc⟩)
  obtain ⟨n, hn⟩ := Option.isSome_iff_exists.mp hbound
  dsimp only at hn
  unfold bound
  rw [hn]
  exact h.valid a.key occ.ref n hn

theorem bufferAt_yields {n : Nat} (h : (d.buffer? n).isSome) :
    Yields (d.bufferAt n) fun _ => True := by
  obtain ⟨buffer, hbuffer⟩ := Option.isSome_iff_exists.mp h
  unfold bufferAt
  rw [hbuffer]
  trivial

theorem block_yields (h : d.Guarded bindings (workOf as)) (ha : a ∈ as) (hocc : occ ∈ a.ops)
    {direction : Direction} (hd : occ.op.directionAt a.level = .ok direction) (next : Nat) :
    Yields (d.block bindings a occ next) fun b => b.op = occ.op.id := by
  obtain ⟨access, _, haccess, _⟩ := Op.accessAt?_of_directionAt hd
  unfold block
  rw [haccess]
  apply (bound_yields h ha hocc).bind
  intro n ⟨hbuffer, hpair⟩
  apply (bufferAt_yields hbuffer).bind
  intro buffer _
  obtain ⟨pair, hpair⟩ := Option.isSome_iff_exists.mp hpair
  rw [hpair]
  apply (access.baseOffset_yields occ.op buffer).bind
  intro offset _
  apply (access.transferLength_yields occ.op buffer).bind
  intro length _
  apply Yields.pure
  rfl

/--
All ops of the channels have a side at the level of the channel.
-/
def Sided (as : List Allocation) : Prop :=
  ∀ a ∈ as, ∀ occ ∈ a.ops, ∃ direction, occ.op.directionAt a.level = .ok direction

theorem chain_yields (h : d.Guarded bindings (workOf as)) (hs : Sided as) (ha : a ∈ as) :
    Yields (d.chain bindings a) fun c => c.blocks.map Block.op = a.ops.map fun o => o.op.id := by
  unfold chain
  apply Yields.bind
  . apply Yields.mapM fun done bs => bs.map Block.op = done.map fun x => x.1.op.id
    . rfl
    . intro done bs ⟨occ, i⟩ hmem hdone
      have hocc : occ ∈ a.ops := List.fst_mem_of_mem_zipIdx hmem
      have hpos : 0 < a.ops.length := List.length_pos_of_mem hocc
      obtain ⟨direction, hd⟩ := hs a ha occ hocc
      apply (remainder_yields hpos).bind
      intro next _
      apply (block_yields h ha hocc hd next).mono
      intro b hb
      simp [hdone, hb]
  intro blocks hblocks
  apply Yields.pure
  show blocks.map Block.op = _
  have hzip : a.ops.map (fun o => o.op.id) = (a.ops.zipIdx.map Prod.fst).map fun o => o.op.id := by
    rw [List.zipIdx_map_fst]
  rw [hblocks, hzip, List.map_map]
  rfl

theorem flatMap_filter_ops (as : List Allocation) :
    (as.filter fun a => !a.ops.isEmpty).flatMap (fun a => a.ops.map fun o => o.op.id) =
      as.flatMap fun a => a.ops.map fun o => o.op.id := by
  induction as with
  | nil => rfl
  | cons a as ih =>
    rw [List.filter_cons]
    split
    . rw [List.flatMap_cons, List.flatMap_cons, ih]
    . next hempty =>
      have hnil : a.ops = [] := by simpa using hempty
      rw [List.flatMap_cons, hnil, ih]
      rfl

theorem tileProgram_yields (h : d.Guarded bindings (workOf as)) (hs : Sided as)
    (hnodup : (as.map Allocation.key).Nodup)
    (hids : ∀ a ∈ as, a.opIds = a.ops.map fun o => o.op.id) (tile : Coord) :
    Yields (d.tileProgram bindings tile (Allocation.channelsOn tile as)) fun p =>
      p.tile = tile ∧ p.opIds.Perm (Allocation.idsOn tile as) := by
  unfold tileProgram
  have hperm := Allocation.channelsOn_perm hnodup tile
  have hmem : ∀ a ∈ Allocation.channelsOn tile as, a ∈ as := fun a ha =>
    ((Allocation.mem_channelsOn hnodup).mp ha).1
  apply Yields.bind
  . apply Yields.mapM fun done cs =>
      (cs.flatMap Chain.blocks).map Block.op = done.flatMap fun a => a.ops.map fun o => o.op.id
    . rfl
    . intro done cs a ha hdone
      have ha' := hmem a (List.mem_filter.mp ha).1
      apply (chain_yields h hs ha').mono
      intro c hc
      simp only [List.flatMap_append, List.map_append, hdone, List.flatMap_cons, hc,
        List.flatMap_nil, List.append_nil]
  intro chains hchains
  apply Yields.pure
  refine ⟨rfl, ?_⟩
  show ((chains.flatMap Chain.blocks).map Block.op).Perm _
  rw [hchains, flatMap_filter_ops]
  have hsame : Allocation.idsOn tile as =
      (as.filter fun a => a.key.tile = tile).flatMap fun a => a.ops.map fun o => o.op.id := by
    unfold Allocation.idsOn
    rw [List.flatMap_def, List.flatMap_def]
    congr 1
    apply List.map_congr_left
    intro a ha
    exact hids a (List.mem_filter.mp ha).1
  rw [hsame]
  exact hperm.flatMap_right _

theorem filter_tile_of_nodup {ps : List TileProgram} (h : (ps.map TileProgram.tile).Nodup)
    {p : TileProgram} (hp : p ∈ ps) : (ps.filter fun q => q.tile = p.tile) = [p] := by
  induction ps with
  | nil => simp at hp
  | cons q ps ih =>
    rw [List.map_cons, List.nodup_cons] at h
    rw [List.filter_cons]
    rcases List.mem_cons.mp hp with rfl | hp
    . have hnone : (ps.filter fun q => q.tile = p.tile) = [] := by
        rw [List.filter_eq_nil_iff]
        intro q hq
        simp only [decide_eq_true_eq]
        intro heq
        apply h.1
        rw [← heq]
        exact List.mem_map_of_mem hq
      rw [hnone]
      simp
    . have hne : q.tile ≠ p.tile := by
        intro heq
        apply h.1
        rw [heq]
        exact List.mem_map_of_mem hp
      rw [if_neg (by simpa using hne)]
      exact ih h.2 hp

/--
The ops of all blocks that are emitted for a tile.
-/
def blockIdsOn (c : Coord) (ps : List TileProgram) : List Nat :=
  (ps.filter fun p => p.tile = c).flatMap TileProgram.opIds

/--
On every tile, the blocks that are emitted are those of the ops on the channels of the tile.
-/
theorem synthesize_yields (h : d.Guarded bindings (workOf as)) (hs : Sided as)
    (hnodup : (as.map Allocation.key).Nodup)
    (hids : ∀ a ∈ as, a.opIds = a.ops.map fun o => o.op.id) :
    Yields (d.synthesize bindings as) fun ps =>
      ∀ c, (blockIdsOn c ps).Perm (Allocation.idsOn c as) := by
  have hsorted := Ordered.sorted_ofList id (as.map fun a => a.key.tile)
  have hmem : ∀ c, c ∈ Ordered.ofList id (as.map fun a => a.key.tile) ↔
      c ∈ as.map fun a => a.key.tile := fun _ => Ordered.mem_ofList_id
  rw [synthesize_eq]
  generalize Ordered.ofList id (as.map fun a => a.key.tile) = tiles at hsorted hmem ⊢
  apply Yields.mono
  . apply Yields.mapM fun done ps => ps.map TileProgram.tile = done ∧
      ∀ p ∈ ps, p.opIds.Perm (Allocation.idsOn p.tile as)
    . simp
    . intro done ps tile _ ⟨hmap, hps⟩
      apply (tileProgram_yields h hs hnodup hids tile).mono
      intro p ⟨htile, hp⟩
      refine ⟨by simp [hmap, htile], ?_⟩
      intro q hq
      rcases List.mem_append.mp hq with hq | hq
      . exact hps q hq
      . rw [List.mem_singleton.mp hq, htile]
        exact hp
  . intro ps ⟨hmap, hps⟩ c
    have hdistinct : (ps.map TileProgram.tile).Nodup := by
      rw [hmap]
      simpa using hsorted.nodup
    unfold blockIdsOn
    by_cases hc : c ∈ ps.map TileProgram.tile
    . obtain ⟨p, hp, rfl⟩ := List.mem_map.mp hc
      rw [filter_tile_of_nodup hdistinct hp]
      simpa using hps p hp
    . -- no program, and no channel either
      have hnone : (ps.filter fun p => p.tile = c) = [] := by
        rw [List.filter_eq_nil_iff]
        intro p hp
        simp only [decide_eq_true_eq]
        intro heq
        exact hc (heq ▸ List.mem_map_of_mem hp)
      have hempty : (as.filter fun a => a.key.tile = c) = [] := by
        rw [List.filter_eq_nil_iff]
        intro a ha
        simp only [decide_eq_true_eq]
        intro heq
        apply hc
        rw [hmap]
        exact (hmem c).mpr (List.mem_map.mpr ⟨a, ha, heq⟩)
      rw [hnone]
      unfold Allocation.idsOn
      rw [hempty]
      exact .nil

theorem coreUse?_yields (h : d.Guarded bindings (workOf as)) (ha : a ∈ as) (hocc : occ ∈ a.ops) :
    Yields (d.coreUse? bindings a occ) fun _ => True := by
  unfold coreUse?
  apply (bound_yields h ha hocc).bind
  intro n ⟨hbuffer, hpair⟩
  split
  . apply Yields.pure
    trivial
  . apply (bufferAt_yields hbuffer).bind
    intro _ _
    apply Yields.pure
    trivial

theorem corePrograms_yields (h : d.Guarded bindings (workOf as)) :
    Yields (d.corePrograms bindings as) fun _ => True := by
  unfold corePrograms coreUses
  apply Yields.bind (P := fun _ => True)
  . apply Yields.bind (P := fun _ => True)
    . apply Yields.mapM fun _ _ => True
      . trivial
      . intro _ _ a ha _
        have ha' := (List.mem_filter.mp ha).1
        apply Yields.mapM fun _ _ => True
        . trivial
        . intro _ _ occ hocc _
          exact coreUse?_yields h ha' hocc
    . intro _ _
      apply Yields.pure
      trivial
  . intro _ _
    apply Yields.pure
    trivial

end Device

end TileTraffic
