import TileTraffic.Proofs.Descriptor.Blocks
import TileTraffic.Proofs.Program.Stages

/-!
The locks of a program: blocks share locks if they fill or drain the same buffer on the same
channel, and have nothing to do with each other otherwise. No lock is left over.
-/

namespace TileTraffic

namespace Guard

/--
The locks that are taken and released.
-/
def locks (g : Guard) : List LockRef :=
  [g.acquire.lock, g.release.lock]

end Guard

namespace LockPair

def locks (pair : LockPair) : List LockRef :=
  [pair.read, pair.write]

end LockPair

namespace LockPolicy

/--
Number of locks that guard a slot.
-/
def locksPerSlot : LockPolicy → Nat
  | .binary => 1
  | .counting => 2

variable (p : LockPolicy) (pair : LockPair)

theorem length_locksOf : (p.locksOf pair).length = p.locksPerSlot := by
  cases p <;> rfl

/--
Whatever the direction, a transfer takes one lock of the pair and releases the other.
-/
theorem dmaGuard_locks (d : Direction) :
    (p.dmaGuard pair d).locks = [pair.write, pair.read] ∨
      (p.dmaGuard pair d).locks = [pair.read, pair.write] := by
  cases d
  . exact .inl rfl
  . exact .inr rfl

theorem mem_dmaGuard_locks {d : Direction} {l : LockRef} :
    l ∈ (p.dmaGuard pair d).locks ↔ l ∈ pair.locks := by
  rcases p.dmaGuard_locks pair d with h | h
  . rw [h]
    simp [LockPair.locks, or_comm]
  . rw [h]
    rfl

theorem mem_locksOf {p : LockPolicy} {pair : LockPair} (h : p = .binary → pair.read = pair.write)
    {l : LockRef} : l ∈ (p.locksOf pair).map Lock.ref ↔ l ∈ pair.locks := by
  cases p with
  | binary => simp [locksOf, LockPair.locks, Lock.ref, ← h rfl]
  | counting => simp [locksOf, LockPair.locks, Lock.ref]

end LockPolicy

namespace Program

/--
All blocks of a program, with the slots that they fill or drain.
-/
def blocks (p : Program) : List (Slot × Block) :=
  p.tiles.flatMap fun q => q.chains.flatMap fun c =>
    c.blocks.map fun b => (⟨⟨q.tile, c.direction, c.channel⟩, b.descriptor.buffer⟩, b)

theorem mem_blocks {p : Program} {x : Slot × Block} :
    x ∈ p.blocks ↔ ∃ q ∈ p.tiles, ∃ c ∈ q.chains, x.2 ∈ c.blocks ∧
      x.1 = ⟨⟨q.tile, c.direction, c.channel⟩, x.2.descriptor.buffer⟩ := by
  obtain ⟨slot, b⟩ := x
  unfold blocks
  simp only [List.mem_flatMap, List.mem_map, Prod.mk.injEq]
  constructor
  . rintro ⟨q, hq, c, hc, b', hb, rfl, rfl⟩
    exact ⟨q, hq, c, hc, hb, rfl⟩
  . rintro ⟨q, hq, c, hc, hb, rfl⟩
    exact ⟨q, hq, c, hc, b, hb, rfl, rfl⟩

/--
How the slots of a program are guarded: each has a pair of locks on its own tile, no lock is in two
pairs, and blocks and cores go by the pairs of their slots.
-/
structure Guarding (p : Program) (policy : LockPolicy) (slots : List (Slot × LockPair)) :
    Prop where
  slots_nodup : (slots.map Prod.fst).Nodup
  locks_eq : p.locks = slots.flatMap fun x => policy.locksOf x.2
  locks_nodup : (p.locks.map Lock.ref).Nodup
  sits : ∀ x ∈ slots, x.2.read.tile = x.1.channel.tile ∧ x.2.write.tile = x.1.channel.tile
  merged : policy = .binary → ∀ x ∈ slots, x.2.read = x.2.write
  block : ∀ x ∈ p.blocks, ∃ pair, (x.1, pair) ∈ slots ∧
    x.2.guard = policy.dmaGuard pair x.1.channel.direction
  use : ∀ c ∈ p.cores, ∀ u ∈ c.uses, u.channel.tile = c.tile ∧
    ∃ pair, (⟨u.channel, u.buffer⟩, pair) ∈ slots ∧
      u.guard = policy.coreGuard pair u.channel.direction
  used : ∀ x ∈ slots, ∃ y ∈ p.blocks, y.1 = x.1

/--
What is to be said of the locks of a program without naming pairs.
-/
structure LocksApart (p : Program) (policy : LockPolicy) : Prop where
  same : ∀ x ∈ p.blocks, ∀ y ∈ p.blocks, x.1 = y.1 →
    ∀ l, l ∈ x.2.guard.locks ↔ l ∈ y.2.guard.locks
  apart : ∀ x ∈ p.blocks, ∀ y ∈ p.blocks, x.1 ≠ y.1 → ∀ l ∈ x.2.guard.locks, l ∉ y.2.guard.locks
  sits : ∀ x ∈ p.blocks, ∀ l ∈ x.2.guard.locks, l.tile = x.1.channel.tile
  mem_locks : ∀ x ∈ p.blocks, ∀ l ∈ x.2.guard.locks, l ∈ p.locks.map Lock.ref
  merged_iff : ∀ x ∈ p.blocks, x.2.guard.acquire.lock = x.2.guard.release.lock ↔ policy = .binary
  locks_nodup : (p.locks.map Lock.ref).Nodup
  used : ∀ l ∈ p.locks.map Lock.ref, ∃ x ∈ p.blocks, l ∈ x.2.guard.locks
  length_eq : p.locks.length = policy.locksPerSlot * (p.blocks.map Prod.fst).eraseDups.length

namespace Guarding

variable {p : Program} {policy : LockPolicy} {slots : List (Slot × LockPair)} {x : Slot × Block}

theorem mem_locks (h : p.Guarding policy slots) {l : LockRef} :
    l ∈ p.locks.map Lock.ref ↔ ∃ x ∈ slots, l ∈ x.2.locks := by
  rw [h.locks_eq, List.map_flatMap, List.mem_flatMap]
  constructor
  . intro ⟨x, hx, hl⟩
    exact ⟨x, hx, (LockPolicy.mem_locksOf fun hp => h.merged hp x hx).mp hl⟩
  . intro ⟨x, hx, hl⟩
    exact ⟨x, hx, (LockPolicy.mem_locksOf fun hp => h.merged hp x hx).mpr hl⟩

/--
No lock is in two pairs.
-/
theorem slot_unique (h : p.Guarding policy slots) {x y : Slot × LockPair} (hx : x ∈ slots)
    (hy : y ∈ slots) {l : LockRef} (hlx : l ∈ x.2.locks) (hly : l ∈ y.2.locks) : x = y := by
  have hnodup := h.locks_nodup
  rw [h.locks_eq, List.map_flatMap] at hnodup
  apply eq_of_nodup_flatMap hnodup hx hy (x := l)
  . exact (LockPolicy.mem_locksOf fun hp => h.merged hp x hx).mpr hlx
  . exact (LockPolicy.mem_locksOf fun hp => h.merged hp y hy).mpr hly

/--
The locks of a block are those of the pair of its slot.
-/
theorem exists_pair (h : p.Guarding policy slots) (hx : x ∈ p.blocks) :
    ∃ pair, (x.1, pair) ∈ slots ∧ ∀ l, l ∈ x.2.guard.locks ↔ l ∈ pair.locks := by
  obtain ⟨pair, hpair, hguard⟩ := h.block x hx
  refine ⟨pair, hpair, ?_⟩
  intro l
  rw [hguard]
  exact policy.mem_dmaGuard_locks pair

theorem read_eq_write_iff (h : p.Guarding policy slots) {x : Slot × LockPair} (hx : x ∈ slots) :
    x.2.read = x.2.write ↔ policy = .binary := by
  constructor
  . intro heq
    cases policy with
    | binary => rfl
    | counting =>
      -- the two locks of a counting pair are listed one after the other
      have hnodup := h.locks_nodup
      rw [h.locks_eq, List.map_flatMap, List.Nodup, List.pairwise_flatMap] at hnodup
      have hpair := hnodup.1 x hx
      simp [LockPolicy.locksOf, Lock.ref, heq] at hpair
  . intro hpolicy
    exact h.merged hpolicy x hx

theorem length_eraseDups_slots (h : p.Guarding policy slots) :
    (p.blocks.map Prod.fst).eraseDups.length = slots.length := by
  have hlength : (slots.map Prod.fst).length = slots.length := List.length_map _
  rw [← hlength]
  apply List.Perm.length_eq
  rw [List.perm_ext_iff_of_nodup (nodup_eraseDups _) h.slots_nodup]
  intro slot
  rw [List.mem_eraseDups, List.mem_map, List.mem_map]
  constructor
  . rintro ⟨x, hx, rfl⟩
    obtain ⟨pair, hpair, _⟩ := h.block x hx
    exact ⟨_, hpair, rfl⟩
  . rintro ⟨x, hx, rfl⟩
    exact h.used x hx

theorem length_locks (h : p.Guarding policy slots) :
    p.locks.length = policy.locksPerSlot * slots.length := by
  rw [h.locks_eq]
  clear h
  induction slots with
  | nil => rfl
  | cons x slots ih =>
    rw [List.flatMap_cons, List.length_append, ih, policy.length_locksOf, List.length_cons,
      Nat.mul_add, Nat.mul_one, Nat.add_comm]

theorem locksApart (h : p.Guarding policy slots) : p.LocksApart policy where
  same := by
    intro x hx y hy heq l
    obtain ⟨pair, hpair, hlocks⟩ := h.exists_pair hx
    obtain ⟨pair', hpair', hlocks'⟩ := h.exists_pair hy
    have hsame : (x.1, pair) = (y.1, pair') := eq_of_nodup_map h.slots_nodup hpair hpair' heq
    rw [hlocks, hlocks', (Prod.mk.inj hsame).2]
  apart := by
    intro x hx y hy hne l hl hl'
    obtain ⟨pair, hpair, hlocks⟩ := h.exists_pair hx
    obtain ⟨pair', hpair', hlocks'⟩ := h.exists_pair hy
    have hsame := h.slot_unique hpair hpair' ((hlocks l).mp hl) ((hlocks' l).mp hl')
    exact hne (Prod.mk.inj hsame).1
  sits := by
    intro x hx l hl
    obtain ⟨pair, hpair, hlocks⟩ := h.exists_pair hx
    obtain ⟨hread, hwrite⟩ := h.sits _ hpair
    have hmem := (hlocks l).mp hl
    simp only [LockPair.locks, List.mem_cons, List.not_mem_nil, or_false] at hmem
    rcases hmem with rfl | rfl
    . exact hread
    . exact hwrite
  mem_locks := by
    intro x hx l hl
    obtain ⟨pair, hpair, hlocks⟩ := h.exists_pair hx
    exact h.mem_locks.mpr ⟨_, hpair, (hlocks l).mp hl⟩
  merged_iff := by
    intro x hx
    obtain ⟨pair, hpair, hguard⟩ := h.block x hx
    have hpolicy := h.read_eq_write_iff hpair
    rw [hguard]
    cases x.1.channel.direction with
    | inbound => exact eq_comm.trans hpolicy
    | outbound => exact hpolicy
  locks_nodup := h.locks_nodup
  used := by
    intro l hl
    obtain ⟨x, hx, hl⟩ := h.mem_locks.mp hl
    obtain ⟨y, hy, heq⟩ := h.used x hx
    obtain ⟨pair, hpair, hlocks⟩ := h.exists_pair hy
    have hsame : (y.1, pair) = x := eq_of_nodup_map h.slots_nodup hpair hx heq
    refine ⟨y, hy, (hlocks l).mpr ?_⟩
    rw [← hsame] at hl
    exact hl
  length_eq := by
    rw [h.length_locks, h.length_eraseDups_slots]

end Guarding

end Program

/--
The lock pair of an op on a channel is that of the slot in which the channel has the buffer.
-/
theorem Device.Finds.mem_slots {d : Device} {bindings : Bindings} {a : Allocation}
    {occ : Occurrence} {n : Nat} {buffer : Buffer} {pair : LockPair}
    (h : d.Finds bindings a occ n buffer pair) : (⟨a.key, buffer.symbol⟩, pair) ∈ d.slots := by
  rw [← Device.symbolAt_eq h.buffer_eq]
  exact List.mem_map_of_mem (Device.mem_pairs_of_pair? h.pair_eq)

namespace Built

variable {g : Graph} {t : Target} {p : Program} {bs : List Bundle} {d d' : Device} {a : Assignment}
  {bindings : Bindings}

/--
An op is bound to the buffer that it accesses.
-/
theorem holds (h : Built g t p bs d a) (he : Emitted t p d' bindings) {y : Allocation}
    (hy : y ∈ p.channels) {occ : Occurrence} (hocc : occ ∈ y.ops) {n : Nat}
    (hn : bindings.lookup (y.key, occ.ref) = some n) : d'.Holds y occ n := by
  have hmem : ((y.key, occ.ref), n) ∈ bindings := by
    obtain ⟨before, after, heq, _⟩ := List.lookup_eq_some_iff.mp hn
    rw [heq]
    simp
  obtain ⟨occ', hocc', href, hholds⟩ := he.wired.holds h.keys_nodup hy hmem
  obtain rfl := Graph.eq_of_ref_eq (h.mem_occurrences hy hocc') (h.mem_occurrences hy hocc) href
  exact hholds

/--
A block is that of an op, on the channel of its slot.
-/
theorem exists_op_of_mem_blocks (h : Built g t p bs d a) (he : Emitted t p d' bindings)
    {x : Slot × Block} (hx : x ∈ p.blocks) : ∃ y ∈ p.channels,
      x.1 = ⟨y.key, x.2.descriptor.buffer⟩ ∧ ∃ occ ∈ y.ops, ∃ next,
        d'.block bindings y occ next = .ok x.2 := by
  obtain ⟨q, hq, c, hc, hb, hslot⟩ := Program.mem_blocks.mp hx
  obtain ⟨y, hy, htile, hchain⟩ := (Device.synthesize_eq_ok h.keys_nodup he.tiles_eq).1 q hq c hc
  obtain ⟨hdirection, hchannel, hblocks, _⟩ := Device.chain_eq_ok hchain
  obtain ⟨occ, hocc, i, _, hblock⟩ := hblocks _ hb
  refine ⟨y, hy, ?_, occ, hocc, _, hblock⟩
  rw [hslot, ← htile, hdirection, hchannel]

/--
A pair of locks is there for some block, on the channel of the pair and for its buffer.
-/
theorem exists_block (h : Built g t p bs d a) (he : Emitted t p d' bindings)
    {x : (Nat × ChannelKey) × LockPair} (hx : x ∈ d'.pairs) :
    ∃ y ∈ p.blocks, y.1 = d'.slotAt x.1.1 x.1.2 := by
  obtain ⟨y, hy, hkey, occ, hocc, hbound, hholds⟩ := he.wired.exists_op hx
  obtain ⟨_, hchains⟩ := Device.synthesize_eq_ok h.keys_nodup he.tiles_eq
  obtain ⟨q, hq, htile, c, hc, hchain⟩ := hchains y hy (h.ops_ne hy)
  obtain ⟨hdirection, hchannel, _, hblocks⟩ := Device.chain_eq_ok hchain
  obtain ⟨b, hb, next, hblock⟩ := hblocks occ hocc
  obtain ⟨_, _, n, buffer, pair, hfinds, hsymbol, _⟩ := Device.block_eq_ok hblock
  -- the block goes by the latest binding, which is to the same buffer as any other
  have hindex := hholds.unique (h.holds he hy hocc hfinds.bound) he.wired.interned
  refine ⟨(⟨⟨q.tile, c.direction, c.channel⟩, b.descriptor.buffer⟩, b),
    Program.mem_blocks.mpr ⟨q, hq, c, hc, hb, rfl⟩, ?_⟩
  unfold Device.slotAt
  rw [hsymbol, ← Device.symbolAt_eq hfinds.buffer_eq, ← hindex, ← hkey, htile, hdirection, hchannel]

theorem guarding (h : Built g t p bs d a) (he : Emitted t p d' bindings) :
    p.Guarding t.lockPolicy d'.slots where
  slots_nodup := he.wired.slots_nodup h.keys_nodup
  locks_eq := by
    rw [he.locks_eq, he.wired.stocked.locks_eq, he.policy_eq]
    unfold Device.slots
    rw [List.flatMap_map]
  locks_nodup := by
    have hnodup := nodup_map_of_filter h.lock_ids_nodup
    apply nodup_map_of_imp hnodup
    intro l _ l' _ heq
    obtain ⟨htile, hid⟩ := LockRef.mk.inj heq
    rw [htile, hid]
  sits := by
    intro x hx
    obtain ⟨y, hy, rfl⟩ := List.mem_map.mp hx
    exact he.wired.stocked.sits y hy
  merged := by
    intro hpolicy x hx
    obtain ⟨y, hy, rfl⟩ := List.mem_map.mp hx
    exact he.wired.stocked.merged (he.policy_eq.trans hpolicy) y hy
  block := by
    intro x hx
    obtain ⟨y, _, hslot, occ, _, next, hblock⟩ := h.exists_op_of_mem_blocks he hx
    obtain ⟨_, _, n, buffer, pair, hfinds, hsymbol, hguard, _⟩ := Device.block_eq_ok hblock
    refine ⟨pair, ?_, ?_⟩
    . rw [hslot, hsymbol]
      exact hfinds.mem_slots
    . rw [hslot, hguard, he.policy_eq]
  use := by
    intro c hc u hu
    obtain ⟨htile, y, _, _, occ, _, huse⟩ := Device.corePrograms_eq_ok he.cores_eq c hc u hu
    obtain ⟨_, hchannel, n, buffer, pair, hfinds, hsymbol, hguard⟩ := Device.coreUse?_eq_ok huse
    refine ⟨htile, pair, ?_, ?_⟩
    . rw [hchannel, hsymbol]
      exact hfinds.mem_slots
    . rw [hguard, he.policy_eq, hchannel]
  used := by
    intro x hx
    obtain ⟨y, hy, rfl⟩ := List.mem_map.mp hx
    exact h.exists_block he hy

end Built

namespace Graph

variable {g : Graph} {t : Target} {p : Program}

theorem exists_guarding (h : g.compile t = .ok p) : ∃ slots, p.Guarding t.lockPolicy slots := by
  obtain ⟨bs, d, a, hbuilt, d', bindings, hemitted⟩ := compile_eq_ok h
  exact ⟨d'.slots, hbuilt.guarding hemitted⟩

/--
In a compiled program, two blocks use the same locks if they are for the same buffer on the same
channel, and no lock in common otherwise; and there are just as many locks as the policy has for
each of these pairs of a channel and a buffer.
-/
theorem compile_locksApart (h : g.compile t = .ok p) : p.LocksApart t.lockPolicy := by
  obtain ⟨slots, hguarding⟩ := exists_guarding h
  exact hguarding.locksApart

theorem compile_relay_locksApart :
    ∃ p, relay.compile (.gen2 4 6) = .ok p ∧ p.LocksApart .counting := by
  obtain ⟨p, h⟩ := exists_compile_relay
  exact ⟨p, h, compile_locksApart h⟩

end Graph

end TileTraffic
