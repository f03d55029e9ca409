import Mathlib.Data.List.Forall2
import TileTraffic.Proofs.Descriptor.Blocks
import TileTraffic.Proofs.Program.Stages

/-!
The two views of a channel on a compute tile. The chain says what the DMA engine does block by
block, and the program of the core what is done on the other side of the same buffers. The uses of
the core are the counterparts of the blocks, one by one and in the same order.
-/

namespace TileTraffic

namespace Guard

/--
The first guard takes what the second one releases, and the other way around.
-/
structure Mirrors (g h : Guard) : Prop where
  acquire_lock : g.acquire.lock = h.release.lock
  acquire_value : g.acquire.value = h.release.value
  release_lock : g.release.lock = h.acquire.lock
  release_value : g.release.value = h.acquire.value

end Guard

theorem LockPolicy.coreGuard_mirrors (p : LockPolicy) (pair : LockPair) (d : Direction) :
    (p.coreGuard pair d).Mirrors (p.dmaGuard pair d) := by
  cases d with
  | inbound => exact ⟨rfl, rfl, rfl, rfl⟩
  | outbound => exact ⟨rfl, rfl, rfl, rfl⟩

/--
The use is what the core does with the buffer that the block fills or drains.
-/
structure CoreUse.Answers (u : CoreUse) (b : Block) : Prop where
  op_eq : u.op = b.op
  buffer_eq : u.buffer = b.descriptor.buffer
  guard : u.guard.Mirrors b.guard

/--
The channel that a chain runs on.
-/
def TileProgram.keyOf (q : TileProgram) (c : Chain) : ChannelKey :=
  ⟨q.tile, c.direction, c.channel⟩

theorem TileProgram.filter_keyOf (q : TileProgram) (c : Chain) (uses : List CoreUse) :
    ((uses.filter fun u => u.channel.tile = q.tile).filter fun u => u.channel = q.keyOf c) =
      uses.filter fun u => u.channel = q.keyOf c := by
  rw [List.filter_filter]
  apply List.filter_congr
  intro u _
  by_cases hu : u.channel = q.keyOf c
  . simp [hu, TileProgram.keyOf]
  . simp [hu]

/--
The cores of a program are those of its compute tiles. On every channel there, they use one buffer
after the other just as the chain of the channel has them.
-/
structure Program.Paired (p : Program) : Prop where
  tiles_eq : p.cores.map CoreProgram.tile =
    (p.tiles.filter fun q => q.role = .compute).map TileProgram.tile
  answers : ∀ core ∈ p.cores, ∀ q ∈ p.tiles, q.tile = core.tile → ∀ c ∈ q.chains,
    List.Forall₂ CoreUse.Answers (core.uses.filter fun u => u.channel = q.keyOf c) c.blocks
  /-- No channel and no use is left out. -/
  chain : ∀ a ∈ p.channels, ∃ q ∈ p.tiles, ∃ c ∈ q.chains, a.key = q.keyOf c
  channel : ∀ core ∈ p.cores, ∀ u ∈ core.uses,
    u.channel.tile = core.tile ∧ ∃ a ∈ p.channels, u.channel = a.key

theorem forall₂_of_mapM_eq_ok {ε α β : Type} {f : α → Except ε β} {as : List α} {bs : List β}
    (h : as.mapM f = .ok bs) : List.Forall₂ (fun a b => f a = .ok b) as bs := by
  have hmap := mapM_eq_ok h
  rw [← List.forall₂_eq_eq_eq, List.forall₂_map_left_iff, List.forall₂_map_right_iff] at hmap
  exact hmap

section groups

variable {α β κ : Type} {key : α → κ} {shown : β → κ} {R : α → List β → Prop} {as : List α}
  {groups : List (List β)}

theorem mem_map_of_mem_flatten (h : List.Forall₂ R as groups)
    (hshown : ∀ a bs, R a bs → ∀ b ∈ bs, shown b = key a) {b : β} (hb : b ∈ groups.flatten) :
    shown b ∈ as.map key := by
  induction h with
  | nil => cases hb
  | cons hR _ ih =>
    rw [List.flatten_cons, List.mem_append] at hb
    rw [List.map_cons, List.mem_cons]
    exact hb.imp (hshown _ _ hR b) ih

/--
Groups whose elements show which one they are in can be told from their concatenation.
-/
theorem rel_filter_flatten [DecidableEq κ] (hnodup : (as.map key).Nodup)
    (h : List.Forall₂ R as groups) (hshown : ∀ a bs, R a bs → ∀ b ∈ bs, shown b = key a) {a : α}
    (ha : a ∈ as) : R a (groups.flatten.filter fun b => shown b = key a) := by
  induction h with
  | nil => cases ha
  | @cons a' bs as groups hR hrest ih =>
    obtain ⟨hnew, hnodup⟩ := List.nodup_cons.mp hnodup
    rw [List.flatten_cons, List.filter_append]
    rcases List.mem_cons.mp ha with rfl | ha
    . have hown : (bs.filter fun b => shown b = key a) = bs := by
        rw [List.filter_eq_self]
        intro b hb
        simpa using hshown _ _ hR b hb
      have hnone : (groups.flatten.filter fun b => shown b = key a) = [] := by
        rw [List.filter_eq_nil_iff]
        intro b hb hkey
        apply hnew
        rw [← of_decide_eq_true hkey]
        exact mem_map_of_mem_flatten hrest hshown hb
      rw [hown, hnone, List.append_nil]
      exact hR
    . have hnone : (bs.filter fun b => shown b = key a) = [] := by
        rw [List.filter_eq_nil_iff]
        intro b hb hkey
        apply hnew
        rw [← hshown _ _ hR b hb, of_decide_eq_true hkey]
        exact List.mem_map_of_mem ha
      rw [hnone, List.nil_append]
      exact ih hnodup ha

end groups

namespace Device

variable {d : Device} {bindings : Bindings} {as : List Allocation} {a : Allocation}
  {occ : Occurrence}

/--
The uses of the buffers of one channel.
-/
def usesOn (d : Device) (bindings : Bindings) (a : Allocation) :
    Except CompileError (List CoreUse) :=
  (a.ops.mapM (d.coreUse? bindings a)).map fun found => found.filterMap id

theorem coreUse?_of_finds {n : Nat} {buffer : Buffer} {pair : LockPair}
    (h : d.Finds bindings a occ n buffer pair) :
    d.coreUse? bindings a occ = .ok
      (some ⟨occ.op.id, buffer.symbol, a.key, d.policy.coreGuard pair a.key.direction⟩) := by
  have hbound : bound bindings a occ = .ok n := by
    unfold bound
    rw [h.bound]
  have hbuffer : d.bufferAt n = .ok buffer := by
    unfold bufferAt
    rw [h.buffer_eq]
  simp only [coreUse?, hbound, hbuffer, h.pair_eq, Bind.bind, Except.bind, Pure.pure, Except.pure]

/--
What makes a block makes a use as well: no lock pair is missing on one side only.
-/
theorem answers_of_eq_ok {next : Nat} {b : Block} {found : Option CoreUse}
    (hb : d.block bindings a occ next = .ok b) (hfound : d.coreUse? bindings a occ = .ok found) :
    ∃ u, found = some u ∧ u.Answers b := by
  obtain ⟨hop, _, n, buffer, pair, hfinds, hsymbol, hguard, _⟩ := block_eq_ok hb
  rw [coreUse?_of_finds hfinds] at hfound
  refine ⟨_, (Except.ok.inj hfound).symm, hop.symm, hsymbol.symm, ?_⟩
  rw [hguard]
  apply LockPolicy.coreGuard_mirrors

theorem forall₂_blocks {c : Chain} (h : d.chain bindings a = .ok c) :
    List.Forall₂ (fun occ b => ∃ next, d.block bindings a occ next = .ok b) a.ops c.blocks := by
  unfold chain at h
  obtain ⟨blocks, hblocks, h⟩ := bind_eq_ok h
  obtain rfl := Except.ok.inj h
  show List.Forall₂ _ a.ops blocks
  rw [← List.zipIdx_map_fst 0 a.ops, List.forall₂_map_left_iff]
  apply (forall₂_of_mapM_eq_ok hblocks).imp
  intro x b hb
  obtain ⟨next, _, hb⟩ := bind_eq_ok hb
  exact ⟨next, hb⟩

theorem answers_of_usesOn {c : Chain} {us : List CoreUse} (hc : d.chain bindings a = .ok c)
    (hus : d.usesOn bindings a = .ok us) : List.Forall₂ CoreUse.Answers us c.blocks := by
  obtain ⟨found, hfound, rfl⟩ := map_eq_ok hus
  have hblocks := forall₂_blocks hc
  have huses := forall₂_of_mapM_eq_ok hfound
  clear hc hus hfound
  generalize a.ops = ops at hblocks huses
  generalize c.blocks = blocks at hblocks ⊢
  induction hblocks generalizing found with
  | nil =>
    cases huses
    exact .nil
  | cons hb _ ih =>
    cases huses with
    | cons hu hrest =>
      obtain ⟨next, hb⟩ := hb
      obtain ⟨u, rfl, hanswers⟩ := answers_of_eq_ok hb hu
      exact .cons hanswers (ih _ hrest)

theorem channel_of_usesOn {us : List CoreUse} (h : d.usesOn bindings a = .ok us) {u : CoreUse}
    (hu : u ∈ us) : u.channel = a.key := by
  obtain ⟨found, hfound, rfl⟩ := map_eq_ok h
  obtain ⟨_, hmem, rfl⟩ := List.mem_filterMap.mp hu
  obtain ⟨occ, _, huse⟩ := mem_of_mapM_eq_ok hfound hmem
  exact (coreUse?_eq_ok huse).2.1

/--
The uses of the cores are those of the tile-local channels, one channel after the other.
-/
theorem coreUses_eq_ok {uses : List CoreUse} (h : d.coreUses bindings as = .ok uses) :
    ∃ groups, List.Forall₂ (fun a us => d.usesOn bindings a = .ok us)
      (as.filter fun a => a.level = .tileLocal) groups ∧ uses = groups.flatten := by
  unfold coreUses at h
  obtain ⟨found, hfound, h⟩ := bind_eq_ok h
  obtain rfl := Except.ok.inj h
  refine ⟨found.map fun us => us.filterMap id, ?_, List.filterMap_flatten⟩
  rw [List.forall₂_map_right_iff]
  apply (forall₂_of_mapM_eq_ok hfound).imp
  intro a us hus
  unfold usesOn
  rw [hus]
  rfl

theorem usesOn_of_coreUses (hnodup : (as.map Allocation.key).Nodup) {uses : List CoreUse}
    (h : d.coreUses bindings as = .ok uses) (ha : a ∈ as) (hlevel : a.level = .tileLocal) :
    d.usesOn bindings a = .ok (uses.filter fun u => u.channel = a.key) := by
  obtain ⟨groups, hgroups, rfl⟩ := coreUses_eq_ok h
  have hsub : (as.filter fun a => a.level = .tileLocal).Sublist as := List.filter_sublist
  refine rel_filter_flatten (hnodup.sublist (hsub.map Allocation.key)) hgroups ?_ ?_
  . intro a us hus u hu
    exact channel_of_usesOn hus hu
  . simp [ha, hlevel]

theorem exists_channel_of_coreUses {uses : List CoreUse} (h : d.coreUses bindings as = .ok uses)
    {u : CoreUse} (hu : u ∈ uses) : ∃ a ∈ as, a.level = .tileLocal ∧ u.channel = a.key := by
  obtain ⟨groups, hgroups, rfl⟩ := coreUses_eq_ok h
  have hmem : u.channel ∈ (as.filter fun a => a.level = .tileLocal).map Allocation.key :=
    mem_map_of_mem_flatten hgroups (fun a us hus u hu => channel_of_usesOn hus hu) hu
  obtain ⟨a, ha, hkey⟩ := List.mem_map.mp hmem
  obtain ⟨ha, hlevel⟩ := List.mem_filter.mp ha
  exact ⟨a, ha, by simpa using hlevel, hkey.symm⟩

/--
The programs stand in the order of their tiles, with the roles that those have on the target.
-/
theorem map_tile_of_synthesize {ps : List TileProgram} (h : d.synthesize bindings as = .ok ps) :
    ps.map TileProgram.tile = Ordered.ofList id (as.map fun a => a.key.tile) ∧
      ∀ q ∈ ps, q.role = d.target.roleOfRow q.tile.row := by
  rw [synthesize_eq] at h
  constructor
  . have hmap := map_eq_of_mapM_eq_ok (p := id) h fun tile q hq => (tileProgram_parts hq).1
    rw [hmap, List.map_id]
  . intro q hq
    obtain ⟨tile, _, hok⟩ := mem_of_mapM_eq_ok h hq
    obtain ⟨rfl, hrole, _⟩ := tileProgram_parts hok
    exact hrole

/--
A tile has a use if it has a tile-local channel, since no channel goes without blocks.
-/
theorem mem_tiles_of_coreUses (hnodup : (as.map Allocation.key).Nodup)
    (hchains : ∀ a ∈ as, ∃ c, d.chain bindings a = .ok c) (hne : ∀ a ∈ as, a.ops ≠ [])
    {uses : List CoreUse} (h : d.coreUses bindings as = .ok uses) (tile : Coord) :
    (tile ∈ uses.map fun u => u.channel.tile) ↔
      ∃ a ∈ as, a.level = .tileLocal ∧ a.key.tile = tile := by
  rw [List.mem_map]
  constructor
  . rintro ⟨u, hu, rfl⟩
    obtain ⟨a, ha, hlevel, hkey⟩ := exists_channel_of_coreUses h hu
    exact ⟨a, ha, hlevel, by rw [hkey]⟩
  . rintro ⟨a, ha, hlevel, rfl⟩
    obtain ⟨c, hc⟩ := hchains a ha
    have hus := usesOn_of_coreUses hnodup h ha hlevel
    have hlength : (uses.filter fun u => u.channel = a.key).length = a.ops.length :=
      (answers_of_usesOn hc hus).length_eq.trans (forall₂_blocks hc).length_eq.symm
    have hpos : 0 < (uses.filter fun u => u.channel = a.key).length := by
      rw [hlength]
      exact List.length_pos_of_ne_nil (hne a ha)
    obtain ⟨u, hu⟩ := List.exists_mem_of_length_pos hpos
    obtain ⟨hu, hkey⟩ := List.mem_filter.mp hu
    exact ⟨u, hu, by rw [of_decide_eq_true hkey]⟩

end Device

namespace Target

variable {t : Target} {level : Level} {tile : Coord}

theorem Hosts.tileLocal_iff (h : t.Hosts level tile) :
    level = .tileLocal ↔ t.roleOfRow tile.row = .compute := by
  cases level with
  | tileLocal => exact ⟨fun _ => h, fun _ => rfl⟩
  | shared =>
    have hrole : t.roleOfRow tile.row = .shared := h
    simp [hrole]
  | external =>
    obtain ⟨hrow, _⟩ : tile.row = 0 ∧ _ := h
    simp [roleOfRow, hrow]

end Target

namespace Built

variable {g : Graph} {t : Target} {p : Program} {bs : List Bundle} {d d' : Device} {a : Assignment}
  {bindings : Bindings}

theorem exists_chain (h : Built g t p bs d a) (he : Emitted t p d' bindings) {x : Allocation}
    (hx : x ∈ p.channels) :
    ∃ q ∈ p.tiles, ∃ c ∈ q.chains, x.key = q.keyOf c ∧ d'.chain bindings x = .ok c := by
  obtain ⟨_, hchains⟩ := Device.synthesize_eq_ok h.keys_nodup he.tiles_eq
  obtain ⟨q, hq, htile, c, hc, hok⟩ := hchains x hx (h.ops_ne hx)
  obtain ⟨hdirection, hchannel, _⟩ := Device.chain_eq_ok hok
  refine ⟨q, hq, c, hc, ?_, hok⟩
  unfold TileProgram.keyOf
  rw [htile, hdirection, hchannel]

variable {uses : List CoreUse} {q : TileProgram} {c : Chain}

theorem mem_tiles_iff (h : Built g t p bs d a) (he : Emitted t p d' bindings)
    (huses : d'.coreUses bindings p.channels = .ok uses) (tile : Coord) :
    (tile ∈ uses.map fun u => u.channel.tile) ↔
      tile ∈ (p.channels.map fun x => x.key.tile) ∧ t.roleOfRow tile.row = .compute := by
  have hchains : ∀ x ∈ p.channels, ∃ c, d'.chain bindings x = .ok c := by
    intro x hx
    obtain ⟨_, _, c, _, _, hok⟩ := h.exists_chain he hx
    exact ⟨c, hok⟩
  rw [Device.mem_tiles_of_coreUses h.keys_nodup hchains (fun x hx => h.ops_ne hx) huses,
    List.mem_map]
  constructor
  . rintro ⟨x, hx, hlevel, rfl⟩
    exact ⟨⟨x, hx, rfl⟩, (h.hosts hx).tileLocal_iff.mp hlevel⟩
  . rintro ⟨⟨x, hx, rfl⟩, hrole⟩
    exact ⟨x, hx, (h.hosts hx).tileLocal_iff.mpr hrole, rfl⟩

/--
The tiles with uses are the compute tiles with chains. Both lists are in order, so it is enough that
they have the same members.
-/
theorem ofList_tiles_eq (h : Built g t p bs d a) (he : Emitted t p d' bindings)
    (htarget : d'.target = t) (huses : d'.coreUses bindings p.channels = .ok uses) :
    Ordered.ofList id (uses.map fun u => u.channel.tile) =
      (p.tiles.filter fun q => q.role = .compute).map TileProgram.tile := by
  obtain ⟨htiles, hroles⟩ := Device.map_tile_of_synthesize he.tiles_eq
  have hright : (p.tiles.filter fun q => q.role = .compute).map TileProgram.tile =
      (Ordered.ofList id (p.channels.map fun x => x.key.tile)).filter fun tile =>
        t.roleOfRow tile.row = .compute := by
    rw [← htiles, List.filter_map]
    congr 1
    apply List.filter_congr
    intro q hq
    rw [hroles q hq, htarget]
    rfl
  rw [hright]
  apply Ordered.Sorted.eq_of_mem_iff
  . apply Ordered.sorted_ofList
  . exact (Ordered.sorted_ofList id _).filter _
  . intro tile
    rw [Ordered.mem_ofList_id, List.mem_filter, Ordered.mem_ofList_id, decide_eq_true_eq]
    exact h.mem_tiles_iff he huses tile

theorem answers_of_mem_chains (h : Built g t p bs d a) (he : Emitted t p d' bindings)
    (huses : d'.coreUses bindings p.channels = .ok uses) (hq : q ∈ p.tiles) (hc : c ∈ q.chains)
    (hrole : t.roleOfRow q.tile.row = .compute) :
    List.Forall₂ CoreUse.Answers (uses.filter fun u => u.channel = q.keyOf c) c.blocks := by
  obtain ⟨x, hx, hxtile, hok⟩ := (Device.synthesize_eq_ok h.keys_nodup he.tiles_eq).1 q hq c hc
  obtain ⟨hdirection, hchannel, _⟩ := Device.chain_eq_ok hok
  have hkey : x.key = q.keyOf c := by
    unfold TileProgram.keyOf
    rw [← hxtile, hdirection, hchannel]
  have hlevel : x.level = .tileLocal := by
    rw [(h.hosts hx).tileLocal_iff, hxtile]
    exact hrole
  rw [← hkey]
  exact Device.answers_of_usesOn hok (Device.usesOn_of_coreUses h.keys_nodup huses hx hlevel)

theorem paired (h : Built g t p bs d a) (he : Emitted t p d' bindings) (htarget : d'.target = t) :
    p.Paired := by
  have hcores := he.cores_eq
  unfold Device.corePrograms at hcores
  obtain ⟨uses, huses, hcores⟩ := bind_eq_ok hcores
  have hcores := (Except.ok.inj hcores).symm
  constructor
  . rw [← h.ofList_tiles_eq he htarget huses, hcores, List.map_map]
    exact List.map_id _
  . intro core hcore q hq htile c hc
    rw [hcores] at hcore
    obtain ⟨tile, hmem, rfl⟩ := List.mem_map.mp hcore
    subst htile
    have hrole := ((h.mem_tiles_iff he huses _).mp (Ordered.mem_ofList_id.mp hmem)).2
    show List.Forall₂ _ ((uses.filter _).filter _) _
    rw [TileProgram.filter_keyOf]
    exact h.answers_of_mem_chains he huses hq hc hrole
  . intro x hx
    obtain ⟨q, hq, c, hc, hkey, _⟩ := h.exists_chain he hx
    exact ⟨q, hq, c, hc, hkey⟩
  . intro core hcore u hu
    rw [hcores] at hcore
    obtain ⟨tile, _, rfl⟩ := List.mem_map.mp hcore
    obtain ⟨hu, htile⟩ := List.mem_filter.mp hu
    obtain ⟨x, hx, _, hkey⟩ := Device.exists_channel_of_coreUses huses hu
    exact ⟨of_decide_eq_true htile, x, hx, hkey⟩

end Built

namespace Graph

variable {g : Graph} {t : Target} {p : Program}

/--
In a compiled program, the cores are on the compute tiles that have chains, and do the opposite of
what the blocks of the chains do, use by use.
-/
theorem compile_paired (h : g.compile t = .ok p) : p.Paired := by
  obtain ⟨bs, d, a, d', bindings, hbuilt, honly, hguarded, hemitted⟩ := compile_stages h
  have hsided : Device.Sided p.channels := by
    rw [hbuilt.channels_eq]
    exact fun x hx occ hocc => hbuilt.complete.sided hx hocc
  obtain ⟨_, hext⟩ :=
    (Device.guardAll_yields (Device.sound_of_onlyHomes honly) hsided).of_eq_ok hguarded
  exact hbuilt.paired hemitted (hext.target.trans hbuilt.target_eq)

/--
One core takes in all three loads, channel by channel; the other one sends out its step.
-/
theorem compile_relay_paired : ∃ p, relay.compile (.gen2 4 6) = .ok p ∧ p.Paired ∧
    (p.cores.map fun core => core.uses.map CoreUse.op) = [[1, 3, 2], [4]] := by
  have hops : ∃ p, relay.compile (.gen2 4 6) = .ok p ∧
      (p.cores.map fun core => core.uses.map CoreUse.op) = [[1, 3, 2], [4]] :=
    exists_ok_of_decide (by decide +kernel)
  obtain ⟨p, h, hops⟩ := hops
  exact ⟨p, h, compile_paired h, hops⟩

end Graph

end TileTraffic
