import TileTraffic.Proofs.Bundle.Partition
import TileTraffic.Proofs.Channel.External
import TileTraffic.Proofs.Device.Placement
import TileTraffic.Proofs.Flow.Table

/-!
The three passes together: all ends have channels, every channel is there for some end, and the
channels of the three levels are on different tiles.
-/

namespace TileTraffic

/--
The role of the tiles that have channels of a level.
-/
def Level.role : Level → Role
  | .tileLocal => .compute
  | .shared => .shared
  | .external => .interface

namespace Target

variable {t : Target} {level : Level} {tile : Coord}

theorem Hosts.roleOfRow_eq (h : t.Hosts level tile) : t.roleOfRow tile.row = level.role := by
  cases level with
  | tileLocal => exact h
  | shared => exact h
  | external =>
    unfold roleOfRow
    rw [if_pos h.1]
    rfl

end Target

namespace Graph

variable {g : Graph} {t : Target}

/--
The cell of an op in its region.
-/
def CellOf (g : Graph) (op : Op) (tile : Coord) : Prop :=
  ∃ r, op.region.bind g.region? = some r ∧ r.tileAt? (op.spatialIndex.getD []) = some tile

def cell? (g : Graph) (op : Op) : Option Coord :=
  (op.region.bind g.region?).bind fun r => r.tileAt? (op.spatialIndex.getD [])

theorem cell?_eq_some_iff {g : Graph} {op : Op} {tile : Coord} :
    g.cell? op = some tile ↔ g.CellOf op tile :=
  Option.bind_eq_some_iff

theorem computeTile_yields (g : Graph) (t : Target) (op : Op) :
    Yields (g.computeTile t op) fun tile =>
      g.CellOf op tile ∧ t.contains tile = true ∧ t.roleOfRow tile.row = .compute := by
  unfold computeTile
  split
  . apply Yields.error
    rw [Op.isInternal_blame]
    rfl
  . next r hr =>
    dsimp only
    split
    . apply Yields.error
      rw [Op.isInternal_blame]
      rfl
    . next tile htile =>
      split
      . next h => exact ⟨⟨r, hr, htile⟩, h⟩
      . apply Yields.error
        rw [Op.isInternal_blame]
        rfl

theorem computeTile_locates (g : Graph) (t : Target) :
    Endpoint.Locates g t .tileLocal g.CellOf (g.computeTile t) := by
  intro occ _ _ _
  apply (g.computeTile_yields t occ.op).mono
  intro tile ⟨hcell, _, hrole⟩
  exact ⟨hcell, hrole⟩

end Graph

namespace Device

variable {g : Graph} {d : Device}

/--
All buffers that ops access in shared memory have homes.
-/
def Homes (g : Graph) (d : Device) : Prop :=
  ∀ op ∈ g.ops, ∀ a, op.accessAt? .shared = some a → d.HasHome a.buffer

/--
The shared tile of an op is the home of the buffer that it accesses in shared memory.
-/
def HomeOf (d : Device) (op : Op) (tile : Coord) : Prop :=
  ∃ a, op.accessAt? .shared = some a ∧ d.home? a.buffer = some tile

theorem sharedTile_yields (h : d.Homes g) {op : Op} (hop : op ∈ g.ops) {side : Direction}
    (hd : op.directionAt .shared = .ok side) :
    Yields (d.sharedTile op) fun tile => d.HomeOf op tile ∧ d.target.Hosts .shared tile := by
  obtain ⟨a, _, ha, _⟩ := Op.accessAt?_of_directionAt hd
  obtain ⟨tile, hhome, hhosts⟩ := h op hop a ha
  have hbind : ((op.accessAt? .shared).bind fun a => d.home? a.buffer) = some tile := by
    simp [ha, hhome]
  unfold sharedTile
  rw [hbind]
  exact ⟨⟨a, ha, hhome⟩, hhosts⟩

theorem sharedTile_locates (h : d.Homes g) :
    Endpoint.Locates g d.target .shared d.HomeOf d.sharedTile := by
  intro occ hocc side hd
  exact sharedTile_yields h (Graph.mem_occurrences hocc) hd

end Device

namespace ChannelPool

theorem allocations_perm (p : ChannelPool) : p.allocations.Perm p.opened := by
  unfold allocations toward
  have hnot : (fun a : Allocation => decide (a.key.direction = .outbound)) =
      fun a => !decide (a.key.direction = .inbound) := by
    funext a
    cases a.key.direction <;> rfl
  rw [hnot]
  apply List.filter_append_perm

end ChannelPool

namespace Bundle

variable {g : Graph} {t : Target} {bs bs' : List Bundle} {level : Level}

theorem sound_of_map_unassigned (h : bs'.map unassigned = bs.map unassigned)
    (hbs : ∀ b ∈ bs, b.Sound g t) {b : Bundle} (hb : b ∈ bs') : b.Sound g t := by
  have hmem : b.unassigned ∈ bs.map unassigned := by
    rw [← h]
    exact List.mem_map_of_mem hb
  obtain ⟨c, hc, heq⟩ := List.mem_map.mp hmem
  rw [← sound_unassigned_iff, ← heq, sound_unassigned_iff]
  exact hbs c hc

theorem key_eq_none_of_unassigned (h : bs.map unassigned = bs) {x : Direction × Endpoint}
    (hx : x ∈ endsOf level bs) : x.2.key = none := by
  obtain ⟨b, hb, hx⟩ := List.mem_flatMap.mp hx
  rw [← h] at hb
  obtain ⟨c, _, rfl⟩ := List.mem_map.mp hb
  rcases mem_endsAt_iff.mp hx with ⟨_, rfl⟩ | ⟨_, e, he, rfl⟩
  . rfl
  . obtain ⟨e', _, rfl⟩ := List.mem_map.mp he
    rfl

theorem mem_endsOf {b : Bundle} (hb : b ∈ bs) {x : Direction × Endpoint}
    (hx : x ∈ b.endsAt level) : x ∈ endsOf level bs :=
  List.mem_flatMap.mpr ⟨b, hb, hx⟩

theorem Covered.key_mem {sits : Op → Coord → Prop} {p : ChannelPool}
    {ends : List (Direction × Endpoint)} (h : Covered sits p ends) {x : Direction × Endpoint}
    (hx : x ∈ ends) (hne : x.2.ops ≠ []) : ∃ key, x.2.key = some key ∧ key ∈ p.keys := by
  obtain ⟨key, hkey, hserved⟩ := h.served x hx
  obtain ⟨occ, rest, hcons⟩ := List.exists_cons_of_ne_nil hne
  refine ⟨key, hkey, ?_⟩
  exact (hserved.serves occ (by simp [hcons])).mem_keys

end Bundle

namespace Assignment

/--
The channels of a level.
-/
def pool (a : Assignment) : Level → ChannelPool
  | .tileLocal => a.tileLocal
  | .shared => a.shared
  | .external => a.external

/--
Where the channel of an op has to be at a level: on its cell, at the home of its buffer, or on an
interface tile.
-/
def Sits (g : Graph) (d : Device) (level : Level) (op : Op) (tile : Coord) : Prop :=
  match level with
  | .tileLocal => g.CellOf op tile
  | .shared => d.HomeOf op tile
  | .external => tile.row = 0

/--
All ends of the bundles have channels of sound pools, and there are no other channels.
-/
structure Complete (g : Graph) (t : Target) (d : Device) (bs : List Bundle) (a : Assignment) :
    Prop where
  unassigned : a.bundles.map Bundle.unassigned = bs
  level_eq : ∀ level, (a.pool level).level = level
  sound : ∀ level, (a.pool level).Sound g t
  covered : ∀ level, Bundle.Covered (Sits g d level) (a.pool level)
    (Bundle.endsOf level a.bundles)

variable {g : Graph} {t : Target} {d : Device} {bs : List Bundle} {a : Assignment}

/--
After the passes over tile-local and shared memory, the bundles are ready for the external one.
-/
theorem prepared {bs₁ bs₂ : List Bundle} {tileLocal shared : ChannelPool}
    {sits sits' : Op → Coord → Prop} (hbs : g.Partitioned t bs) (hlocal : tileLocal.Sound g t)
    (hshared : shared.Sound g t) (h₁ : Bundle.PassOver sits .tileLocal tileLocal bs bs₁)
    (h₂ : Bundle.PassOver sits' .shared shared bs₁ bs₂) : ∀ b ∈ bs₂, b.Prepared g t := by
  have hmap : bs₂.map Bundle.unassigned = bs.map Bundle.unassigned :=
    h₂.unassigned.trans h₁.unassigned
  have hsound : ∀ b ∈ bs₂, b.Sound g t := fun b hb =>
    Bundle.sound_of_map_unassigned hmap hbs.sound hb
  -- an end that a pool covers has its channel on a tile of the level
  have hkeyed : ∀ {p : ChannelPool} {sits : Op → Coord → Prop}, p.Sound g t →
      p.level.role ≠ .interface → Bundle.Covered sits p (Bundle.endsOf p.level bs₂) →
      ∀ b ∈ bs₂, ∀ x ∈ b.endsAt p.level,
        ∃ key, x.2.key = some key ∧ t.roleOfRow key.tile.row ≠ .interface := by
    intro p sits hp hrole hcovered b hb x hx
    have hne := (hsound b hb).ends_ne hx
    obtain ⟨key, hkey, hopen⟩ := hcovered.key_mem (Bundle.mem_endsOf hb hx) hne
    refine ⟨key, hkey, ?_⟩
    rw [(hp.hosts hopen).roleOfRow_eq]
    exact hrole
  intro b hb
  refine ⟨hsound b hb, ?_, ?_⟩
  . intro x hx
    have hmem := Bundle.mem_endsOf hb hx
    rw [h₂.others .external (by simp), h₁.others .external (by simp)] at hmem
    exact Bundle.key_eq_none_of_unassigned hbs.unassigned hmem
  . intro level hlevel
    cases level with
    | tileLocal =>
      have heq := h₁.level_eq
      have hcovered := h₁.covered
      rw [← h₂.others .tileLocal (by simp)] at hcovered
      rw [← heq] at hcovered ⊢
      apply hkeyed hlocal _ hcovered b hb
      rw [heq]
      simp [Level.role]
    | shared =>
      have heq := h₂.level_eq
      have hcovered := h₂.covered
      rw [← heq] at hcovered ⊢
      apply hkeyed hshared _ hcovered b hb
      rw [heq]
      simp [Level.role]
    | external => exact absurd rfl hlevel

/--
The assignment of a partition is complete. `J` is what else the external pass keeps.
-/
theorem ofBundles_yields (J : List Bundle → ReuseIndex → ChannelPool → List Bundle → Prop)
    (hJ : ∀ {done bs rest : List Bundle} {index : ReuseIndex} {p p' : ChannelPool} {b b' : Bundle},
      (∀ c ∈ b :: rest, c.Prepared g t) → Bundle.ExternalPass g t p done bs (b :: rest) →
      J bs index p (b :: rest) →
      Bundle.ExternalStep g t index (bs.map Bundle.ends ++ b.ends :: rest.map Bundle.ends) p b b'
        p' →
      J (bs ++ [b']) (index.record bs.length b'.ends) p' rest)
    (hstart : ∀ bs', (∀ b ∈ bs', b.Prepared g t) → bs'.map Bundle.unassigned = bs →
      J [] (indexOf bs') (.empty .external) bs')
    (htarget : d.target = t) (hhomes : d.Homes g) (hbs : g.Partitioned t bs) :
    Yields (ofBundles g t d bs) fun a =>
      a.Complete g t d bs ∧ ∃ index, J a.bundles index a.external [] := by
  subst htarget
  unfold ofBundles
  apply (Bundle.assignLevel_all_yields hbs.sound
    (fun x hx => Bundle.key_eq_none_of_unassigned hbs.unassigned hx) (by simp)
    (g.computeTile_locates d.target)).bind
  intro ⟨bs₁, tileLocal⟩ ⟨hlocal, h₁⟩
  dsimp only at hlocal h₁
  apply Yields.bind
  . apply Bundle.assignLevel_all_yields _ _ (by simp) (d.sharedTile_locates hhomes)
    . intro b hb
      exact Bundle.sound_of_map_unassigned h₁.unassigned hbs.sound hb
    . intro x hx
      rw [h₁.others .shared (by simp)] at hx
      exact Bundle.key_eq_none_of_unassigned hbs.unassigned hx
  intro ⟨bs₂, shared⟩ ⟨hshared, h₂⟩
  dsimp only at hshared h₂
  have hmap : bs₂.map Bundle.unassigned = bs :=
    (h₂.unassigned.trans h₁.unassigned).trans hbs.unassigned
  have hprepared := prepared hbs hlocal hshared h₁ h₂
  apply (Bundle.assignExternal_yields J hJ hprepared (Bundle.externalPass_nil hprepared)
    (hstart bs₂ hprepared hmap)).bind
  intro ⟨bs₃, external⟩ ⟨hpass, hj⟩
  dsimp only at hpass hj
  have h₃ : Bundle.PassOver _ .external external bs₂ bs₃ := hpass.passOver
  -- what a pass has done at its level, the later ones leave as it is
  apply Yields.pure
  refine ⟨⟨h₃.unassigned.trans hmap, ?_, ?_, ?_⟩, hj⟩
  . intro level
    cases level with
    | tileLocal => exact h₁.level_eq
    | shared => exact h₂.level_eq
    | external => exact h₃.level_eq
  . intro level
    cases level with
    | tileLocal => exact hlocal
    | shared => exact hshared
    | external => exact hpass.sound
  . intro level
    cases level with
    | tileLocal =>
      have hcovered := h₁.covered
      rw [← h₂.others .tileLocal (by simp), ← h₃.others .tileLocal (by simp)] at hcovered
      exact hcovered
    | shared =>
      have hcovered := h₂.covered
      rw [← h₃.others .shared (by simp)] at hcovered
      exact hcovered
    | external => exact h₃.covered

theorem allocations_perm (a : Assignment) :
    a.allocations.Perm ((a.pool .tileLocal).opened ++ (a.pool .shared).opened ++
      (a.pool .external).opened) := by
  unfold allocations
  apply List.Perm.append
  . apply List.Perm.append
    . exact a.tileLocal.allocations_perm
    . exact a.shared.allocations_perm
  . exact a.external.allocations_perm

theorem mem_allocations_iff {x : Allocation} :
    x ∈ a.allocations ↔ ∃ level, x ∈ (a.pool level).opened := by
  rw [a.allocations_perm.mem_iff, List.mem_append, List.mem_append]
  constructor
  . rintro ((h | h) | h)
    . exact ⟨_, h⟩
    . exact ⟨_, h⟩
    . exact ⟨_, h⟩
  . intro ⟨level, h⟩
    cases level with
    | tileLocal => exact .inl (.inl h)
    | shared => exact .inl (.inr h)
    | external => exact .inr h

theorem role_injective {level level' : Level} (h : level.role = level'.role) : level = level' := by
  cases level <;> cases level' <;> first | rfl | cases h

namespace Complete

theorem hosts (h : a.Complete g t d bs) {level : Level} {key : ChannelKey}
    (hkey : key ∈ (a.pool level).keys) : t.Hosts level key.tile := by
  have := (h.sound level).hosts hkey
  rw [h.level_eq level] at this
  exact this

theorem level_unique (h : a.Complete g t d bs) {level level' : Level} {key key' : ChannelKey}
    (hkey : key ∈ (a.pool level).keys) (hkey' : key' ∈ (a.pool level').keys)
    (htile : key.tile = key'.tile) : level = level' := by
  -- both levels have the role of the tile
  apply role_injective
  rw [← (h.hosts hkey).roleOfRow_eq, ← (h.hosts hkey').roleOfRow_eq, htile]

theorem keys_nodup (h : a.Complete g t d bs) : (a.allocations.map Allocation.key).Nodup := by
  rw [(a.allocations_perm.map Allocation.key).nodup_iff, List.map_append, List.map_append,
    List.nodup_append, List.nodup_append]
  have hapart : ∀ {level level' : Level}, level ≠ level' → ∀ key ∈ (a.pool level).keys,
      ∀ key' ∈ (a.pool level').keys, key ≠ key' := by
    intro level level' hne key hkey key' hkey' heq
    subst heq
    exact hne (h.level_unique hkey hkey' rfl)
  refine ⟨⟨(h.sound .tileLocal).keys_nodup, (h.sound .shared).keys_nodup, ?_⟩,
    (h.sound .external).keys_nodup, ?_⟩
  . apply hapart
    simp
  . intro key hkey key' hkey'
    rcases List.mem_append.mp hkey with hkey | hkey
    . exact hapart (by simp) key hkey key' hkey'
    . exact hapart (by simp) key hkey key' hkey'

theorem allocation (h : a.Complete g t d bs) {level : Level} {x : Allocation}
    (hx : x ∈ (a.pool level).opened) : x.Sound g t level := by
  have := (h.sound level).allocation x hx
  rw [h.level_eq level] at this
  exact this

theorem opIds_eq (h : a.Complete g t d bs) {x : Allocation} (hx : x ∈ a.allocations) :
    x.opIds = x.ops.map fun o => o.op.id := by
  obtain ⟨level, hx⟩ := mem_allocations_iff.mp hx
  exact (h.allocation hx).opIds_eq

theorem sided (h : a.Complete g t d bs) {x : Allocation} (hx : x ∈ a.allocations)
    {occ : Occurrence} (hocc : occ ∈ x.ops) :
    ∃ direction, occ.op.directionAt x.level = .ok direction := by
  obtain ⟨level, hx⟩ := mem_allocations_iff.mp hx
  have hsound := h.allocation hx
  refine ⟨x.key.direction, ?_⟩
  rw [hsound.level_eq]
  exact (hsound.fits occ hocc).side

theorem bundle_sound (h : a.Complete g t d bs) (hbs : ∀ b ∈ bs, b.Sound g t) {b : Bundle}
    (hb : b ∈ a.bundles) : b.Sound g t := by
  rw [← Bundle.sound_unassigned_iff]
  apply hbs
  rw [← h.unassigned]
  exact List.mem_map_of_mem hb

theorem served (h : a.Complete g t d bs) {b : Bundle} (hb : b ∈ a.bundles) {level : Level}
    {x : Direction × Endpoint} (hx : x ∈ b.endsAt level) :
    x.2.Served (Sits g d level) x.1 (a.pool level) :=
  (h.covered level).served x (Bundle.mem_endsOf hb hx)

theorem role_of_end (h : a.Complete g t d bs) (hbs : ∀ b ∈ bs, b.Sound g t) {b : Bundle}
    (hb : b ∈ a.bundles) {level : Level} {x : Direction × Endpoint} (hx : x ∈ b.endsAt level)
    {key : ChannelKey} (hkey : x.2.key = some key) : t.roleOfRow key.tile.row = level.role := by
  have hne := (h.bundle_sound hbs hb).ends_ne hx
  obtain ⟨key', hkey', hmem⟩ := (h.covered level).key_mem (Bundle.mem_endsOf hb hx) hne
  obtain rfl : key' = key := by simpa [hkey'] using hkey
  exact (h.hosts hmem).roleOfRow_eq

theorem connectable (h : a.Complete g t d bs) (hbs : ∀ b ∈ bs, b.Sound g t) {b : Bundle}
    (hb : b ∈ a.bundles) : b.Connectable where
  ops_ne := (h.bundle_sound hbs hb).producer_ne
  source := by
    obtain ⟨key, hkey, hserved⟩ := h.served hb Bundle.producer_mem_endsAt
    exact ⟨key, hkey, hserved.direction⟩
  dest := by
    intro e he
    obtain ⟨key, hkey, hserved⟩ := h.served hb (Bundle.consumer_mem_endsAt he)
    exact ⟨key, hkey, hserved.direction⟩
  apart := by
    intro f ⟨hsource, e, he, hdest⟩ htile
    -- a tile with both ends on it would have two roles
    apply (h.bundle_sound hbs hb).level_ne
    apply role_injective
    rw [← h.role_of_end hbs hb Bundle.producer_mem_endsAt hsource,
      ← h.role_of_end hbs hb (Bundle.consumer_mem_endsAt he) hdest, htile]

end Complete

end Assignment

end TileTraffic
