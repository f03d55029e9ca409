import TileTraffic.Device
import TileTraffic.Proofs.Lists
import TileTraffic.Proofs.Ordered
import TileTraffic.Proofs.Success

/-!
Soundness of the device arena. Tiles, their index, the locks and the lists of locks that the tiles
keep are updated one by one; a sound device is one in which they agree. What a device has once been
asked for it has for good, at the same position.
-/

namespace TileTraffic

namespace Device

variable {d d' d'' : Device} {c : Coord} {n : Nat}

/-! ### Views of a device -/

/--
The coordinates of the tiles, in the order of creation.
-/
def coords (d : Device) : List Coord :=
  d.tiles.map Tile.coord

/--
The locks that carry the coordinate `c`, with their positions, in the order of creation.
-/
def locksAt (d : Device) (c : Coord) : List (Nat × Lock) :=
  (d.locks.zipIdx.filter fun x => x.1.tile = c).map Prod.swap

/--
The ids that are taken at `c`.
-/
def lockIds (d : Device) (c : Coord) : List Nat :=
  (d.locks.filter fun lock => lock.tile = c).map Lock.id

theorem mem_locksAt {lock : Lock} :
    (n, lock) ∈ d.locksAt c ↔ d.locks[n]? = some lock ∧ lock.tile = c := by
  unfold locksAt
  rw [List.mem_map]
  constructor
  . rintro ⟨x, hx, heq⟩
    obtain ⟨hmem, htile⟩ := List.mem_filter.mp hx
    obtain ⟨rfl, rfl⟩ := Prod.mk.inj heq
    rw [List.mem_zipIdx_iff_getElem?] at hmem
    exact ⟨hmem, of_decide_eq_true htile⟩
  . intro ⟨hlock, htile⟩
    refine ⟨(lock, n), ?_, rfl⟩
    rw [List.mem_filter, List.mk_mem_zipIdx_iff_getElem?]
    exact ⟨hlock, decide_eq_true htile⟩

theorem map_snd_locksAt : (d.locksAt c).map Prod.snd = d.locks.filter fun lock => lock.tile = c := by
  unfold locksAt
  rw [List.map_map]
  show (d.locks.zipIdx.filter fun x => x.1.tile = c).map Prod.fst = _
  have hfilter := List.filter_map (f := Prod.fst) (p := fun lock : Lock => decide (lock.tile = c))
    (l := d.locks.zipIdx)
  rw [List.zipIdx_map_fst] at hfilter
  exact hfilter.symm

theorem map_id_locksAt : ((d.locksAt c).map fun x => x.2.id) = d.lockIds c := by
  unfold lockIds
  rw [← map_snd_locksAt, List.map_map]
  rfl

theorem locksAt_eq_nil (h : ∀ lock ∈ d.locks, lock.tile ≠ c) : d.locksAt c = [] := by
  apply List.eq_nil_iff_forall_not_mem.mpr
  intro (n, lock) hmem
  obtain ⟨hlock, htile⟩ := mem_locksAt.mp hmem
  exact h lock (List.mem_of_getElem? hlock) htile

theorem nodup_places (d : Device) (c : Coord) : ((d.locksAt c).map Prod.fst).Nodup := by
  have hplaces : ((d.locks.zipIdx.filter fun x => x.1.tile = c).map Prod.snd).Sublist
      (List.range' 0 d.locks.length) := by
    rw [← List.zipIdx_map_snd]
    exact List.Sublist.map _ List.filter_sublist
  unfold locksAt
  rw [List.map_map]
  exact hplaces.nodup (List.nodup_range')

/--
Positions with the locks that are there can be read.
-/
theorem mapM_elementAt {places : List (Nat × Lock)}
    (h : ∀ n lock, (n, lock) ∈ places → d.locks[n]? = some lock) :
    ((places.map Prod.fst).mapM fun n => return (n, ← elementAt d.locks n) :
      Except CompileError (List (Nat × Lock))) = .ok places := by
  induction places with
  | nil => rfl
  | cons x places ih =>
    rw [List.map_cons, List.mapM_cons, elementAt_of_getElem? (h x.1 x.2 List.mem_cons_self),
      ih fun n lock hmem => h n lock (List.mem_cons_of_mem x hmem)]
    rfl

/-! ### Soundness -/

/--
The tile is on the grid, has the role of its row, and lists the locks that carry its coordinate.
-/
structure Lists (d : Device) (tile : Tile) : Prop where
  contained : d.target.contains tile.coord = true
  role_eq : tile.role = d.target.roleOfRow tile.coord.row
  locks_eq : tile.locks = (d.locksAt tile.coord).map Prod.fst

/--
The index leads to all tiles and to nothing else, all locks and pairs are on tiles of the device,
and the locks of a tile have different ids within its budget.
-/
structure Sound (d : Device) : Prop where
  index_sorted : Ordered.Sorted Prod.fst d.index
  index_iff : ∀ {c n}, d.tileIndex? c = some n ↔ d.coords[n]? = some c
  lists : ∀ tile ∈ d.tiles, d.Lists tile
  housed : ∀ lock ∈ d.locks, lock.tile ∈ d.coords
  paired : ∀ x ∈ d.pairs, x.1.2.tile ∈ d.coords
  ids_nodup : ∀ c, (d.lockIds c).Nodup
  id_lt : ∀ lock ∈ d.locks, lock.id < (d.target.budgetAt lock.tile).locks

theorem sound_empty (t : Target) (policy : LockPolicy) : (empty t policy).Sound where
  index_sorted := .nil
  index_iff := by simp [empty, tileIndex?, coords]
  lists := by simp [empty]
  housed := by simp [empty]
  paired := by simp [empty]
  ids_nodup := by simp [empty, lockIds]
  id_lt := by simp [empty]

namespace Sound

/--
Buffers and homes do not matter here, and pairs only where they are.
-/
theorem of_pairs (h : d.Sound) {buffers : List (BufferKey × Buffer)} {homes : List (String × Coord)}
    {pairs : List ((Nat × ChannelKey) × LockPair)} (hpairs : ∀ x ∈ pairs, x.1.2.tile ∈ d.coords) :
    { d with buffers := buffers, homes := homes, pairs := pairs }.Sound where
  index_sorted := h.index_sorted
  index_iff := h.index_iff
  lists := by
    intro tile htile
    have hold := h.lists tile htile
    exact ⟨hold.contained, hold.role_eq, hold.locks_eq⟩
  housed := h.housed
  paired := hpairs
  ids_nodup := h.ids_nodup
  id_lt := h.id_lt

theorem contained (h : d.Sound) (hc : c ∈ d.coords) : d.target.contains c = true := by
  obtain ⟨tile, htile, rfl⟩ := List.mem_map.mp hc
  exact (h.lists tile htile).contained

theorem mem_coords (h : d.Sound) (hn : d.tileIndex? c = some n) : c ∈ d.coords :=
  List.mem_of_getElem? (h.index_iff.mp hn)

theorem exists_index (h : d.Sound) (hc : c ∈ d.coords) : ∃ n, d.tileIndex? c = some n := by
  obtain ⟨n, hn⟩ := List.getElem?_of_mem hc
  exact ⟨n, h.index_iff.mpr hn⟩

theorem not_mem_coords (h : d.Sound) (hnone : d.tileIndex? c = none) : c ∉ d.coords := by
  intro hc
  obtain ⟨n, hn⟩ := h.exists_index hc
  rw [hn] at hnone
  cases hnone

/--
No two tiles have the same coordinate.
-/
theorem index_inj (h : d.Sound) {n' : Nat} (hn : d.coords[n]? = some c)
    (hn' : d.coords[n']? = some c) : n = n' := by
  have heq := h.index_iff.mpr hn
  rw [h.index_iff.mpr hn'] at heq
  exact (Option.some.inj heq).symm

theorem coords_nodup (h : d.Sound) : d.coords.Nodup := by
  unfold List.Nodup
  rw [List.pairwise_iff_getElem]
  intro i j hi hj hlt heq
  have hj := List.getElem?_eq_getElem hj
  rw [← heq] at hj
  have := h.index_inj (List.getElem?_eq_getElem hi) hj
  omega

theorem exists_tile (h : d.Sound) (hn : d.tileIndex? c = some n) :
    ∃ tile, d.tiles[n]? = some tile ∧ tile.coord = c ∧ d.Lists tile := by
  have hcoord := h.index_iff.mp hn
  unfold coords at hcoord
  rw [List.getElem?_map] at hcoord
  obtain ⟨tile, htile, hc⟩ := Option.map_eq_some_iff.mp hcoord
  exact ⟨tile, htile, hc, h.lists tile (List.mem_of_getElem? htile)⟩

theorem held_eq {tile : Tile} (h : d.Lists tile) : d.held tile = .ok (d.locksAt tile.coord) := by
  unfold held
  rw [h.locks_eq]
  exact mapM_elementAt fun n lock hmem => (mem_locksAt.mp hmem).1

end Sound

/-! ### Extension -/

/--
`d'` has all that `d` has, at the same positions.
-/
structure Extends (d d' : Device) : Prop where
  target : d'.target = d.target
  policy : d'.policy = d.policy
  coords : d.coords <+: d'.coords
  locks : d.locks <+: d'.locks
  buffers : d.buffers <+: d'.buffers
  pairs : d.pairs <+: d'.pairs

theorem getElem?_of_isPrefix {α : Type} {as bs : List α} {a : α} (h : as <+: bs)
    (ha : as[n]? = some a) : bs[n]? = some a := by
  obtain ⟨hlt, rfl⟩ := List.getElem?_eq_some_iff.mp ha
  exact List.prefix_iff_getElem?.mp h n hlt

namespace Extends

theorem refl : d.Extends d where
  target := rfl
  policy := rfl
  coords := List.prefix_refl _
  locks := List.prefix_refl _
  buffers := List.prefix_refl _
  pairs := List.prefix_refl _

theorem trans (h : d.Extends d') (h' : d'.Extends d'') : d.Extends d'' where
  target := h'.target.trans h.target
  policy := h'.policy.trans h.policy
  coords := h.coords.trans h'.coords
  locks := h.locks.trans h'.locks
  buffers := h.buffers.trans h'.buffers
  pairs := h.pairs.trans h'.pairs

theorem tileIndex? (h : d.Extends d') (hd : d.Sound) (hd' : d'.Sound)
    (hn : d.tileIndex? c = some n) : d'.tileIndex? c = some n :=
  hd'.index_iff.mpr (getElem?_of_isPrefix h.coords (hd.index_iff.mp hn))

theorem buffer? (h : d.Extends d') {b : Buffer} (hb : d.buffer? n = some b) :
    d'.buffer? n = some b := by
  unfold Device.buffer? at hb ⊢
  obtain ⟨entry, hentry, hb⟩ := Option.map_eq_some_iff.mp hb
  rw [getElem?_of_isPrefix h.buffers hentry, ← hb]
  rfl

theorem pair? (h : d.Extends d') {key : ChannelKey} {pair : LockPair}
    (hp : d.pair? n key = some pair) : d'.pair? n key = some pair := by
  obtain ⟨rest, hrest⟩ := h.pairs
  unfold Device.pair? at hp ⊢
  rw [← hrest, List.lookup_append, hp]
  rfl

end Extends

/-! ### Adding tiles and locks -/

theorem coords_addTile : (d.addTile c).coords = d.coords ++ [c] := by
  unfold coords addTile
  rw [List.map_append]
  rfl

theorem tileIndex?_addTile {c' : Coord} : (d.addTile c).tileIndex? c' =
    if c' = c then some d.coords.length else d.tileIndex? c' := by
  unfold tileIndex? addTile
  dsimp only
  rw [Ordered.lookup_insert]
  simp [coords]

theorem extends_addTile : d.Extends (d.addTile c) where
  target := rfl
  policy := rfl
  coords := by
    rw [coords_addTile]
    exact List.prefix_append _ _
  locks := List.prefix_refl _
  buffers := List.prefix_refl _
  pairs := List.prefix_refl _

theorem tileIndex?_addTile_iff (h : d.Sound) (hnone : d.tileIndex? c = none) {c' : Coord} :
    (d.addTile c).tileIndex? c' = some n ↔ (d.addTile c).coords[n]? = some c' := by
  rw [tileIndex?_addTile, coords_addTile, getElem?_push_eq_some_iff, ← h.index_iff]
  by_cases heq : c' = c
  . -- an old tile has another coordinate than the new one
    subst heq
    simp [hnone, eq_comm]
  . simp [heq]

theorem lists_addTile (h : d.Sound) (hnone : d.tileIndex? c = none)
    (hc : d.target.contains c = true) {tile : Tile} (htile : tile ∈ (d.addTile c).tiles) :
    (d.addTile c).Lists tile := by
  rcases List.mem_append.mp htile with htile | htile
  . have hold := h.lists tile htile
    exact ⟨hold.contained, hold.role_eq, hold.locks_eq⟩
  . obtain rfl := List.mem_singleton.mp htile
    have hnil : (d.addTile c).locksAt c = [] := by
      apply locksAt_eq_nil
      rintro lock hlock rfl
      exact h.not_mem_coords hnone (h.housed lock hlock)
    refine ⟨hc, rfl, ?_⟩
    rw [hnil]
    rfl

theorem sound_addTile (h : d.Sound) (hnone : d.tileIndex? c = none)
    (hc : d.target.contains c = true) : (d.addTile c).Sound where
  index_sorted := Ordered.sorted_insert h.index_sorted
  index_iff := tileIndex?_addTile_iff h hnone
  lists := fun _ htile => lists_addTile h hnone hc htile
  housed := fun lock hlock => extends_addTile.coords.subset (h.housed lock hlock)
  paired := fun x hx => extends_addTile.coords.subset (h.paired x hx)
  ids_nodup := h.ids_nodup
  id_lt := h.id_lt

variable {lock : Lock}

theorem coords_addLock : (d.addLock n lock).coords = d.coords := by
  unfold coords addLock
  apply List.ext_getElem?
  intro i
  rw [List.getElem?_map, List.getElem?_map, List.getElem?_modify]
  cases d.tiles[i]? with
  | none => rfl
  | some tile =>
    show some (if n = i then _ else tile : Tile).coord = some tile.coord
    split <;> rfl

theorem locksAt_addLock : (d.addLock n lock).locksAt c =
    d.locksAt c ++ if lock.tile = c then [(d.locks.length, lock)] else [] := by
  unfold locksAt addLock
  dsimp only
  rw [List.zipIdx_append, List.filter_append, List.map_append, Nat.zero_add, List.zipIdx_singleton]
  congr 1
  split <;> simp [*]

theorem lockIds_addLock : (d.addLock n lock).lockIds c =
    d.lockIds c ++ if lock.tile = c then [lock.id] else [] := by
  rw [← map_id_locksAt, ← map_id_locksAt, locksAt_addLock, List.map_append]
  congr 1
  split <;> rfl

theorem extends_addLock : d.Extends (d.addLock n lock) where
  target := rfl
  policy := rfl
  coords := coords_addLock (d := d) ▸ List.prefix_refl _
  locks := List.prefix_append _ _
  buffers := List.prefix_refl _
  pairs := List.prefix_refl _

/--
The lock is listed by the tile that it is on, and by no other one.
-/
theorem lists_addLock (h : d.Sound) (hn : d.coords[n]? = some lock.tile) {tile : Tile}
    (htile : tile ∈ (d.addLock n lock).tiles) : (d.addLock n lock).Lists tile := by
  obtain ⟨i, hi⟩ := List.getElem?_of_mem htile
  unfold addLock at hi
  dsimp only at hi
  rw [List.getElem?_modify] at hi
  obtain ⟨old, hold, rfl⟩ := Option.map_eq_some_iff.mp hi
  have hlists := h.lists old (List.mem_of_getElem? hold)
  have hcoord : d.coords[i]? = some old.coord := by
    unfold coords
    rw [List.getElem?_map, hold]
    rfl
  split
  . next heq =>
    subst heq
    rw [hcoord] at hn
    refine ⟨hlists.contained, hlists.role_eq, ?_⟩
    dsimp only
    rw [locksAt_addLock, if_pos (Option.some.inj hn).symm, List.map_append, hlists.locks_eq]
    rfl
  . next hne =>
    have hother : lock.tile ≠ old.coord := by
      intro heq
      rw [heq] at hn
      exact hne (h.index_inj hn hcoord)
    refine ⟨hlists.contained, hlists.role_eq, ?_⟩
    rw [locksAt_addLock, if_neg hother, List.append_nil]
    exact hlists.locks_eq

theorem sound_addLock (h : d.Sound) (hn : d.coords[n]? = some lock.tile)
    (hid : lock.id ∉ d.lockIds lock.tile)
    (hlt : lock.id < (d.target.budgetAt lock.tile).locks) : (d.addLock n lock).Sound where
  index_sorted := h.index_sorted
  index_iff := by
    intro c n
    rw [coords_addLock]
    exact h.index_iff
  lists := fun _ htile => lists_addLock h hn htile
  housed := by
    intro l hl
    rw [coords_addLock]
    rcases List.mem_append.mp hl with hl | hl
    . exact h.housed l hl
    . rw [List.mem_singleton.mp hl]
      exact List.mem_of_getElem? hn
  paired := by
    intro x hx
    rw [coords_addLock]
    exact h.paired x hx
  ids_nodup := by
    intro c
    rw [lockIds_addLock]
    split
    . next htile =>
      subst htile
      exact nodup_push (h.ids_nodup lock.tile) hid
    . rw [List.append_nil]
      exact h.ids_nodup c
  id_lt := by
    intro l hl
    rcases List.mem_append.mp hl with hl | hl
    . exact h.id_lt l hl
    . rw [List.mem_singleton.mp hl]
      exact hlt

end Device

end TileTraffic
