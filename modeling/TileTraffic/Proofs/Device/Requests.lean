import TileTraffic.Proofs.Device.Pairs
import TileTraffic.Proofs.History

/-!
Devices under any use. Whatever tiles, locks, buffers, homes and lock pairs are asked for, in whatever
order and whether they are granted or refused, the tiles and their locks agree, buffers are interned
once, and what has been given out keeps its position. A lock that is not asked for by its id gets the
lowest id that is free, and is refused only if there is none.
-/

namespace TileTraffic

/--
What can be asked of a device.
-/
inductive DeviceRequest where
  | tile (c : Coord)
  | lock (c : Coord) (init : Int) (id : Option Nat)
  | buffer (key : BufferKey) (decl : BufferDecl) (tile : Option Coord)
  | home (buffer : String) (tile : Coord)
  | pair (buffer : Nat) (channel : ChannelKey) (id : Option Nat)
  deriving DecidableEq, Repr

/--
The coordinate of the tile that a request is for, where it is for one.
-/
def DeviceRequest.coord? : DeviceRequest → Option Coord
  | .tile c => some c
  | .lock c _ _ => some c
  | .pair _ channel _ => some channel.tile
  | _ => none

namespace Device

open History

variable {d d' : Device} {c : Coord} {n : Nat} {r : DeviceRequest}

def request : DeviceRequest → EStateM CompileError Device Unit
  | .tile c => do
    let _ ← tile c
  | .lock c init id => do
    let _ ← allocateLock c init id
  | .buffer key decl tile => modify fun d => (d.intern key decl tile).2
  | .home buffer tile => modify fun d => d.setHome buffer tile
  | .pair buffer channel id => do
    let _ ← lockPair buffer channel id

/-! ### The tiles of a device, as they are listed -/

theorem map_fst_index (h : d.Sound) : d.sortedTiles = d.index.map Prod.fst := by
  unfold sortedTiles tilesInOrder
  rw [List.map_filterMap]
  apply filterMap_eq_map_of_some
  intro (c, n) hmem
  have hn : d.tileIndex? c = some n := lookup_of_mem h.index_sorted.nodup hmem
  obtain ⟨tile, htile, hc, _⟩ := h.exists_tile hn
  dsimp only
  rw [htile, Option.map_some, hc]

theorem sorted_sortedTiles (h : d.Sound) : d.sortedTiles.Pairwise (· < ·) := by
  rw [map_fst_index h, List.pairwise_map]
  exact h.index_sorted

theorem mem_sortedTiles (h : d.Sound) : c ∈ d.sortedTiles ↔ c ∈ d.coords := by
  rw [map_fst_index h]
  constructor
  . intro hc
    obtain ⟨⟨c, n⟩, hmem, rfl⟩ := List.mem_map.mp hc
    exact h.mem_coords (lookup_of_mem h.index_sorted.nodup hmem)
  . intro hc
    obtain ⟨n, hn⟩ := h.exists_index hc
    obtain ⟨before, after, heq, _⟩ := List.lookup_eq_some_iff.mp hn
    rw [heq]
    simp

theorem mem_tilesInOrder (h : d.Sound) {tile : Tile} : tile ∈ d.tilesInOrder ↔ tile ∈ d.tiles := by
  unfold tilesInOrder
  rw [List.mem_filterMap]
  constructor
  . intro ⟨x, _, hx⟩
    exact List.mem_of_getElem? hx
  . intro htile
    obtain ⟨n, hn⟩ := List.getElem?_of_mem htile
    have hcoord : d.coords[n]? = some tile.coord := by
      unfold coords
      rw [List.getElem?_map, hn]
      rfl
    obtain ⟨before, after, heq, _⟩ := List.lookup_eq_some_iff.mp (h.index_iff.mpr hcoord)
    exact ⟨(tile.coord, n), by simp [heq], hn⟩

theorem tilesInOrder_perm (h : d.Sound) : d.tilesInOrder.Perm d.tiles := by
  have hcoords : d.sortedTiles.Nodup := by
    rw [map_fst_index h]
    exact h.index_sorted.nodup
  have hne : ∀ tile tile' : Tile, tile.coord ≠ tile'.coord → tile ≠ tile' :=
    fun _ _ hne heq => hne (congrArg Tile.coord heq)
  apply (List.perm_ext_iff_of_nodup _ _).mpr fun _ => mem_tilesInOrder h
  . exact List.Pairwise.of_map _ hne hcoords
  . exact List.Pairwise.of_map _ hne h.coords_nodup

/--
The ids of the locks that the tile at `c` lists.
-/
def idsOn (d : Device) (c : Coord) : List Nat :=
  (d.locksOn c).filterMap fun n => d.locks[n]?.map Lock.id

theorem locksOn_eq (h : d.Sound) (c : Coord) : d.locksOn c = (d.locksAt c).map Prod.fst := by
  unfold locksOn
  cases hindex : d.tileIndex? c with
  | some n =>
    obtain ⟨tile, htile, rfl, hlists⟩ := h.exists_tile hindex
    rw [Option.bind_some, htile]
    exact hlists.locks_eq
  | none =>
    have hnil : d.locksAt c = [] := by
      apply locksAt_eq_nil
      rintro lock hlock rfl
      exact h.not_mem_coords hindex (h.housed lock hlock)
    rw [hnil]
    rfl

theorem idsOn_eq (h : d.Sound) (c : Coord) : d.idsOn c = d.lockIds c := by
  unfold idsOn
  rw [locksOn_eq h, List.filterMap_map, ← map_id_locksAt]
  apply filterMap_eq_map_of_some
  intro (n, lock) hmem
  show d.locks[n]?.map Lock.id = some lock.id
  rw [(mem_locksAt.mp hmem).1]
  rfl

theorem length_locksOn (h : d.Sound) (c : Coord) : (d.locksOn c).length = (d.idsOn c).length := by
  rw [idsOn_eq h, locksOn_eq h, ← map_id_locksAt, List.length_map, List.length_map]

/--
A lock is listed once, by the tile whose coordinate it carries.
-/
theorem count_locksOn (h : d.Sound) (c : Coord) (n : Nat) :
    (d.locksOn c).count n = if (d.locks[n]?.map Lock.tile) = some c then 1 else 0 := by
  rw [locksOn_eq h, (nodup_places d c).count]
  congr 1
  apply propext
  rw [List.mem_map, Option.map_eq_some_iff]
  constructor
  . rintro ⟨⟨n, lock⟩, hmem, rfl⟩
    exact ⟨lock, mem_locksAt.mp hmem⟩
  . intro ⟨lock, hlock⟩
    exact ⟨(n, lock), mem_locksAt.mpr hlock, rfl⟩

theorem idsOn_nodup (h : d.Sound) (c : Coord) : (d.idsOn c).Nodup := by
  rw [idsOn_eq h]
  exact h.ids_nodup c

theorem lt_of_mem_idsOn (h : d.Sound) {id : Nat} (hid : id ∈ d.idsOn c) :
    id < (d.target.budgetAt c).locks := by
  rw [idsOn_eq h] at hid
  obtain ⟨lock, hlock, rfl⟩ := List.mem_map.mp hid
  obtain ⟨hmem, htile⟩ := List.mem_filter.mp hlock
  rw [← of_decide_eq_true htile]
  exact h.id_lt lock hmem

theorem length_idsOn_le (h : d.Sound) (c : Coord) :
    (d.idsOn c).length ≤ (d.target.budgetAt c).locks := by
  -- the ids are different numbers below the budget
  have hsubset : d.idsOn c ⊆ List.range (d.target.budgetAt c).locks := by
    intro id hid
    exact List.mem_range.mpr (lt_of_mem_idsOn h hid)
  have hle := (idsOn_nodup h c).length_le_of_subset hsubset
  rwa [List.length_range] at hle

theorem exists_free_iff (h : d.Sound) (c : Coord) :
    (∃ id < (d.target.budgetAt c).locks, id ∉ d.idsOn c) ↔
      (d.idsOn c).length < (d.target.budgetAt c).locks := by
  constructor
  . intro ⟨id, hlt, hfree⟩
    -- the free id is one more number below the budget
    have hnodup : (id :: d.idsOn c).Nodup := List.nodup_cons.mpr ⟨hfree, idsOn_nodup h c⟩
    have hsubset : id :: d.idsOn c ⊆ List.range (d.target.budgetAt c).locks := by
      intro other hother
      rw [List.mem_range]
      rcases List.mem_cons.mp hother with rfl | hother
      . exact hlt
      . exact lt_of_mem_idsOn h hother
    have hle := hnodup.length_le_of_subset hsubset
    rwa [List.length_range] at hle
  . intro hlt
    apply Classical.byContradiction
    intro hnone
    have hsubset : List.range (d.target.budgetAt c).locks ⊆ d.idsOn c := by
      intro id hid
      apply Classical.byContradiction
      intro hfree
      exact hnone ⟨id, List.mem_range.mp hid, hfree⟩
    have hle := List.nodup_range.length_le_of_subset hsubset
    rw [List.length_range] at hle
    omega

/-! ### Locks without an id of their own -/

theorem tile_of_contains (hc : d.target.contains c = true) : ∃ n d', tile c d = .ok n d' := by
  unfold tile
  split
  . exact ⟨_, d, rfl⟩
  . rw [if_pos hc]
    exact ⟨_, _, rfl⟩

theorem newLock_none (d : Device) (c : Coord) (n : Nat) (role : Role) (used : List Nat)
    (init : Int) :
    newLock c n role used init none d =
      match firstBelow (d.target.budget role).locks fun n => n ∉ used with
      | some id => .ok (d.locks.length, ⟨c, id, init⟩) (d.addLock n ⟨c, id, init⟩)
      | none => .error (.capacity (.locks role c (d.target.budget role).locks)) d := by
  unfold newLock
  dsimp only
  cases hfirst : firstBelow (d.target.budget role).locks fun n => n ∉ used with
  | some id => exact if_pos (firstBelow_eq_some hfirst).1
  | none => exact if_neg (Nat.lt_irrefl _)

/--
On the grid, a lock that is not asked for by its id gets the first one that the tile does not list.
-/
theorem allocateLock_none (h : d.Sound) (hc : d.target.contains c = true) (init : Int) :
    ∃ n d', allocateLock c init none d =
      match firstBelow (d.target.budgetAt c).locks fun id => id ∉ d.idsOn c with
      | some id => .ok (d.locks.length, ⟨c, id, init⟩) (d'.addLock n ⟨c, id, init⟩)
      | none =>
        .error (.capacity (.locks (d.target.roleOfRow c.row) c (d.target.budgetAt c).locks)) d' := by
  obtain ⟨n, d', htile⟩ := tile_of_contains hc
  refine ⟨n, d', ?_⟩
  rw [allocateLock_eq h, run_bind_of_eq_ok htile, idsOn_eq h]
  obtain ⟨tiles, index, rfl⟩ := tile_eq_ok htile
  exact newLock_none ..

theorem allocateLock_of_full (h : d.Sound) (hc : d.target.contains c = true) (init : Int)
    (hfull : (d.locksOn c).length = (d.target.budgetAt c).locks) :
    ∃ d', allocateLock c init none d = .error
      (.capacity (.locks (d.target.roleOfRow c.row) c (d.target.budgetAt c).locks)) d' := by
  obtain ⟨n, d', heq⟩ := allocateLock_none h hc init
  refine ⟨d', ?_⟩
  rw [heq]
  cases hfirst : firstBelow (d.target.budgetAt c).locks fun id => id ∉ d.idsOn c with
  | none => rfl
  | some id =>
    obtain ⟨hlt, hfree⟩ := firstBelow_eq_some hfirst
    have hless := (exists_free_iff h c).mp ⟨id, hlt, of_decide_eq_true hfree⟩
    rw [length_locksOn h] at hfull
    omega

theorem allocateLock_of_lt (h : d.Sound) (hc : d.target.contains c = true) (init : Int)
    (hless : (d.locksOn c).length < (d.target.budgetAt c).locks) :
    ∃ id d', allocateLock c init none d = .ok (d.locks.length, ⟨c, id, init⟩) d' ∧
      id ∉ d.idsOn c ∧ ∀ m < id, m ∈ d.idsOn c := by
  rw [length_locksOn h] at hless
  obtain ⟨id, hlt, hfree⟩ := (exists_free_iff h c).mpr hless
  obtain ⟨first, hfirst⟩ := exists_firstBelow (p := fun id => decide (id ∉ d.idsOn c)) hlt
    (decide_eq_true hfree)
  obtain ⟨n, d', heq⟩ := allocateLock_none h hc init
  rw [hfirst] at heq
  refine ⟨first, _, heq, of_decide_eq_true (firstBelow_eq_some hfirst).2, fun m hm => ?_⟩
  simpa using firstBelow_least hfirst hm

/-! ### What a request does -/

theorem request_keeps (h : d.Sound) (hr : r.coord? = some c) :
    Keeps c (request r) d fun _ d' => c ∈ d'.coords := by
  cases r with
  | tile c =>
    obtain rfl := Option.some.inj hr
    apply (tile_keeps h c).bind
    intro _ d₁ h₁ _ hn
    exact Keeps.pure h₁ (h₁.mem_coords hn)
  | lock c init id =>
    obtain rfl := Option.some.inj hr
    apply (allocateLock_keeps h c init id).bind
    intro _ d₁ h₁ _ hc
    exact Keeps.pure h₁ hc
  | pair buffer channel id =>
    obtain rfl := Option.some.inj hr
    apply (lockPair_keeps h buffer channel id).bind
    intro _ d₁ h₁ _ hpair
    obtain ⟨pair, hpair⟩ := Option.isSome_iff_exists.mp hpair
    exact Keeps.pure h₁ (h₁.paired _ (mem_pairs_of_pair? hpair))
  | buffer key decl tile => cases hr
  | home buffer tile => cases hr

theorem after_request_of_coord? (h : d.Sound) (hr : r.coord? = some c) :
    Kept c d (after request d r) ∧
      (d.target.contains c = true → c ∈ (after request d r).coords) := by
  have hkeeps := request_keeps h hr
  unfold Keeps at hkeeps
  unfold after
  cases hrun : request r d with
  | ok a d' =>
    rw [hrun] at hkeeps
    exact ⟨hkeeps.1, fun _ => hkeeps.2⟩
  | error e d' =>
    rw [hrun] at hkeeps
    exact ⟨hkeeps.1, hkeeps.2.2⟩

/--
A device that has been used in any way from the start on.
-/
structure InUse (d : Device) : Prop where
  sound : d.Sound
  interned : d.Interned

theorem inUse_empty (t : Target) (policy : LockPolicy) : (empty t policy).InUse where
  sound := sound_empty t policy
  interned := ⟨by simp [empty], by simp [empty]⟩

/--
A request adds to a device, and no tile but the one that it is for.
-/
theorem InUse.after (h : d.InUse) (r : DeviceRequest) :
    (after request d r).InUse ∧ d.Extends (after request d r) ∧
      ∀ c ∈ (after request d r).coords, r.coord? = some c ∨ c ∈ d.coords := by
  cases hr : r.coord? with
  | some c =>
    obtain ⟨hkept, _⟩ := after_request_of_coord? h.sound hr
    refine ⟨⟨hkept.sound, h.interned.of_buffers_eq hkept.buffers_eq⟩, hkept.ext, fun c' hc' => ?_⟩
    rcases hkept.coords c' hc' with rfl | hold
    . exact .inl rfl
    . exact .inr hold
  | none =>
    cases r with
    | buffer key decl tile =>
      obtain ⟨hsound, hext, _⟩ := intern_spec h.sound key decl tile
      refine ⟨⟨hsound, (intern_interned h.interned key decl tile).1⟩, hext, fun c hc => .inr ?_⟩
      obtain ⟨buffers, heq⟩ := intern_eq (d := d) key decl tile
      have hcoords : (d.intern key decl tile).2.coords = d.coords := by
        rw [heq]
        rfl
      rw [← hcoords]
      exact hc
    | home buffer tile =>
      exact ⟨⟨h.sound.of_pairs h.sound.paired, h.interned.of_buffers_eq rfl⟩,
        ⟨rfl, rfl, List.prefix_refl _, List.prefix_refl _, List.prefix_refl _,
          List.prefix_refl _⟩, fun _ hc => .inr hc⟩
    | tile c => cases hr
    | lock c init id => cases hr
    | pair buffer channel id => cases hr

theorem InUse.mem_coords_after (h : d.InUse) (r : DeviceRequest) :
    c ∈ (History.after request d r).coords ↔
      c ∈ d.coords ∨ r.coord? = some c ∧ d.target.contains c = true := by
  obtain ⟨hafter, hext, hcoords⟩ := h.after r
  constructor
  . intro hc
    have hcontains := hafter.sound.contained hc
    rw [hext.target] at hcontains
    rcases hcoords c hc with hr | hold
    . exact .inr ⟨hr, hcontains⟩
    . exact .inl hold
  . rintro (hold | ⟨hr, hcontains⟩)
    . exact hext.coords.subset hold
    . exact (after_request_of_coord? h.sound hr).2 hcontains

/-! ### Any number of requests -/

theorem InUse.afterAll (h : d.InUse) (rs : List DeviceRequest) :
    (afterAll request d rs).InUse ∧ d.Extends (afterAll request d rs) := by
  apply afterAll_invariant (I := fun d' => d'.InUse ∧ d.Extends d')
  . exact ⟨h, .refl⟩
  . intro d' r ⟨h', hext⟩
    obtain ⟨hafter, hext', _⟩ := h'.after r
    exact ⟨hafter, hext.trans hext'⟩

theorem InUse.mem_coords_afterAll (h : d.InUse) (rs : List DeviceRequest) :
    c ∈ (History.afterAll request d rs).coords ↔
      c ∈ d.coords ∨ (∃ r ∈ rs, r.coord? = some c) ∧ d.target.contains c = true := by
  induction rs generalizing d with
  | nil => simp
  | cons r rs ih =>
    obtain ⟨hafter, hext, _⟩ := h.after r
    rw [afterAll_cons, ih hafter, h.mem_coords_after, hext.target]
    simp only [List.mem_cons, exists_eq_or_imp]
    constructor
    . rintro ((hold | ⟨hr, hc⟩) | ⟨hrs, hc⟩)
      . exact .inl hold
      . exact .inr ⟨.inl hr, hc⟩
      . exact .inr ⟨.inr hrs, hc⟩
    . rintro (hold | ⟨hr | hrs, hc⟩)
      . exact .inl (.inl hold)
      . exact .inl (.inr ⟨hr, hc⟩)
      . exact .inr ⟨hrs, hc⟩

/--
The tile with this coordinate is at this position, and stays there.
-/
def TileAt (d : Device) (c : Coord) (n : Nat) : Prop :=
  d.coords[n]? = some c ∧
    ∀ later, tile c (afterAll request d later) = .ok n (afterAll request d later)

theorem tileAt_of_tile (h : d.InUse) (hok : tile c d = .ok n d') : d'.TileAt c n := by
  obtain ⟨hkept, hn⟩ := (tile_keeps h.sound c).of_ok hok
  refine ⟨hkept.sound.index_iff.mp hn, fun later => ?_⟩
  have h' : d'.InUse := ⟨hkept.sound, h.interned.of_buffers_eq hkept.buffers_eq⟩
  obtain ⟨hafter, hext⟩ := h'.afterAll later
  have hlater := hext.tileIndex? h'.sound hafter.sound hn
  unfold tile
  rw [hlater]

theorem intern_of_getElem? (h : d.Interned) {key : BufferKey} {b : Buffer}
    (hn : d.buffers[n]? = some (key, b)) (decl : BufferDecl) (tile : Option Coord) :
    d.intern key decl tile = (n, d) := by
  have hfind : d.buffers.findIdx? (fun x => x.1 = key) = some n := by
    obtain ⟨hlt, heq⟩ := List.getElem?_eq_some_iff.mp hn
    rw [List.findIdx?_eq_some_iff_getElem]
    refine ⟨hlt, by simp [heq], ?_⟩
    -- an earlier buffer with the key would be the same one
    intro j hj hkey
    have hsame := h.index_inj (List.getElem?_eq_getElem (Nat.lt_trans hj hlt)) hn
      (of_decide_eq_true hkey)
    omega
  unfold intern
  rw [hfind]

/--
The buffer with this key is at this position, and stays there.
-/
def BufferAt (d : Device) (key : BufferKey) (n : Nat) : Prop :=
  (d.buffers[n]?.map Prod.fst) = some key ∧ ∀ later decl tile,
    (afterAll request d later).intern key decl tile = (n, afterAll request d later)

theorem bufferAt_of_intern (h : d.InUse) {key : BufferKey} {decl : BufferDecl}
    {tile : Option Coord} (hok : d.intern key decl tile = (n, d')) : d'.BufferAt key n := by
  obtain ⟨hinterned, _, b, hb⟩ := intern_interned h.interned key decl tile
  have hsound := (intern_spec h.sound key decl tile).1
  rw [hok] at hinterned hb hsound
  refine ⟨by rw [hb, Option.map_some], fun later decl' tile' => ?_⟩
  obtain ⟨hafter, hext⟩ := (InUse.mk hsound hinterned).afterAll later
  exact intern_of_getElem? hafter.interned (getElem?_of_isPrefix hext.buffers hb) decl' tile'

/--
The books of a device on a target, after some requests.
-/
structure Arena (t : Target) (rs : List DeviceRequest) (d : Device) : Prop where
  tiles_perm : d.tilesInOrder.Perm d.tiles
  tiles_sorted : d.sortedTiles.Pairwise (· < ·)
  /-- The tiles are those that have been asked for, where they are on the grid. -/
  mem_tiles : ∀ c, c ∈ d.sortedTiles ↔ (∃ r ∈ rs, r.coord? = some c) ∧ t.contains c = true
  role_eq : ∀ tile ∈ d.tiles, tile.role = t.roleOfRow tile.coord.row
  locks_eq : ∀ tile ∈ d.tiles, tile.locks = d.locksOn tile.coord
  /-- Every lock is listed once, by the tile whose coordinate it carries, and nothing else is. -/
  listed : ∀ c n, (d.locksOn c).count n = if d.locks[n]?.map Lock.tile = some c then 1 else 0
  ids_nodup : ∀ c, (d.idsOn c).Nodup
  id_lt : ∀ c, ∀ id ∈ d.idsOn c, id < (t.budgetAt c).locks
  keys_nodup : (d.buffers.map Prod.fst).Nodup
  /-- No tile has more locks than it can have. One that has as many refuses another one. -/
  full : ∀ c init, t.contains c = true → (t.budgetAt c).locks ≤ (d.locksOn c).length →
    (d.locksOn c).length = (t.budgetAt c).locks ∧ ∃ d', allocateLock c init none d =
      .error (.capacity (.locks (t.roleOfRow c.row) c (t.budgetAt c).locks)) d'
  /-- Any other tile grants it, with the lowest id that is free. -/
  lowest : ∀ c init, t.contains c = true → (d.locksOn c).length < (t.budgetAt c).locks →
    ∃ id d', allocateLock c init none d = .ok (d.locks.length, ⟨c, id, init⟩) d' ∧
      id ∉ d.idsOn c ∧ ∀ m < id, m ∈ d.idsOn c

/--
Devices keep their books in order, whatever is asked of them, and what they have given out stays
where it is.
-/
theorem arena_afterAll (t : Target) (policy : LockPolicy) (rs : List DeviceRequest) :
    (afterAll request (empty t policy) rs).Arena t rs ∧
      (∀ c n d', tile c (afterAll request (empty t policy) rs) = .ok n d' → d'.TileAt c n) ∧
      ∀ key decl home n d',
        (afterAll request (empty t policy) rs).intern key decl home = (n, d') →
        d'.BufferAt key n := by
  obtain ⟨h, hext⟩ := (inUse_empty t policy).afterAll rs
  have htarget : (afterAll request (empty t policy) rs).target = t := hext.target
  have hcoords := fun c => (inUse_empty t policy).mem_coords_afterAll (c := c) rs
  generalize afterAll request (empty t policy) rs = d at *
  subst htarget
  refine ⟨⟨tilesInOrder_perm h.sound, sorted_sortedTiles h.sound, ?_,
    fun tile htile => (h.sound.lists tile htile).role_eq, ?_, count_locksOn h.sound,
    idsOn_nodup h.sound, fun c id => lt_of_mem_idsOn h.sound, h.interned.keys_nodup, ?_, ?_⟩,
    ?_, ?_⟩
  . intro c
    rw [mem_sortedTiles h.sound, hcoords c]
    simp [empty, coords]
  . intro tile htile
    rw [locksOn_eq h.sound]
    exact (h.sound.lists tile htile).locks_eq
  . intro c init hc hle
    have hge := length_idsOn_le h.sound c
    rw [← length_locksOn h.sound] at hge
    have hfull := Nat.le_antisymm hge hle
    exact ⟨hfull, allocateLock_of_full h.sound hc init hfull⟩
  . exact fun c init hc hless => allocateLock_of_lt h.sound hc init hless
  . exact fun c n d' hok => tileAt_of_tile h hok
  . exact fun key decl home n d' hok => bufferAt_of_intern h hok

/--
An id that has been asked for leaves a gap, which is filled first. A third lock is too many, and no
tile is off the grid.
-/
theorem gen1_arena :
    let t : Target := { Target.gen1 4 4 with compute := ⟨2, 2, 16⟩ }
    let rs : List DeviceRequest := [.lock ⟨1, 2⟩ 0 (some 1), .home "near" ⟨1, 2⟩, .tile ⟨9, 2⟩,
      .lock ⟨1, 2⟩ 0 none, .tile ⟨0, 3⟩, .lock ⟨1, 2⟩ 0 none]
    let d := afterAll request (empty t .binary) rs
    d.Arena t rs ∧ d.idsOn ⟨1, 2⟩ = [1, 0] ∧ d.sortedTiles = [⟨0, 3⟩, ⟨1, 2⟩] :=
  ⟨(arena_afterAll _ .binary _).1, by decide, by decide⟩

end Device

end TileTraffic
