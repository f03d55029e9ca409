import TileTraffic.Proofs.Device.Pairs
import TileTraffic.Proofs.Device.Placement
import TileTraffic.Proofs.Positions

/-!
Room in shared memory. Placement takes the bytes of a declaration from the tile that it puts it on,
so that no tile has to hold more than it can. What a shared buffer is given room by is the last
declaration of its name, and that is where its home is. What it is set up from is the first one.
-/

namespace TileTraffic

/--
Weights add up to no more than other weights, if different keys are matched by entries of these keys
that weigh no less.
-/
theorem sum_map_le_of_keys {α β κ : Type} (key : α → κ) (key' : β → κ) {w : α → Nat} {w' : β → Nat}
    {as : List α} {bs : List β} (hkeys : (as.map key).Nodup)
    (h : ∀ a ∈ as, ∃ b ∈ bs, key' b = key a ∧ w a ≤ w' b) : (as.map w).sum ≤ (bs.map w').sum := by
  induction as generalizing bs with
  | nil => exact Nat.zero_le _
  | cons a as ih =>
    rw [List.map_cons, List.nodup_cons] at hkeys
    obtain ⟨hnew, hkeys⟩ := hkeys
    obtain ⟨b, hb, hkey, hle⟩ := h a List.mem_cons_self
    obtain ⟨before, after, rfl⟩ := List.append_of_mem hb
    have hrest : (as.map w).sum ≤ ((before ++ after).map w').sum := by
      apply ih hkeys
      intro c hc
      obtain ⟨b', hb', hkey', hle'⟩ := h c (List.mem_cons_of_mem a hc)
      refine ⟨b', ?_, hkey', hle'⟩
      -- the match of another key is another entry
      have hne : b' ≠ b := by
        rintro rfl
        apply hnew
        rw [← hkey, hkey']
        exact List.mem_map_of_mem hc
      simpa [hne] using hb'
    simp only [List.map_append, List.map_cons, List.sum_append, List.sum_cons] at hrest ⊢
    omega

theorem sum_filter_push {α : Type} (q : α → Bool) (w : α → Nat) (as : List α) (a : α) :
    (((as ++ [a]).filter q).map w).sum = ((as.filter q).map w).sum + if q a then w a else 0 := by
  rw [List.filter_append, List.map_append, List.sum_append]
  by_cases h : q a
  . simp [h]
  . simp [h]

namespace BufferDecl

def size (b : BufferDecl) : Nat :=
  b.shape.prod * b.elementBytes

theorem bytes?_eq_some {b : BufferDecl} {n : Nat} (h : b.bytes? = some n) : n = b.size := by
  obtain ⟨m, hm, hn⟩ := Option.bind_eq_some_iff.mp h
  obtain ⟨_, rfl⟩ := fit?_eq_some_iff.mp hn
  rw [((product?_eq_some_iff one_lt_word64).mp hm).2, size]

end BufferDecl

def Buffer.size (b : Buffer) : Nat :=
  b.shape.prod * b.elementBytes

/--
A declaration that has been placed, and the tile on which it was.
-/
abbrev Placement := BufferDecl × Coord

/--
The bytes that are taken up on a tile.
-/
def Placement.load (placed : List Placement) (tile : Coord) : Nat :=
  ((placed.filter fun x => x.2 = tile).map fun x => x.1.size).sum

theorem Placement.load_push (placed : List Placement) (x : Placement) (tile : Coord) :
    load (placed ++ [x]) tile = load placed tile + if x.2 = tile then x.1.size else 0 := by
  unfold load
  rw [sum_filter_push]
  simp

namespace SharedMemory

variable {t : Target} {m m' : SharedMemory} {buffer : String} {bytes capacity : Nat} {tile : Coord}
  {placed : List Placement}

theorem search_eq_ok {left : Nat} (h : place.search buffer bytes left m = .ok tile m') :
    ∃ (i : Nat) (bin : Bin), m.bins[i]? = some bin ∧ bin.tile = tile ∧ bytes ≤ bin.free ∧
      m'.bins = m.bins.set i ⟨tile, bin.free - bytes⟩ := by
  induction left generalizing m with
  | zero => cases h
  | succ left ih =>
    unfold place.search at h
    obtain ⟨_, _, hget, h⟩ := run_bind_eq_ok h
    obtain ⟨rfl, rfl⟩ := EStateM.Result.ok.inj hget
    obtain ⟨bin, _, hrun, h⟩ := run_bind_eq_ok h
    obtain ⟨hbin, rfl⟩ := run_ofExcept_eq_ok hrun
    obtain ⟨next, _, hrun, h⟩ := run_bind_eq_ok h
    obtain ⟨_, rfl⟩ := run_ofExcept_eq_ok hrun
    split at h
    . obtain ⟨_, _, hset, h⟩ := run_bind_eq_ok h
      obtain ⟨_, rfl⟩ := EStateM.Result.ok.inj hset
      obtain ⟨i, found, hfound⟩ := ih h
      exact ⟨i, found, hfound⟩
    . next hroom =>
      obtain ⟨_, _, hset, h⟩ := run_bind_eq_ok h
      obtain ⟨_, rfl⟩ := EStateM.Result.ok.inj hset
      obtain ⟨rfl, rfl⟩ := EStateM.Result.ok.inj h
      exact ⟨m.cursor, bin, elementAt_eq_ok hbin, rfl, by omega, rfl⟩

theorem place_eq_ok (h : place buffer bytes m = .ok tile m') :
    ∃ (i : Nat) (bin : Bin), m.bins[i]? = some bin ∧ bin.tile = tile ∧ bytes ≤ bin.free ∧
      m'.bins = m.bins.set i ⟨tile, bin.free - bytes⟩ := by
  unfold place at h
  split at h
  . cases h
  . exact search_eq_ok h

/--
On every tile, what is free and what is taken up come to the capacity, and buffers have been placed
on these tiles only.
-/
structure Balanced (capacity : Nat) (placed : List Placement) (m : SharedMemory) : Prop where
  tiles_nodup : (m.bins.map Bin.tile).Nodup
  room : ∀ bin ∈ m.bins, bin.free + Placement.load placed bin.tile = capacity
  placed_mem : ∀ x ∈ placed, x.2 ∈ m.bins.map Bin.tile

theorem sharedTiles_nodup (t : Target) : t.sharedTiles.Nodup := by
  apply nodup_grid
  intro c r c' r' heq
  obtain ⟨hcol, hrow⟩ := Coord.mk.inj heq
  exact ⟨hcol, Nat.succ.inj hrow⟩

theorem balanced_ofTarget (t : Target) : (ofTarget t).Balanced t.sharedTileBytes [] where
  tiles_nodup := by
    have htiles : (ofTarget t).bins.map Bin.tile = t.sharedTiles := by
      simp [ofTarget, Function.comp_def]
    rw [htiles]
    exact sharedTiles_nodup t
  room := by
    intro bin hbin
    obtain ⟨tile, _, rfl⟩ := List.mem_map.mp hbin
    rfl
  placed_mem := by
    intro x hx
    cases hx

theorem map_tile_set (bins : List Bin) {i : Nat} (hi : i < bins.length) (free : Nat) :
    (bins.set i ⟨bins[i].tile, free⟩).map Bin.tile = bins.map Bin.tile := by
  rw [List.map_set]
  apply List.ext_getElem
  . simp
  . intro j hj hj'
    rw [List.getElem_set]
    split
    . next heq => simp [heq]
    . rfl

theorem Balanced.tile_ne (h : m.Balanced capacity placed) {i j : Nat} (hi : i < m.bins.length)
    (hj : j < m.bins.length) (hne : i ≠ j) : m.bins[i].tile ≠ m.bins[j].tile := by
  intro heq
  apply hne
  apply (List.getElem?_inj (by simpa using hi) h.tiles_nodup).mp
  rw [List.getElem?_map, List.getElem?_map, List.getElem?_eq_getElem hi,
    List.getElem?_eq_getElem hj, Option.map_some, Option.map_some, heq]

theorem Balanced.place {b : BufferDecl} (h : m.Balanced capacity placed)
    (hok : place b.name b.size m = .ok tile m') : m'.Balanced capacity (placed ++ [(b, tile)]) := by
  obtain ⟨i, bin, hbin, rfl, hfits, hbins⟩ := place_eq_ok hok
  obtain ⟨hlt, rfl⟩ := List.getElem?_eq_some_iff.mp hbin
  have htiles : m'.bins.map Bin.tile = m.bins.map Bin.tile := by
    rw [hbins]
    exact map_tile_set m.bins hlt _
  constructor
  . rw [htiles]
    exact h.tiles_nodup
  . intro bin' hbin'
    rw [Placement.load_push]
    rw [hbins] at hbin'
    obtain ⟨j, hj, rfl⟩ := List.mem_iff_getElem.mp hbin'
    rw [List.getElem_set]
    rw [List.length_set] at hj
    have hroom := h.room m.bins[j] (List.getElem_mem hj)
    split
    . next heq =>
      subst heq
      dsimp only
      rw [if_pos rfl]
      omega
    . next hne =>
      rw [if_neg (h.tile_ne hlt hj hne)]
      exact hroom
  . intro x hx
    rw [htiles]
    rcases List.mem_append.mp hx with hx | hx
    . exact h.placed_mem x hx
    . rw [List.mem_singleton.mp hx]
      exact List.mem_map_of_mem (List.getElem_mem hlt)

/--
No tile has to hold more than it can.
-/
theorem Balanced.load_le (h : m.Balanced capacity placed) (tile : Coord) :
    Placement.load placed tile ≤ capacity := by
  by_cases htile : tile ∈ m.bins.map Bin.tile
  . obtain ⟨bin, hbin, rfl⟩ := List.mem_map.mp htile
    have := h.room bin hbin
    omega
  . have hnone : (placed.filter fun x => x.2 = tile) = [] := by
      rw [List.filter_eq_nil_iff]
      intro x hx heq
      apply htile
      rw [← of_decide_eq_true heq]
      exact h.placed_mem x hx
    unfold Placement.load
    rw [hnone]
    exact Nat.zero_le _

end SharedMemory

namespace Graph

/--
The declaration that a shared buffer is given room by: the last one of its name.
-/
def placing? (g : Graph) (name : String) : Option BufferDecl :=
  g.buffers.reverse.find? fun b => b.level = .shared ∧ b.name = name

end Graph

namespace Device

variable {g : Graph} {d d' : Device} {m m' : SharedMemory} {placed : List Placement}

/--
The homes of buffers, in the order in which they were placed.
-/
def homesOf (placed : List Placement) : List (String × Coord) :=
  placed.map fun x => (x.1.name, x.2)

theorem place_eq_ok {b : BufferDecl} {s : Device × SharedMemory}
    (h : placeShared.place (d, m) b = .ok s) :
    ∃ tile, s.1 = d.setHome b.name tile ∧ SharedMemory.place b.name b.size m = .ok tile s.2 := by
  unfold placeShared.place at h
  split at h
  . cases h
  . next bytes hbytes =>
    obtain rfl := BufferDecl.bytes?_eq_some hbytes
    dsimp only at h
    split at h
    . next tile m' hplace =>
      obtain rfl := Except.ok.inj h
      exact ⟨tile, rfl, hplace⟩
    . cases h

theorem placeAll_eq_ok {bs : List BufferDecl} {s : Device × SharedMemory}
    (h : bs.foldlM placeShared.place (d, SharedMemory.ofTarget d.target) = .ok s) :
    ∃ placed, placed.map Prod.fst = bs ∧ s.1.homes = (homesOf placed).reverse ++ d.homes ∧
      s.2.Balanced d.target.sharedTileBytes placed := by
  refine foldlM_eq_ok (fun done (s : Device × SharedMemory) => ∃ placed,
    placed.map Prod.fst = done ∧ s.1.homes = (homesOf placed).reverse ++ d.homes ∧
      s.2.Balanced d.target.sharedTileBytes placed) h ?_ ?_
  . exact ⟨[], rfl, rfl, SharedMemory.balanced_ofTarget d.target⟩
  . rintro done b _ ⟨d₁, m₁⟩ ⟨d₂, m₂⟩ _ ⟨placed, rfl, hhomes, hbalanced⟩ hstep
    obtain ⟨tile, hset, hplace⟩ := place_eq_ok hstep
    dsimp only at hhomes hset hplace ⊢
    refine ⟨placed ++ [(b, tile)], by simp, ?_, hbalanced.place hplace⟩
    rw [hset, setHome, hhomes]
    simp [homesOf]

theorem exists_of_lookup_homesOf {name : String} {tile : Coord}
    (h : (homesOf placed).lookup name = some tile) :
    ∃ b, (b, tile) ∈ placed ∧ (placed.map Prod.fst).find? (fun b => b.name = name) = some b := by
  induction placed with
  | nil => cases h
  | cons x placed ih =>
    rw [homesOf, List.map_cons, List.lookup_cons] at h
    split at h
    . next heq =>
      obtain rfl := Option.some.inj h
      refine ⟨x.1, List.mem_cons_self, ?_⟩
      rw [List.map_cons, List.find?_cons_of_pos (by simpa using (beq_iff_eq.mp heq).symm)]
    . next hne =>
      obtain ⟨b, hb, hfind⟩ := ih h
      refine ⟨b, List.mem_cons_of_mem x hb, ?_⟩
      have hname : x.1.name ≠ name := fun heq => by simp [heq] at hne
      rw [List.map_cons, List.find?_cons_of_neg (by simpa using hname)]
      exact hfind

/--
The home of a shared buffer is where the last declaration of its name was placed, and the tiles had
room for all that was placed on them.
-/
theorem placeShared_eq_ok (h : d.placeShared g = .ok d') (hd : d.homes = []) :
    ∃ placed, (∀ name tile, d'.home? name = some tile →
        ∃ last, g.placing? name = some last ∧ (last, tile) ∈ placed) ∧
      ∀ tile, Placement.load placed tile ≤ d.target.sharedTileBytes := by
  unfold placeShared at h
  obtain ⟨⟨d₁, m⟩, hfold, h⟩ := bind_eq_ok h
  obtain rfl := Except.ok.inj h
  obtain ⟨placed, hfst, hhomes, hbalanced⟩ := placeAll_eq_ok hfold
  refine ⟨placed, ?_, hbalanced.load_le⟩
  intro name tile hhome
  dsimp only at hhomes
  rw [home?, hhomes, hd, List.append_nil, homesOf, ← List.map_reverse] at hhome
  obtain ⟨last, hlast, hfind⟩ := exists_of_lookup_homesOf hhome
  refine ⟨last, ?_, List.mem_reverse.mp hlast⟩
  rw [List.map_reverse, hfst, ← List.filter_reverse, List.find?_filter] at hfind
  -- the name is one that is used, since a declaration of it was placed
  have hused := List.find?_some hfind
  simp only [Bool.decide_and, Bool.and_eq_true, decide_eq_true_eq] at hused
  obtain ⟨⟨_, hused⟩, rfl⟩ := hused
  rw [Graph.placing?, ← hfind]
  congr 1
  funext b
  by_cases hname : b.name = last.name
  . simp [hname, hused]
  . simp [hname]

/-! ### What buffers are set up from -/

/--
The buffer of an op on a channel, and its key, from its declaration.
-/
def bufferOf (decl : BufferDecl) (w : Allocation × Occurrence) : BufferKey × Buffer :=
  let (key, tile) := bufferKey decl.name w.1.level w.2.ref w.1.key.tile
  (key, ⟨key.symbol, decl.name, decl.level, decl.shape, decl.elementBytes, tile⟩)

/--
The buffer was set up for one of the ops that have been done, from the declaration that counts.
-/
def SetUp (g : Graph) (work : List (Allocation × Occurrence)) (x : BufferKey × Buffer) : Prop :=
  ∃ w ∈ work, ∃ access decl, w.2.op.accessAt? w.1.level = some access ∧
    g.buffer? access.buffer = some decl ∧ x = bufferOf decl w

theorem SetUp.mono {work work' : List (Allocation × Occurrence)} {x : BufferKey × Buffer}
    (h : SetUp g work x) (hwork : work ⊆ work') : SetUp g work' x := by
  obtain ⟨w, hw, hx⟩ := h
  exact ⟨w, hwork hw, hx⟩

theorem mem_buffers_intern {key : BufferKey} {decl : BufferDecl} {tile : Option Coord}
    {x : BufferKey × Buffer} (h : x ∈ (d.intern key decl tile).2.buffers) : x ∈ d.buffers ∨
      x = (key, ⟨key.symbol, decl.name, decl.level, decl.shape, decl.elementBytes, tile⟩) := by
  unfold intern at h
  split at h
  . exact .inl h
  . rcases List.mem_append.mp h with h | h
    . exact .inl h
    . exact .inr (List.mem_singleton.mp h)

theorem mem_buffers_bindBuffer {a : Allocation} {occ : Occurrence} {n : Nat}
    (h : d.bindBuffer g a occ = .ok (n, d')) {x : BufferKey × Buffer} (hx : x ∈ d'.buffers) :
    x ∈ d.buffers ∨ SetUp g [(a, occ)] x := by
  unfold bindBuffer at h
  split at h
  . cases h
  . next access haccess =>
    split at h
    . cases h
    . next decl hdecl =>
      have hd' := (Prod.mk.inj (Except.ok.inj h)).2
      rw [← hd'] at hx
      rcases mem_buffers_intern hx with hx | hx
      . exact .inl hx
      . exact .inr ⟨(a, occ), by simp, access, decl, haccess, hdecl, hx⟩

theorem guardOp_setUp {bindings : Bindings} {work : List (Allocation × Occurrence)}
    {w : Allocation × Occurrence} {s : Device × Bindings} (hd : ∀ x ∈ d.buffers, SetUp g work x)
    (h : guardOp g (d, bindings) w = .ok s) : ∀ x ∈ s.1.buffers, SetUp g (work ++ [w]) x := by
  unfold guardOp at h
  dsimp only at h
  obtain ⟨⟨_, d₁⟩, htile, h⟩ := bind_eq_ok h
  obtain ⟨⟨n, d₂⟩, hbind, h⟩ := bind_eq_ok h
  obtain ⟨⟨pair, d₃⟩, hpair, h⟩ := bind_eq_ok h
  obtain rfl := Except.ok.inj h
  obtain ⟨tiles, index, rfl⟩ := tile_eq_ok (attempt_eq_ok htile)
  have hbuffers : d₃.buffers = d₂.buffers := by
    rcases lockPair_eq_ok (attempt_eq_ok hpair) with ⟨_, rfl⟩ | ⟨_, _, _, _, _, rfl⟩
    . rfl
    . rfl
  intro x hx
  rw [hbuffers] at hx
  rcases mem_buffers_bindBuffer hbind hx with hx | hx
  . exact (hd x hx).mono (List.subset_append_left work [w])
  . exact hx.mono (List.subset_append_right work [w])

theorem guardAll_setUp {as : List Allocation} {s : Device × Bindings} (hd : d.buffers = [])
    (h : d.guardAll g as = .ok s) : ∀ x ∈ s.1.buffers, SetUp g (workOf as) x := by
  refine foldlM_eq_ok (fun done (s : Device × Bindings) => ∀ x ∈ s.1.buffers, SetUp g done x) h
    ?_ ?_
  . simp [hd]
  . intro done w _ s s' _ hs hstep
    exact guardOp_setUp hs hstep

end Device

end TileTraffic
