import TileTraffic.Graph.Replicate
import TileTraffic.Proofs.Lists
import TileTraffic.Proofs.Positions

/-!
Replication of an op over a region. The number of cells, the positions that are counted through and
the check of a position against the region agree for every extent: each cell gets one instance, row
by row, and none is refused.
-/

namespace TileTraffic

/--
Counting through a grid with the first coordinate running fastest goes through it row by row.
-/
theorem map_range_mul {α : Type} (f : Nat → Nat → α) (cols rows : Nat) :
    (List.range (cols * rows)).map (fun n => f (n % cols) (n / cols)) =
      (List.range rows).flatMap fun y => (List.range cols).map fun x => f x y := by
  induction rows with
  | zero => simp
  | succ rows ih =>
    rw [Nat.mul_succ, List.range_add, List.map_append, ih, List.range_succ, List.flatMap_append,
      List.flatMap_singleton, List.map_map]
    congr 1
    apply List.map_congr_left
    intro x hx
    have hlt := List.mem_range.mp hx
    rw [Function.comp_apply, Nat.mul_add_mod, Nat.mod_eq_of_lt hlt, Nat.mul_add_div (by omega),
      Nat.div_eq_of_lt hlt, Nat.add_zero]

namespace Region

variable {r : Region} {n : Nat}

/--
The tiles of a region, row by row.
-/
def tiles (r : Region) : List Coord :=
  (List.range r.rows).flatMap fun y => (List.range r.cols).map fun x => ⟨r.col + x, r.row + y⟩

theorem mem_tiles_iff {c : Coord} :
    c ∈ r.tiles ↔ ∃ x < r.cols, ∃ y < r.rows, c = ⟨r.col + x, r.row + y⟩ := by
  simp only [tiles, List.mem_flatMap, List.mem_map, List.mem_range]
  constructor
  . rintro ⟨y, hy, x, hx, rfl⟩
    exact ⟨x, hx, y, hy, rfl⟩
  . rintro ⟨x, hx, y, hy, rfl⟩
    exact ⟨y, hy, x, hx, rfl⟩

theorem tiles_nodup (r : Region) : r.tiles.Nodup := by
  apply nodup_grid
  intro x y x' y' heq
  obtain ⟨hcol, hrow⟩ := Coord.mk.inj heq
  exact ⟨Nat.add_left_cancel hcol, Nat.add_left_cancel hrow⟩

/--
The cells that are counted are all inside the region.
-/
theorem tileAt?_position (hn : n < r.cols * r.rows) :
    r.tileAt? (position r.size n) = some ⟨r.col + n % r.cols, r.row + n / r.cols⟩ := by
  have hcols : 0 < r.cols := Nat.pos_of_mul_pos_right (Nat.zero_lt_of_lt hn)
  have hrows : n / r.cols < r.rows := Nat.div_lt_of_lt_mul hn
  have hx : n % max r.cols 1 = n % r.cols := by rw [Nat.max_eq_left hcols]
  have hy : n / max r.cols 1 % max r.rows 1 = n / r.cols := by
    rw [Nat.max_eq_left hcols, Nat.max_eq_left (Nat.zero_lt_of_lt hrows), Nat.mod_eq_of_lt hrows]
  simp [tileAt?, size, position, hx, hy, Nat.mod_lt n hcols, hrows]

theorem map_tileAt?_position (r : Region) :
    (List.range (r.cols * r.rows)).map (fun n => r.tileAt? (position r.size n)) =
      r.tiles.map some := by
  have htiles : r.tiles = (List.range (r.cols * r.rows)).map fun n =>
      ⟨r.col + n % r.cols, r.row + n / r.cols⟩ :=
    (map_range_mul (fun x y => (⟨r.col + x, r.row + y⟩ : Coord)) r.cols r.rows).symm
  rw [htiles, List.map_map]
  apply List.map_congr_left
  intro n hn
  exact tileAt?_position (List.mem_range.mp hn)

/--
The number of cells fits a word, just as the number of columns does.
-/
theorem product?_size_eq_some_iff :
    product? word32 r.size = some n ↔
      (r.cols < word32 ∧ r.cols * r.rows < word32) ∧ n = r.cols * r.rows := by
  have hprefixes : (∀ k, (r.size.take k).prod < word32) ↔
      r.cols < word32 ∧ r.cols * r.rows < word32 := by
    constructor
    . intro hall
      exact ⟨by simpa [size] using hall 1, by simpa [size] using hall 2⟩
    . rintro ⟨hcols, hcells⟩ k
      match k with
      | 0 => exact one_lt_word32
      | 1 => simpa [size] using hcols
      | k + 2 => simpa [size] using hcells
  rw [product?_eq_some_iff one_lt_word32, hprefixes]
  simp [size]

end Region

/--
The op is an instance of `op` in some cell of a region: a half of a movement has its cell as channel
index, a copy keeps its indices, and all else is as in `op`.
-/
structure Op.InstanceOf (i op : Op) (region : String) : Prop where
  region_eq : i.region = some region
  half : op.movement.channel? ≠ none → i.spatialIndex = some i.indices
  copy : op.movement.channel? = none → i.indices = op.indices
  rest : i = { op with region := i.region, spatialIndex := i.spatialIndex, indices := i.indices }

theorem Op.instanceOf_instanceAt (op : Op) (region : String) (index : List Nat) :
    (op.instanceAt region index).InstanceOf op region where
  region_eq := rfl
  half := by
    intro hhalf
    simp [instanceAt, Option.isSome_iff_ne_none, hhalf]
  copy := by
    intro hcopy
    simp [instanceAt, hcopy]
  rest := rfl

namespace Graph

variable {g g' : Graph} {op : Op} {region : String} {refs : List Nat}

/--
The graph `g'` is `g` with one instance of the op for every cell of the region, behind the ops that
were there.
-/
structure Replicated (g g' : Graph) (op : Op) (region : String) (refs : List Nat) (r : Region)
    (instances : List Op) : Prop where
  found : g.region? region = some r
  cells_lt : r.cols * r.rows < word32
  appended : g' = { g with ops := g.ops ++ instances }
  length_eq : instances.length = r.cols * r.rows
  refs_eq : refs = List.range' g.ops.length (r.cols * r.rows)
  instances_of : ∀ i ∈ instances, i.InstanceOf op region
  row_by_row : instances.map (fun i => i.spatialIndex.bind r.tileAt?) = r.tiles.map some
  tiles_nodup : r.tiles.Nodup
  mem_tiles : ∀ c, c ∈ r.tiles ↔ ∃ x < r.cols, ∃ y < r.rows, c = ⟨r.col + x, r.row + y⟩

theorem replicated {r : Region} (hfound : g.region? region = some r)
    (hcells : r.cols * r.rows < word32) :
    let instances := (List.range (r.cols * r.rows)).map fun n =>
      op.instanceAt region (position r.size n)
    Replicated g { g with ops := g.ops ++ instances } op region
      (List.range' g.ops.length (r.cols * r.rows)) r instances where
  found := hfound
  cells_lt := hcells
  appended := rfl
  length_eq := by simp
  refs_eq := rfl
  instances_of := by
    intro i hi
    obtain ⟨n, _, rfl⟩ := List.mem_map.mp hi
    exact op.instanceOf_instanceAt region _
  row_by_row := by
    rw [List.map_map, ← r.map_tileAt?_position]
    rfl
  tiles_nodup := r.tiles_nodup
  mem_tiles := fun _ => Region.mem_tiles_iff

/--
An op is replicated over all cells of a region, or the graph stays as it is: where there is no such
region, and where its cells, or its columns alone, are too many to be counted in a word.
-/
theorem replicate_covers (g : Graph) (op : Op) (region : String) :
    match replicate op region g with
    | .ok refs g' => ∃ r instances, Replicated g g' op region refs r instances
    | .error e g' => g' = g ∧
        (g.region? region = none ∧ e = .graph (.unknownRegion region) ∨
          ∃ r, g.region? region = some r ∧ (word32 ≤ r.cols ∨ word32 ≤ r.cols * r.rows) ∧
            e = .graph (.regionCells region)) := by
  unfold replicate
  cases hregion : g.region? region with
  | none => exact ⟨rfl, .inl ⟨rfl, rfl⟩⟩
  | some r =>
    dsimp only
    cases hproduct : product? word32 r.size with
    | none =>
      refine ⟨rfl, .inr ⟨r, rfl, ?_, rfl⟩⟩
      by_contra hfits
      rw [not_or, Nat.not_le, Nat.not_le] at hfits
      cases hproduct.symm.trans (Region.product?_size_eq_some_iff.mpr ⟨hfits, rfl⟩)
    | some cells =>
      obtain ⟨⟨_, hcells⟩, rfl⟩ := Region.product?_size_eq_some_iff.mp hproduct
      exact ⟨r, _, replicated hregion hcells⟩

end Graph

end TileTraffic
