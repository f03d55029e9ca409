import TileTraffic.Descriptor.Chain
import TileTraffic.Proofs.Ordered

/-!
Channels, tile by tile. The tiles are those that have channels, and under each of them stand its own
channels; both are in order. So it makes no difference in which order the channels are given.
-/

namespace TileTraffic

namespace Allocation

variable {as as' : List Allocation} {tile : Coord}

/--
The channels of a tile, in order.
-/
def channelsOn (tile : Coord) (as : List Allocation) : List Allocation :=
  Ordered.ofList key (as.filter fun a => a.key.tile = tile)

theorem sorted_channelsOn (tile : Coord) (as : List Allocation) :
    Ordered.Sorted key (channelsOn tile as) :=
  Ordered.sorted_ofList ..

theorem channelsOn_perm (h : (as.map key).Nodup) (tile : Coord) :
    (channelsOn tile as).Perm (as.filter fun a => a.key.tile = tile) :=
  Ordered.ofList_perm ((List.filter_sublist.map key).nodup h)

theorem mem_channelsOn (h : (as.map key).Nodup) {a : Allocation} :
    a ∈ channelsOn tile as ↔ a ∈ as ∧ a.key.tile = tile := by
  rw [(channelsOn_perm h tile).mem_iff, List.mem_filter, decide_eq_true_eq]

theorem channelsOn_eq_of_perm (h : (as.map key).Nodup) (hperm : as'.Perm as) (tile : Coord) :
    channelsOn tile as' = channelsOn tile as := by
  have h' : (as'.map key).Nodup := ((hperm.map key).nodup_iff).mpr h
  apply (sorted_channelsOn tile as').eq_of_perm (sorted_channelsOn tile as)
  calc channelsOn tile as'
    List.Perm _ (as'.filter fun a => a.key.tile = tile) := channelsOn_perm h' tile
    List.Perm _ (as.filter fun a => a.key.tile = tile) := hperm.filter _
    List.Perm _ (channelsOn tile as) := (channelsOn_perm h tile).symm

/-! ### Grouping -/

/--
One channel more is put among the channels of its tile, and among no others.
-/
theorem channelsOn_push (a : Allocation) :
    channelsOn tile (as ++ [a]) =
      if tile = a.key.tile then Ordered.insert key a (channelsOn tile as)
      else channelsOn tile as := by
  unfold channelsOn Ordered.ofList
  rw [List.filter_append, List.foldl_append]
  by_cases h : tile = a.key.tile
  . simp [h]
  . simp [h, Ne.symm h]

theorem channelsOn_eq_nil (h : tile ∉ as.map fun a => a.key.tile) : channelsOn tile as = [] := by
  have hnone : (as.filter fun a => a.key.tile = tile) = [] := by
    rw [List.filter_eq_nil_iff]
    intro a ha
    simp only [decide_eq_true_eq]
    rintro rfl
    exact h (List.mem_map_of_mem ha)
  unfold channelsOn
  rw [hnone]
  rfl

/--
The channels that have been filed, and no others, are found under their tiles.
-/
structure Grouped (as : List Allocation) (tiles : List (Coord × List Allocation)) : Prop where
  sorted : Ordered.Sorted Prod.fst tiles
  lookup_eq : ∀ tile, tiles.lookup tile =
    if tile ∈ as.map fun a => a.key.tile then some (channelsOn tile as) else none

theorem Grouped.getD_lookup {tiles : List (Coord × List Allocation)} (h : Grouped as tiles)
    (tile : Coord) : (tiles.lookup tile).getD [] = channelsOn tile as := by
  rw [h.lookup_eq]
  split
  . rfl
  . next hnot => exact (channelsOn_eq_nil hnot).symm

theorem Grouped.file {tiles : List (Coord × List Allocation)} (h : Grouped as tiles)
    (a : Allocation) : Grouped (as ++ [a]) (file tiles a) where
  sorted := Ordered.sorted_insert h.sorted
  lookup_eq := by
    intro tile
    unfold Allocation.file
    rw [Ordered.lookup_insert, h.getD_lookup, h.lookup_eq, channelsOn_push]
    by_cases heq : tile = a.key.tile
    . simp [heq]
    . simp [heq]

theorem grouped_byTile (as : List Allocation) : Grouped as (byTile as) := by
  unfold byTile
  suffices hall : ∀ rest done tiles, as = done ++ rest → Grouped done tiles →
      Grouped as (rest.foldl Allocation.file tiles) by
    exact hall as [] [] rfl ⟨.nil, fun _ => rfl⟩
  intro rest
  induction rest with
  | nil =>
    intro done tiles has h
    rw [has, List.append_nil]
    exact h
  | cons a rest ih =>
    intro done tiles has h
    exact ih (done ++ [a]) _ (by simp [has]) (h.file a)

/--
The tiles that have channels, each with its channels.
-/
theorem byTile_eq (as : List Allocation) :
    byTile as =
      (Ordered.ofList id (as.map fun a => a.key.tile)).map fun tile =>
        (tile, channelsOn tile as) := by
  have hsorted := Ordered.sorted_ofList id (as.map fun a => a.key.tile)
  have hmem : ∀ tile, tile ∈ Ordered.ofList id (as.map fun a => a.key.tile) ↔
      tile ∈ as.map fun a => a.key.tile := fun _ => Ordered.mem_ofList_id
  generalize Ordered.ofList id (as.map fun a => a.key.tile) = tiles at hsorted hmem ⊢
  have hsorted' : Ordered.Sorted Prod.fst (tiles.map fun tile => (tile, channelsOn tile as)) :=
    List.pairwise_map.mpr hsorted
  have hgrouped := grouped_byTile as
  apply hgrouped.sorted.eq_of_lookup_eq hsorted'
  intro tile
  rw [hgrouped.lookup_eq]
  split
  . next h =>
    symm
    rw [lookup_eq_some_iff_mem hsorted'.nodup]
    exact List.mem_map.mpr ⟨tile, (hmem tile).mpr h, rfl⟩
  . next h =>
    symm
    rw [List.lookup_eq_none_iff]
    intro x hx
    obtain ⟨tile', htile', rfl⟩ := List.mem_map.mp hx
    rw [bne_iff_ne]
    rintro rfl
    exact h ((hmem _).mp htile')

/--
Channels that are listed in another order are grouped in the same way.
-/
theorem byTile_eq_of_perm (h : (as.map key).Nodup) (hperm : as'.Perm as) :
    byTile as' = byTile as := by
  have htiles : Ordered.ofList id (as'.map fun a => a.key.tile) =
      Ordered.ofList id (as.map fun a => a.key.tile) := by
    apply (Ordered.sorted_ofList id _).eq_of_mem_iff (Ordered.sorted_ofList id _)
    intro tile
    rw [Ordered.mem_ofList_id, Ordered.mem_ofList_id, (hperm.map _).mem_iff]
  rw [byTile_eq, byTile_eq, htiles]
  apply List.map_congr_left
  intro tile _
  rw [channelsOn_eq_of_perm h hperm]

end Allocation

namespace Device

theorem synthesize_eq (d : Device) (bindings : Bindings) (as : List Allocation) :
    d.synthesize bindings as =
      (Ordered.ofList id (as.map fun a => a.key.tile)).mapM fun tile =>
        d.tileProgram bindings tile (Allocation.channelsOn tile as) := by
  unfold synthesize
  rw [Allocation.byTile_eq, List.mapM_map]
  rfl

end Device

end TileTraffic
