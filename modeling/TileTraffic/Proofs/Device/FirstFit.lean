import Mathlib.Data.List.Rotate
import TileTraffic.Proofs.Device.Room
import TileTraffic.Proofs.History

/-!
Placement takes the first tile with room, going round from behind the tile that was chosen last. The
cursor moves while the search goes on. A search that fails has tried every tile once, and so has
brought the cursor back to where it was.
-/

namespace TileTraffic

/--
A buffer of some size is to be placed.
-/
structure PlaceCall where
  buffer : String
  bytes : Nat
  deriving DecidableEq, Repr

namespace SharedMemory

variable {t : Target} {m m' : SharedMemory} {buffer : String} {bytes left : Nat} {tile : Coord}
  {placed : List (PlaceCall × Coord)} {c : PlaceCall}

/-! ### Going round -/

/--
Take bytes from the bin at a position, and leave the cursor behind it.
-/
def takeFrom (m : SharedMemory) (i : Nat) (bin : Bin) (bytes : Nat) : SharedMemory :=
  ⟨m.bins.set i ⟨bin.tile, bin.free - bytes⟩, (i + 1) % m.bins.length⟩

theorem search_succ (h : m.cursor < m.bins.length) :
    place.search buffer bytes (left + 1) m =
      if m.bins[m.cursor].free < bytes then
        place.search buffer bytes left { m with cursor := (m.cursor + 1) % m.bins.length }
      else
        .ok m.bins[m.cursor].tile (m.takeFrom m.cursor m.bins[m.cursor] bytes) := by
  have hbin : elementAt m.bins m.cursor = .ok m.bins[m.cursor] :=
    elementAt_of_getElem? (List.getElem?_eq_getElem h)
  have hnext : m.next = .ok ((m.cursor + 1) % m.bins.length) := by
    unfold next remainder
    rw [if_pos (Nat.zero_lt_of_lt h)]
  have hget : (get : EStateM CompileError SharedMemory SharedMemory) m = .ok m m := rfl
  rw [place.search, run_bind_of_eq_ok hget, run_bind_of_eq_ok (run_ofExcept hbin),
    run_bind_of_eq_ok (run_ofExcept hnext)]
  split <;> rfl

/--
What a search over some more bins comes to, by the first of them with room.
-/
inductive Searched (m : SharedMemory) (buffer : String) (bytes left : Nat) :
    Option Bin → EStateM.Result CompileError SharedMemory Coord → Prop
  | found {i : Nat} {bin : Bin} (hbin : m.bins[i]? = some bin) :
    Searched m buffer bytes left (some bin) (.ok bin.tile (m.takeFrom i bin bytes))
  | failed :
    Searched m buffer bytes left none (.error (.capacity (.sharedMemory buffer bytes))
      { m with cursor := (m.cursor + left) % m.bins.length })

/--
The bin at the cursor has no room, so that the search goes on behind it.
-/
theorem Searched.behind {first : Option Bin}
    {result : EStateM.Result CompileError SharedMemory Coord}
    (h : Searched { m with cursor := (m.cursor + 1) % m.bins.length } buffer bytes left first
      result) : Searched m buffer bytes (left + 1) first result := by
  cases h with
  | found hbin => exact .found hbin
  | failed =>
    dsimp only
    rw [Nat.mod_add_mod, Nat.add_assoc, Nat.add_comm 1 left]
    exact .failed

/--
The bin at the cursor is tried first, then those behind it, round to where it started.
-/
theorem search_searched (buffer : String) (bytes : Nat) (hcursor : m.cursor < m.bins.length)
    (hleft : left ≤ m.bins.length) :
    Searched m buffer bytes left
      (((m.bins.rotate m.cursor).take left).find? fun bin => bytes ≤ bin.free)
      (place.search buffer bytes left m) := by
  induction left generalizing m with
  | zero =>
    have hfailed : Searched m buffer bytes 0 none (place.search buffer bytes 0 { m with
        cursor := (m.cursor + 0) % m.bins.length }) := .failed
    rw [Nat.add_zero, Nat.mod_eq_of_lt hcursor] at hfailed
    exact hfailed
  | succ left ih =>
    obtain ⟨rest, hround⟩ : ∃ rest, m.bins.rotate m.cursor = m.bins[m.cursor] :: rest := by
      rw [← List.head?_eq_some_iff, List.head?_rotate hcursor, List.getElem?_eq_getElem hcursor]
    have hrest : left ≤ rest.length := by
      have hlength := congrArg List.length hround
      rw [List.length_rotate, List.length_cons] at hlength
      omega
    rw [search_succ hcursor, hround, List.take_succ_cons, List.find?_cons]
    by_cases hroom : m.bins[m.cursor].free < bytes
    . rw [if_pos hroom, decide_eq_false (Nat.not_le_of_lt hroom)]
      dsimp only
      -- the bin at the cursor is the last one of the round that starts behind it
      have hround' : m.bins.rotate ((m.cursor + 1) % m.bins.length) =
          rest ++ [m.bins[m.cursor]] := by
        rw [List.rotate_mod, ← List.rotate_rotate, hround, List.rotate_cons_succ, List.rotate_zero]
      have hsearched := ih (m := { m with cursor := (m.cursor + 1) % m.bins.length })
        (Nat.mod_lt _ (Nat.zero_lt_of_lt hcursor)) (Nat.le_of_succ_le hleft)
      dsimp only at hsearched
      rw [hround', List.take_append_of_le_length hrest] at hsearched
      exact hsearched.behind
    . rw [if_neg hroom, decide_eq_true (Nat.le_of_not_lt hroom)]
      exact .found (List.getElem?_eq_getElem hcursor)

/-! ### What has been placed -/

def placing (c : PlaceCall) : EStateM CompileError SharedMemory Coord :=
  place c.buffer c.bytes

/--
The bytes that have been placed on a tile.
-/
def bytesOn (placed : List (PlaceCall × Coord)) (tile : Coord) : Nat :=
  ((placed.filter fun x => x.2 = tile).map fun x => x.1.bytes).sum

theorem bytesOn_push (placed : List (PlaceCall × Coord)) (c : PlaceCall) (tile tile' : Coord) :
    bytesOn (placed ++ [(c, tile)]) tile' =
      bytesOn placed tile' + if tile = tile' then c.bytes else 0 := by
  unfold bytesOn
  rw [sum_filter_push]
  simp

def room (t : Target) (placed : List (PlaceCall × Coord)) (tile : Coord) : Nat :=
  t.sharedTileBytes - bytesOn placed tile

/--
The position behind the tile that was chosen last, or that of the first tile.
-/
def start (t : Target) (placed : List (PlaceCall × Coord)) : Nat :=
  placed.getLast?.elim 0 fun x => t.sharedTiles.idxOf x.2 + 1

/--
The shared memory tiles in cyclic order, from the one behind the tile that was chosen last.
-/
def order (t : Target) (placed : List (PlaceCall × Coord)) : List Coord :=
  t.sharedTiles.rotate (start t placed)

/--
The memory of a target on which buffers have been placed.
-/
structure Holds (t : Target) (placed : List (PlaceCall × Coord)) (m : SharedMemory) : Prop where
  bins_eq : m.bins = t.sharedTiles.map fun tile => ⟨tile, room t placed tile⟩
  cursor_eq : m.cursor = start t placed % t.sharedTiles.length
  bytesOn_le : ∀ tile, bytesOn placed tile ≤ t.sharedTileBytes

theorem holds_ofTarget (t : Target) : Holds t [] (ofTarget t) where
  bins_eq := rfl
  cursor_eq := (Nat.zero_mod _).symm
  bytesOn_le := fun _ => Nat.zero_le _

namespace Holds

theorem length_bins (h : Holds t placed m) : m.bins.length = t.sharedTiles.length := by
  rw [h.bins_eq, List.length_map]

theorem rotate_bins (h : Holds t placed m) :
    m.bins.rotate m.cursor = (order t placed).map fun tile => ⟨tile, room t placed tile⟩ := by
  unfold order
  rw [h.bins_eq, h.cursor_eq, ← List.map_rotate, List.rotate_mod]

/--
One more buffer is taken from the bin at a position that has room for it.
-/
theorem takeFrom (h : Holds t placed m) {i : Nat} {bin : Bin} (hbin : m.bins[i]? = some bin)
    (hroom : c.bytes ≤ bin.free) :
    Holds t (placed ++ [(c, bin.tile)]) (m.takeFrom i bin c.bytes) := by
  rw [h.bins_eq, List.getElem?_map, Option.map_eq_some_iff] at hbin
  obtain ⟨tile, htile, rfl⟩ := hbin
  dsimp only at hroom ⊢
  obtain ⟨hi, rfl⟩ := List.getElem?_eq_some_iff.mp htile
  unfold room at hroom
  constructor
  . unfold SharedMemory.takeFrom room
    dsimp only
    rw [h.bins_eq]
    apply List.ext_getElem
    . simp
    . intro j hj hj'
      simp only [List.length_map] at hj'
      rw [List.getElem_set, List.getElem_map, List.getElem_map, bytesOn_push]
      by_cases heq : i = j
      . subst heq
        rw [if_pos rfl, if_pos rfl, Nat.sub_sub]
      . have hne : t.sharedTiles[i] ≠ t.sharedTiles[j] := fun hsame =>
          heq ((sharedTiles_nodup t).getElem_inj_iff.mp hsame)
        rw [if_neg heq, if_neg hne, Nat.add_zero]
        rfl
  . show (i + 1) % m.bins.length = _
    rw [h.length_bins, start, List.getLast?_concat, Option.elim_some,
      (sharedTiles_nodup t).idxOf_getElem i hi]
  . intro tile'
    have hle := h.bytesOn_le tile'
    rw [bytesOn_push]
    split
    . next heq =>
      rw [heq] at hroom
      omega
    . exact hle

end Holds

/--
What becomes of a buffer, by the first tile with room for it.
-/
inductive FirstFit (t : Target) (placed : List (PlaceCall × Coord)) (m : SharedMemory)
    (c : PlaceCall) : Option Coord → EStateM.Result CompileError SharedMemory Coord → Prop
  | chosen {tile : Coord} {m' : SharedMemory} (hholds : Holds t (placed ++ [(c, tile)]) m') :
    FirstFit t placed m c (some tile) (.ok tile m')
  | refused (e : CompileError) : FirstFit t placed m c none (.error e m)

theorem FirstFit.of_ok {first : Option Coord} (h : FirstFit t placed m c first (.ok tile m')) :
    first = some tile ∧ Holds t (placed ++ [(c, tile)]) m' := by
  cases h with
  | chosen hholds => exact ⟨rfl, hholds⟩

theorem FirstFit.of_error {first : Option Coord} {e : CompileError}
    (h : FirstFit t placed m c first (.error e m')) : first = none ∧ m' = m := by
  cases h
  exact ⟨rfl, rfl⟩

theorem Holds.firstFit (h : Holds t placed m) (c : PlaceCall) :
    FirstFit t placed m c ((order t placed).find? fun tile => c.bytes ≤ room t placed tile)
      (placing c m) := by
  unfold placing place
  split
  . next hempty =>
    have horder : order t placed = [] := by
      have hbins : m.bins = [] := by simpa using hempty
      have hround := h.rotate_bins
      rw [hbins, List.rotate_nil] at hround
      exact List.map_eq_nil_iff.mp hround.symm
    rw [horder]
    exact .refused _
  . next hne =>
    have hpos : 0 < m.bins.length := by
      apply List.length_pos_iff.mpr
      simpa using hne
    have hcursor : m.cursor < m.bins.length := by
      rw [h.cursor_eq, ← h.length_bins]
      exact Nat.mod_lt _ hpos
    have hsearched := search_searched c.buffer c.bytes hcursor (Nat.le_refl _)
    have hall : (m.bins.rotate m.cursor).take m.bins.length = m.bins.rotate m.cursor :=
      List.take_of_length_le (Nat.le_of_eq (List.length_rotate ..))
    rw [hall, h.rotate_bins, List.find?_map] at hsearched
    have hfits : ((fun bin : Bin => decide (c.bytes ≤ bin.free)) ∘ fun tile =>
        ⟨tile, room t placed tile⟩) = fun tile => decide (c.bytes ≤ room t placed tile) := rfl
    generalize place.search c.buffer c.bytes m.bins.length m = result at hsearched ⊢
    cases hfirst : (order t placed).find? fun tile => c.bytes ≤ room t placed tile with
    | none =>
      rw [hfits, hfirst, Option.map_none] at hsearched
      cases hsearched with
      | failed =>
        rw [Nat.add_mod_right, Nat.mod_eq_of_lt hcursor]
        exact .refused _
    | some tile =>
      rw [hfits, hfirst, Option.map_some] at hsearched
      have hroom := List.find?_some hfirst
      cases hsearched with
      | found hbin => exact .chosen (h.takeFrom hbin (of_decide_eq_true hroom))

theorem Holds.placing_eq_ok (h : Holds t placed m) (hok : placing c m = .ok tile m') :
    ((order t placed).find? fun tile => c.bytes ≤ room t placed tile) = some tile ∧
      Holds t (placed ++ [(c, tile)]) m' := by
  have hfit := h.firstFit c
  rw [hok] at hfit
  exact hfit.of_ok

theorem Holds.placing_eq_error (h : Holds t placed m) {e : CompileError}
    (herror : placing c m = .error e m') :
    ((order t placed).find? fun tile => c.bytes ≤ room t placed tile) = none ∧ m' = m := by
  have hfit := h.firstFit c
  rw [herror] at hfit
  exact hfit.of_error

/--
What has been placed, after any number of calls.
-/
def placedBy (t : Target) (calls : List PlaceCall) : List (PlaceCall × Coord) :=
  History.grants placing (ofTarget t) calls

def afterPlacing (t : Target) (calls : List PlaceCall) : SharedMemory :=
  History.afterAll placing (ofTarget t) calls

theorem holds_afterPlacing (t : Target) (calls : List PlaceCall) :
    Holds t (placedBy t calls) (afterPlacing t calls) := by
  refine History.grants_invariant (I := fun placed m => Holds t placed m) (holds_ofTarget t) ?_ ?_
    calls
  . intro placed m c tile m' h hok
    exact (h.placing_eq_ok hok).2
  . intro placed m c e m' h herror
    rw [(h.placing_eq_error herror).2]
    exact h

theorem Holds.free?_eq (h : Holds t placed m) (htile : tile ∈ t.sharedTiles) :
    m.free? tile = some (room t placed tile) := by
  have htiles : ((fun bin : Bin => decide (bin.tile = tile)) ∘ fun tile' =>
      ⟨tile', room t placed tile'⟩) = fun tile' => decide (tile' = tile) := rfl
  unfold free?
  rw [h.bins_eq, List.find?_map, htiles, find?_eq_self htile]
  rfl

/--
The tile has room for the buffer.
-/
def Fits (m : SharedMemory) (c : PlaceCall) (tile : Coord) : Prop :=
  ∃ free, m.free? tile = some free ∧ c.bytes ≤ free

theorem Holds.fits_iff (h : Holds t placed m) (htile : tile ∈ t.sharedTiles) :
    m.Fits c tile ↔ c.bytes ≤ room t placed tile := by
  unfold Fits
  rw [h.free?_eq htile]
  constructor
  . rintro ⟨free, hfree, hle⟩
    obtain rfl := Option.some.inj hfree
    exact hle
  . intro hle
    exact ⟨_, rfl, hle⟩

/--
The bytes of every tile are those that are free and those that have been placed on it. A buffer is
placed if some tile has room for it, and then on the first such tile in cyclic order from behind the
tile that was chosen last. Otherwise free bytes and cursor stay as they are.
-/
structure FirstFitting (t : Target) (placed : List (PlaceCall × Coord)) (m : SharedMemory) :
    Prop where
  balanced : ∀ tile ∈ t.sharedTiles, ∃ free, m.free? tile = some free ∧
    bytesOn placed tile + free = t.sharedTileBytes
  placed_iff : ∀ c, (∃ tile m', placing c m = .ok tile m') ↔ ∃ tile ∈ t.sharedTiles, m.Fits c tile
  first : ∀ c tile m', placing c m = .ok tile m' → ∃ earlier later,
    order t placed = earlier ++ tile :: later ∧ m.Fits c tile ∧ ∀ tile' ∈ earlier, ¬ m.Fits c tile'
  kept : ∀ c e m', placing c m = .error e m' → m' = m

theorem mem_order : tile ∈ order t placed ↔ tile ∈ t.sharedTiles :=
  List.mem_rotate

theorem Holds.firstFitting (h : Holds t placed m) : FirstFitting t placed m where
  balanced := by
    intro tile htile
    refine ⟨_, h.free?_eq htile, ?_⟩
    have hle := h.bytesOn_le tile
    unfold room
    omega
  placed_iff := by
    intro c
    have hfits : (∃ tile ∈ t.sharedTiles, m.Fits c tile) ↔
        ((order t placed).find? fun tile => c.bytes ≤ room t placed tile).isSome := by
      rw [List.find?_isSome]
      constructor
      . rintro ⟨tile, htile, hfits⟩
        exact ⟨tile, mem_order.mpr htile, decide_eq_true ((h.fits_iff htile).mp hfits)⟩
      . rintro ⟨tile, hmem, hroom⟩
        have htile := mem_order.mp hmem
        exact ⟨tile, htile, (h.fits_iff htile).mpr (of_decide_eq_true hroom)⟩
    rw [hfits]
    cases hplacing : placing c m with
    | ok tile m' =>
      rw [(h.placing_eq_ok hplacing).1]
      exact ⟨fun _ => rfl, fun _ => ⟨tile, m', rfl⟩⟩
    | error e m' =>
      rw [(h.placing_eq_error hplacing).1]
      simp
  first := by
    intro c tile m' hok
    obtain ⟨hroom, earlier, later, horder, hearlier⟩ :=
      List.find?_eq_some_iff_append.mp (h.placing_eq_ok hok).1
    have hmem : ∀ tile' ∈ earlier ++ tile :: later, tile' ∈ t.sharedTiles := by
      rw [← horder]
      exact fun tile' => mem_order.mp
    refine ⟨earlier, later, horder, ?_, ?_⟩
    . exact (h.fits_iff (hmem tile (by simp))).mpr (of_decide_eq_true hroom)
    . intro tile' htile'
      rw [h.fits_iff (hmem tile' (by simp [htile']))]
      simpa using hearlier tile' htile'
  kept := by
    intro c e m' herror
    exact (h.placing_eq_error herror).2

/--
Whatever has been placed, and whatever has been refused, buffers are placed by first fit from behind
the tile that was chosen last.
-/
theorem firstFitting_afterPlacing (t : Target) (calls : List PlaceCall) :
    FirstFitting t (placedBy t calls) (afterPlacing t calls) :=
  (holds_afterPlacing t calls).firstFitting

end SharedMemory

end TileTraffic
