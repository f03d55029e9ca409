import TileTraffic.Proofs.Channel.Seats
import TileTraffic.Proofs.Device.Room
import TileTraffic.Proofs.Program.Locks
import TileTraffic.Proofs.Program.Order

/-!
Shared memory of a program. The buffers on a tile fit it, provided that no buffer takes more than it
was given room for. It may do so where a shared buffer is declared more than once: it is the first
declaration that it is set up from, and the last one that finds a tile for it.
-/

namespace TileTraffic

/--
The bytes that the shared buffers on a tile take.
-/
def Program.sharedBytes (p : Program) (tile : Coord) : Nat :=
  ((p.buffers.filter fun b => b.level = .shared ∧ b.tile = some tile).map Buffer.size).sum

namespace Graph

/--
No shared buffer takes more bytes than the declaration that it is given room by.
-/
def GivesRoom (g : Graph) : Prop :=
  ∀ first ∈ g.buffers, first.level = .shared → g.buffer? first.name = some first →
    ∀ last ∈ g.placing? first.name, first.size ≤ last.size

instance (g : Graph) : Decidable g.GivesRoom :=
  inferInstanceAs (Decidable (∀ first ∈ g.buffers, first.level = .shared →
    g.buffer? first.name = some first → ∀ last ∈ g.placing? first.name, first.size ≤ last.size))

theorem placing?_eq_some {g : Graph} {name : String} {b : BufferDecl}
    (h : g.placing? name = some b) : b ∈ g.buffers ∧ b.name = name := by
  have hfound := List.find?_some h
  simp only [decide_eq_true_eq] at hfound
  exact ⟨List.mem_reverse.mp (List.mem_of_find?_eq_some h), hfound.2⟩

/--
This is so where all buffers have different names.
-/
theorem givesRoom_of_nodup {g : Graph} (h : (g.buffers.map BufferDecl.name).Nodup) :
    g.GivesRoom := by
  intro first hfirst _ _ last hlast
  obtain ⟨hmem, hname⟩ := placing?_eq_some hlast
  obtain rfl := eq_of_nodup_map h hmem hfirst hname
  exact Nat.le_refl _

end Graph

namespace Built

variable {g : Graph} {t : Target} {p : Program} {bs : List Bundle} {d d' : Device} {a : Assignment}

/--
A shared buffer is one that ops access, at its home, with the size of the first declaration.
-/
theorem exists_shared (h : Built g t p bs d a) {x : BufferKey × Buffer}
    (hx : Device.SetUp g (Device.workOf p.channels) x) (hlevel : x.2.level = .shared) :
    ∃ name tile first, x.1 = .shared name ∧ x.2.tile = some tile ∧ d.home? name = some tile ∧
      g.buffer? name = some first ∧ first.level = .shared ∧ x.2.size = first.size := by
  obtain ⟨y, hy, occ, hocc, access, decl, haccess, hdecl, hsame, rfl⟩ := h.exists_use hx
  have hname : decl.name = access.buffer := by simpa using List.find?_some hdecl
  have hdeclLevel : decl.level = .shared := hlevel
  have hshared : y.level = .shared := hsame.symm.trans hdeclLevel
  have hopened := (h.opened hy).1
  rw [hshared] at hopened
  obtain ⟨bs₁, bs₂, hpasses⟩ := h.passes
  obtain ⟨access', haccess', hhome⟩ := hpasses.homeOf_shared hopened hocc
  rw [hshared, haccess'] at haccess
  obtain rfl := Option.some.inj haccess
  refine ⟨decl.name, y.key.tile, decl, ?_, ?_, ?_, ?_, hdeclLevel, rfl⟩
  . simp [Device.bufferOf, Device.bufferKey, hshared]
  . simp [Device.bufferOf, Device.bufferKey, hshared]
  . rw [hname]
    exact hhome
  . rw [hname]
    exact hdecl

/--
What a shared buffer takes on its tile, it was given there.
-/
theorem exists_placement (h : Built g t p bs d a) (hroom : g.GivesRoom)
    {placed : List Placement}
    (hplaced : ∀ name tile, d.home? name = some tile →
      ∃ last, g.placing? name = some last ∧ (last, tile) ∈ placed)
    {x : BufferKey × Buffer} (hx : Device.SetUp g (Device.workOf p.channels) x)
    (hlevel : x.2.level = .shared) {tile : Coord} (htile : x.2.tile = some tile) :
    ∃ y ∈ placed, y.2 = tile ∧ x.1 = .shared y.1.name ∧ x.2.size ≤ y.1.size := by
  obtain ⟨name, home, first, hkey, hon, hhome, hfirst, hfirstLevel, hsize⟩ :=
    h.exists_shared hx hlevel
  obtain rfl : home = tile := Option.some.inj (hon.symm.trans htile)
  obtain ⟨last, hlast, hmem⟩ := hplaced name home hhome
  obtain ⟨_, hname⟩ := Graph.placing?_eq_some hlast
  have hfirstName : first.name = name := by simpa using List.find?_some hfirst
  refine ⟨(last, home), hmem, rfl, ?_, ?_⟩
  . rw [hkey, hname]
  . rw [hsize]
    rw [← hfirstName] at hfirst hlast
    exact hroom first (List.mem_of_find?_eq_some hfirst) hfirstLevel hfirst last hlast

end Built

namespace Graph

variable {g : Graph} {t : Target} {p : Program}

/--
Shared memory is never overcommitted where shared buffers are given room for what they take.
-/
theorem compile_sharedBytes_le (h : g.compile t = .ok p) (hroom : g.GivesRoom) (tile : Coord) :
    p.sharedBytes tile ≤ t.sharedTileBytes := by
  obtain ⟨bs, d, a, d', bindings, hbuilt, honly, hguarded, hemitted⟩ := compile_stages h
  have hbuffers : d.buffers = [] := by
    unfold Device.OnlyHomes at honly
    rw [honly]
    rfl
  obtain ⟨placed, hplaced, hload⟩ := Device.placeShared_eq_ok hbuilt.placed rfl
  have hsetUp := Device.guardAll_setUp hbuffers hguarded
  apply Nat.le_trans _ (hload tile)
  unfold Program.sharedBytes Placement.load
  rw [hemitted.buffers_eq, List.filter_map, List.map_map]
  apply sum_map_le_of_keys Prod.fst fun y : Placement => .shared y.1.name
  . exact (List.filter_sublist.map _).nodup hemitted.wired.interned.keys_nodup
  . intro x hx
    obtain ⟨hx, htile⟩ := List.mem_filter.mp hx
    obtain ⟨hlevel, htile⟩ : x.2.level = .shared ∧ x.2.tile = some tile := by simpa using htile
    obtain ⟨y, hy, hon, hkey, hle⟩ :=
      hbuilt.exists_placement hroom hplaced (hsetUp x hx) hlevel htile
    exact ⟨y, List.mem_filter.mpr ⟨hy, by simpa using hon⟩, hkey.symm, hle⟩

/--
Two loads into shared memory. The first one goes into a buffer that is declared twice.
-/
def redeclared (first last : Nat) : Graph where
  scope := "redeclared"
  buffers := [⟨"far", .external, [200], 4⟩, ⟨"first", .shared, [first], 4⟩,
    ⟨"first", .shared, [last], 4⟩, ⟨"second", .shared, [200], 4⟩]
  channels := []
  regions := []
  ops := [load 1 "first", load 2 "second"]
  host := none
where
  load (id : Nat) (buffer : String) : Op :=
    ⟨id, .copy (.whole "far" .external) (.whole buffer .shared), none, none, [], [], none⟩

/--
Two shared memory tiles of 1000 bytes.
-/
def crowded : Target :=
  { Target.gen2 2 3 with sharedTileBytes := 1000 }

/--
With room for 200 elements, a buffer of 25 elements fits.
-/
theorem compile_redeclared_fits : ∃ p, (redeclared 25 200).compile crowded = .ok p ∧
    (redeclared 25 200).GivesRoom ∧ ∀ tile, p.sharedBytes tile ≤ 1000 := by
  have hroom : (redeclared 25 200).GivesRoom := by decide +kernel
  have hok : ((redeclared 25 200).compile crowded).isOk = true := by decide +kernel
  cases h : (redeclared 25 200).compile crowded with
  | ok p => exact ⟨p, rfl, hroom, compile_sharedBytes_le h hroom⟩
  | error e =>
    rw [h] at hok
    cases hok

/--
With room for 25 elements, a buffer of 200 elements is on a tile that is filled by the next buffer.
-/
theorem compile_redeclared_overcommits : ∃ p, (redeclared 200 25).compile crowded = .ok p ∧
    1000 < p.sharedBytes ⟨1, 1⟩ := by
  have hmatch : (match (redeclared 200 25).compile crowded with
    | .ok p => decide (1000 < p.sharedBytes ⟨1, 1⟩)
    | .error _ => false) = true := by
    decide +kernel
  cases h : (redeclared 200 25).compile crowded with
  | ok p =>
    rw [h] at hmatch
    exact ⟨p, rfl, of_decide_eq_true hmatch⟩
  | error e =>
    rw [h] at hmatch
    cases hmatch

end Graph

end TileTraffic
