import TileTraffic.Proofs.Channel.Assignment
import TileTraffic.Proofs.Descriptor.Chain
import TileTraffic.Proofs.Host.Control

/-!
Compilation as a whole: what is true of a program that comes out of it, stage by stage.
-/

namespace TileTraffic

/--
The program was built from a partition into bundles, a placement of the shared buffers, and an
assignment of channels.
-/
structure Built (g : Graph) (t : Target) (p : Program) (bs : List Bundle) (d : Device)
    (a : Assignment) : Prop where
  partition : g.partition t = .ok bs
  partitioned : g.Partitioned t bs
  placed : (Device.empty t t.lockPolicy).placeShared g = .ok d
  target_eq : d.target = t
  homes : d.Homes g
  assigned : Assignment.ofBundles g t d bs = .ok a
  complete : a.Complete g t d bs
  channels_eq : p.channels = a.allocations
  connected : ∃ table, a.bundles.foldlM Bundle.connect .empty = .ok table ∧ p.flows = table.flows
  flows_nodup : p.flows.Nodup
  mem_flows : ∀ f, f ∈ p.flows ↔ ∃ b ∈ a.bundles, b.HasFlow f
  contained : ∀ x ∈ p.channels, t.contains x.key.tile = true
  lock_ids_nodup : ∀ c, ((p.locks.filter fun l => l.tile = c).map Lock.id).Nodup
  lock_id_lt : ∀ l ∈ p.locks, l.id < (t.budgetAt l.tile).locks
  blocks : ∀ c, (Device.blockIdsOn c p.tiles).Perm (Allocation.idsOn c p.channels)

namespace Built

variable {g : Graph} {t : Target} {p : Program} {bs : List Bundle} {d : Device} {a : Assignment}

/--
Every channel of the program was opened at its level, and serves ops of the graph there.
-/
theorem opened (h : Built g t p bs d a) {x : Allocation} (hx : x ∈ p.channels) :
    x ∈ (a.pool x.level).opened ∧ x.Sound g t x.level := by
  rw [h.channels_eq] at hx
  obtain ⟨level, hopened⟩ := Assignment.mem_allocations_iff.mp hx
  have hsound := h.complete.allocation hopened
  obtain rfl := hsound.level_eq
  exact ⟨hopened, hsound⟩

theorem hosts (h : Built g t p bs d a) {x : Allocation} (hx : x ∈ p.channels) :
    t.Hosts x.level x.key.tile :=
  (h.opened hx).2.key_fits.2

theorem keys_nodup (h : Built g t p bs d a) : (p.channels.map Allocation.key).Nodup := by
  rw [h.channels_eq]
  exact h.complete.keys_nodup

theorem ops_ne (h : Built g t p bs d a) {x : Allocation} (hx : x ∈ p.channels) : x.ops ≠ [] :=
  (h.opened hx).2.ops_ne

theorem mem_occurrences (h : Built g t p bs d a) {x : Allocation} (hx : x ∈ p.channels)
    {occ : Occurrence} (hocc : occ ∈ x.ops) : occ ∈ g.occurrences :=
  ((h.opened hx).2.fits occ hocc).mem

end Built

namespace Device

theorem sound_of_onlyHomes {t : Target} {d : Device} (h : (empty t t.lockPolicy).OnlyHomes d) :
    d.Sound := by
  unfold OnlyHomes at h
  rw [h]
  exact (sound_empty t t.lockPolicy).of_pairs (by simp [empty])

end Device

namespace Graph

variable {g : Graph} {t : Target}

theorem placeShared_fresh_yields (hg : g.Resolves) :
    Yields ((Device.empty t t.lockPolicy).placeShared g) fun d =>
      d.target = t ∧ d.Homes g ∧ d.Sound := by
  apply (Device.placeShared_yields hg _).mono
  intro d ⟨honly, hhomes⟩
  refine ⟨?_, hhomes, Device.sound_of_onlyHomes honly⟩
  unfold Device.OnlyHomes at honly
  rw [honly]
  rfl

theorem ofBundles_complete {d : Device} {bs : List Bundle} (htarget : d.target = t)
    (hhomes : d.Homes g) (hbs : g.Partitioned t bs) :
    Yields (Assignment.ofBundles g t d bs) fun a => a.Complete g t d bs := by
  apply (Assignment.ofBundles_yields (fun _ _ _ _ => True) _ _ htarget hhomes hbs).mono
  . intro a h
    exact h.1
  . intros
    trivial
  . intros
    trivial

theorem control?_yields (g : Graph) (t : Target) : Yields (g.control? t) fun _ => True := by
  unfold control?
  split
  . split
    . apply Control.ofHost?_yields
    . apply Control.ofHost?_yields
  . trivial

/--
Compilation yields a program that was built in all its stages.
-/
theorem compile_yields (g : Graph) (t : Target) :
    Yields (g.compile t) fun p => ∃ bs d a, Built g t p bs d a := by
  unfold compile
  apply (partition_yields g t).with_eq.bind
  intro bs ⟨hpartition, hbs⟩
  apply (placeShared_fresh_yields hbs.resolves).with_eq.bind
  intro d ⟨hplaced, htarget, hhomes, hd⟩
  apply (ofBundles_complete htarget hhomes hbs).with_eq.bind
  intro a ⟨hassigned, hcomplete⟩
  apply (Bundle.connectAll_yields fun b hb => hcomplete.connectable hbs.sound hb).with_eq.bind
  intro table ⟨hconnected, hindexed, hflows⟩
  dsimp only
  have hsided : Device.Sided a.allocations := fun x hx occ hocc => hcomplete.sided hx hocc
  apply (Device.guardAll_yields hd hsided).bind
  intro ⟨d', bindings⟩ ⟨hguarded, hext⟩
  dsimp only at hguarded hext
  apply (Device.synthesize_yields hguarded hsided hcomplete.keys_nodup
    fun x hx => hcomplete.opIds_eq hx).bind
  intro tiles htiles
  apply (Device.corePrograms_yields hguarded).bind
  intro cores _
  apply (control?_yields g t).bind
  intro control _
  apply Yields.pure
  have htarget' : d'.target = t := hext.target.trans htarget
  refine ⟨bs, d, a, hpartition, hbs, hplaced, htarget, hhomes, hassigned, hcomplete, rfl,
    ⟨table, hconnected, rfl⟩, hindexed.nodup, hflows, ?_, hguarded.sound.ids_nodup, ?_, htiles⟩
  . intro x hx
    -- the channel has an op, and the tile of that op was set up
    obtain ⟨level, hopened⟩ := Assignment.mem_allocations_iff.mp hx
    obtain ⟨occ, rest, hcons⟩ :=
      List.exists_cons_of_ne_nil (hcomplete.allocation hopened).ops_ne
    have hwork := Device.mem_workOf.mpr ⟨hx, show occ ∈ x.ops by simp [hcons]⟩
    rw [← htarget']
    exact hguarded.sound.contained (hguarded.contained _ hwork)
  . intro l hl
    have := hguarded.sound.id_lt l hl
    rw [htarget'] at this
    exact this

/--
Whatever is wrong with the graph or the target, compilation does not fail through a fault of the
compiler: no request of one stage to another is senseless, and no flow stays on its tile.
-/
theorem compile_never_internal {e : CompileError} (h : g.compile t = .error e) :
    (∀ m, e ≠ .codeGen m) ∧
      ∀ source dest site, e ≠ .unsupportedPath (.channel source) (.channel dest) site := by
  have hblame := (compile_yields g t).of_eq_error h
  constructor
  . rintro m rfl
    cases hblame
  . rintro source dest site rfl
    cases hblame

/--
Three loads into one cell, a step into shared memory from the cell next to it, and a way back to
external memory from there.
-/
def relay : Graph where
  scope := "relay"
  buffers := [⟨"far", .external, [16], 4⟩, ⟨"near", .tileLocal, [16], 4⟩, ⟨"mid", .shared, [16], 4⟩]
  channels := [⟨"back", none⟩]
  regions := [⟨"pair", 0, 2, 2, 1⟩]
  ops := [load 1, load 2, load 3,
    ⟨4, .copy (.whole "near" .tileLocal) (.whole "mid" .shared), some "pair", some [1, 0], [], [],
      none⟩,
    ⟨5, .put "back" (.whole "mid" .shared), none, none, [], [], none⟩,
    ⟨6, .get "back" (.whole "far" .external), none, none, [], [], none⟩]
  host := none
where
  load (id : Nat) : Op :=
    ⟨id, .copy (.whole "far" .external) (.whole "near" .tileLocal), some "pair", some [0, 0], [], [],
      none⟩

/--
The first device generation has no shared memory, so that the fourth op cannot be done there.
-/
theorem compile_relay_gen1 : ∃ e, relay.compile (.gen1 8 4) = .error e ∧ (∀ m, e ≠ .codeGen m) ∧
    ∀ source dest site, e ≠ .unsupportedPath (.channel source) (.channel dest) site := by
  have hfails : (relay.compile (.gen1 8 4)).isOk = false := by decide +kernel
  cases h : relay.compile (.gen1 8 4) with
  | ok p =>
    rw [h] at hfails
    cases hfails
  | error e => exact ⟨e, rfl, compile_never_internal h⟩

theorem exists_compile_relay : ∃ p, relay.compile (.gen2 4 6) = .ok p :=
  exists_of_isOk (by decide +kernel)

end Graph

end TileTraffic
