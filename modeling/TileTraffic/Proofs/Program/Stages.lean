import TileTraffic.Proofs.Compile
import TileTraffic.Proofs.Device.Room

/-!
The stages of a compilation that has succeeded: what the device was when the program was emitted
from it.
-/

namespace TileTraffic

/--
The program was emitted from a device on which the ops of all channels had been set up.
-/
structure Emitted (t : Target) (p : Program) (d : Device) (bindings : Bindings) : Prop where
  wired : d.Wired bindings (Device.workOf p.channels)
  policy_eq : d.policy = t.lockPolicy
  buffers_eq : p.buffers = d.buffers.map Prod.snd
  locks_eq : p.locks = d.locks
  target_eq : p.target = t
  tiles_eq : d.synthesize bindings p.channels = .ok p.tiles
  cores_eq : d.corePrograms bindings p.channels = .ok p.cores

/--
A buffer that has been set up is there for an op on a channel of the level that it is declared for.
-/
theorem Built.exists_use {g : Graph} {t : Target} {p : Program} {bs : List Bundle} {d : Device}
    {a : Assignment} (h : Built g t p bs d a) {x : BufferKey × Buffer}
    (hx : Device.SetUp g (Device.workOf p.channels) x) :
    ∃ y ∈ p.channels, ∃ occ ∈ y.ops, ∃ access decl, occ.op.accessAt? y.level = some access ∧
      g.buffer? access.buffer = some decl ∧ decl.level = y.level ∧
        x = Device.bufferOf decl (y, occ) := by
  obtain ⟨⟨y, occ⟩, hw, access, decl, haccess, hdecl, rfl⟩ := hx
  obtain ⟨hy, hocc⟩ := Device.mem_workOf.mp hw
  refine ⟨y, hy, occ, hocc, access, decl, haccess, hdecl, ?_, rfl⟩
  have hop := Graph.mem_occurrences (h.mem_occurrences hy hocc)
  obtain ⟨decl', hdecl', hdeclared⟩ := h.partitioned.resolves occ.op hop access
    (List.mem_of_find?_eq_some haccess)
  obtain rfl := Option.some.inj (hdecl.symm.trans hdecl')
  rw [hdeclared]
  simpa using List.find?_some haccess

namespace Graph

variable {g : Graph} {t : Target} {p : Program}

theorem compile_stages (h : g.compile t = .ok p) :
    ∃ bs d a d' bindings, Built g t p bs d a ∧
      (Device.empty t t.lockPolicy).OnlyHomes d ∧
      d.guardAll g p.channels = .ok (d', bindings) ∧ Emitted t p d' bindings := by
  obtain ⟨bs, d, a, hbuilt⟩ := (compile_yields g t).of_eq_ok h
  have hplaced :=
    ((Device.placeShared_yields hbuilt.partitioned.resolves _).of_eq_ok hbuilt.placed).1
  have honly := hplaced
  unfold Device.OnlyHomes at honly
  unfold compile at h
  rw [hbuilt.partition] at h
  obtain ⟨_, hbs, h⟩ := bind_eq_ok h
  obtain rfl := Except.ok.inj hbs
  rw [hbuilt.placed] at h
  obtain ⟨_, hd, h⟩ := bind_eq_ok h
  obtain rfl := Except.ok.inj hd
  rw [hbuilt.assigned] at h
  obtain ⟨_, ha, h⟩ := bind_eq_ok h
  obtain rfl := Except.ok.inj ha
  obtain ⟨table, _, h⟩ := bind_eq_ok h
  obtain ⟨⟨d', bindings⟩, hguarded, h⟩ := bind_eq_ok h
  obtain ⟨tiles, htiles, h⟩ := bind_eq_ok h
  obtain ⟨cores, hcores, h⟩ := bind_eq_ok h
  obtain ⟨control, _, h⟩ := bind_eq_ok h
  obtain rfl := Except.ok.inj h
  have hwired := Device.guardAll_wired (d := d)
    (by rw [honly]; exact ⟨by simp [Device.empty], by simp [Device.empty]⟩)
    (by rw [honly]; rfl) (by rw [honly]; rfl) hguarded
  refine ⟨bs, d, a, d', bindings, hbuilt, hplaced, hguarded, hwired.1, ?_, rfl, rfl, rfl, htiles,
    hcores⟩
  rw [hwired.2, honly]
  rfl

theorem compile_eq_ok (h : g.compile t = .ok p) :
    ∃ bs d a, Built g t p bs d a ∧ ∃ d' bindings, Emitted t p d' bindings := by
  obtain ⟨bs, d, a, d', bindings, hbuilt, _, _, hemitted⟩ := compile_stages h
  exact ⟨bs, d, a, hbuilt, d', bindings, hemitted⟩

end Graph

end TileTraffic
