import TileTraffic.Proofs.Descriptor.Window
import TileTraffic.Proofs.Program.Locks

/-!
The windows that the blocks of a program move. Each is the window of an op at the level of the
channel, in the buffer that the op accesses there, and none has been cut off at 64 bits.
-/

namespace TileTraffic

/--
What is found at the position of the buffer that an op accesses has the shape that it is declared
with.
-/
theorem Device.Holds.exists_shape {g : Graph} {d : Device} {work : List (Allocation × Occurrence)}
    {a : Allocation} {occ : Occurrence} {n : Nat} {buffer : Buffer} {access : Access}
    (h : d.Holds a occ n) (hsetUp : ∀ x ∈ d.buffers, SetUp g work x)
    (hbuffer : d.buffer? n = some buffer) (haccess : occ.op.accessAt? a.level = some access) :
    ∃ decl, g.buffer? access.buffer = some decl ∧ buffer.shape = decl.shape := by
  obtain ⟨access', b, haccess', hb⟩ := h
  obtain rfl := Option.some.inj (haccess.symm.trans haccess')
  obtain rfl : b = buffer := by
    unfold buffer? at hbuffer
    rw [hb] at hbuffer
    exact Option.some.inj hbuffer
  obtain ⟨w, _, access', decl, _, hdecl, hx⟩ := hsetUp _ (List.mem_of_getElem? hb)
  have hkey : _ = (bufferKey decl.name w.1.level w.2.ref w.1.key.tile).1 :=
    congrArg (fun x => x.1) hx
  -- the buffer may have been set up for another op, from a declaration of the same name
  have hname : decl.name = access'.buffer := by simpa using List.find?_some hdecl
  have hsame := congrArg BufferKey.name hkey
  dsimp only at hsame
  rw [name_bufferKey, name_bufferKey, hname] at hsame
  rw [hsame]
  exact ⟨decl, hdecl, congrArg (fun x => x.2.shape) hx⟩

namespace Program

/--
The block moves the window of an op on the channel, with the exact length and from the exact offset,
both of which fit 64 bits.
-/
structure Windowed (g : Graph) (x : Slot × Block) (y : Allocation) (occ : Occurrence)
    (access : Access) (decl : BufferDecl) : Prop where
  channel_eq : y.key = x.1.channel
  op_mem : occ ∈ y.ops
  occurs : occ ∈ g.occurrences
  op_eq : x.2.op = occ.op.id
  access_eq : occ.op.accessAt? y.level = some access
  decl_eq : g.buffer? access.buffer = some decl
  length : access.Spans decl.shape x.2.descriptor.length
  length_lt : x.2.descriptor.length < word64
  offset : access.StartsAt decl.shape x.2.descriptor.offset
  offset_lt : x.2.descriptor.offset < word64

end Program

namespace Graph

variable {g : Graph} {t : Target} {p : Program}

theorem exists_windowed (h : g.compile t = .ok p) {x : Slot × Block} (hx : x ∈ p.blocks) :
    ∃ y ∈ p.channels, ∃ occ access decl, Program.Windowed g x y occ access decl := by
  obtain ⟨bs, d, a, d', bindings, hbuilt, honly, hguarded, hemitted⟩ := compile_stages h
  have hsetUp := Device.guardAll_setUp honly.buffers_eq hguarded
  obtain ⟨y, hy, hslot, occ, hocc, next, hblock⟩ := hbuilt.exists_op_of_mem_blocks hemitted hx
  obtain ⟨hop, _, n, buffer, pair, hfinds, _, _, access, haccess, hoffset, hlength⟩ :=
    Device.block_eq_ok hblock
  have hholds := hbuilt.holds hemitted hy hocc hfinds.bound
  obtain ⟨decl, hdecl, hshape⟩ := hholds.exists_shape hsetUp hfinds.buffer_eq haccess
  obtain ⟨hlength_lt, hspans⟩ := Access.spans_of_transferLength hlength
  obtain ⟨hoffset_lt, hstarts⟩ := Access.startsAt_of_baseOffset hoffset
  rw [hshape] at hspans hstarts
  exact ⟨y, hy, occ, access, decl, by rw [hslot], hocc, hbuilt.mem_occurrences hy hocc, hop, haccess,
    hdecl, hspans, hlength_lt, hstarts, hoffset_lt⟩

/--
Lengths and offsets are exact or there are none, whatever the access, and so every block of a
compiled program moves just the window that its op asks for.
-/
theorem windows_exact :
    (∀ (a : Access) (op : Op) (buffer : Buffer),
      a.ExactLength op buffer ∧ a.ExactOffset op buffer) ∧
      ∀ (g : Graph) (t : Target) (p : Program), g.compile t = .ok p →
        ∀ x ∈ p.blocks, ∃ y ∈ p.channels, ∃ occ access decl,
          Program.Windowed g x y occ access decl := by
  refine ⟨?_, ?_⟩
  . intro a op buffer
    exact ⟨a.exactLength op buffer, a.exactOffset op buffer⟩
  . intro g t p h x hx
    exact exists_windowed h hx

/--
Two loads of a part of a matrix, into the upper and into the lower half of a buffer, from where the
graph says and from where the run time says.
-/
def crop : Graph where
  scope := "crop"
  buffers := [⟨"far", .external, [8, 16], 4⟩, ⟨"near", .tileLocal, [2, 2, 8], 4⟩]
  channels := []
  regions := [⟨"cell", 0, 2, 1, 1⟩]
  ops := [load 1 [.known 2, .known 3] [.known 0], load 2 [.runtime "row", .known 3] [.known 1]]
  host := none
where
  load (id : Nat) (source dest : List Dim) : Op :=
    ⟨id, .copy ⟨"far", .external, source, [.known 2, .known 8], []⟩
        ⟨"near", .tileLocal, dest, [.known 2, .known 8], [.known 16]⟩,
      some "cell", some [0, 0], [], [], none⟩

/--
The op, the offset and the length of every block.
-/
theorem compile_crop_windows : ∃ p, crop.compile (.gen2 4 6) = .ok p ∧
    (p.blocks.map fun x => (x.2.op, x.2.descriptor.offset, x.2.descriptor.length)) =
      [(1, 35, 16), (2, 0, 16), (1, 0, 16), (2, 16, 16)] ∧
    ∀ x ∈ p.blocks, ∃ y ∈ p.channels, ∃ occ access decl,
      Program.Windowed crop x y occ access decl := by
  have hblocks : ∃ p, crop.compile (.gen2 4 6) = .ok p ∧
      (p.blocks.map fun x => (x.2.op, x.2.descriptor.offset, x.2.descriptor.length)) =
        [(1, 35, 16), (2, 0, 16), (1, 0, 16), (2, 16, 16)] :=
    exists_ok_of_decide (by decide +kernel)
  obtain ⟨p, hp, hblocks⟩ := hblocks
  exact ⟨p, hp, hblocks, windows_exact.2 crop _ p hp⟩

end Graph

end TileTraffic
