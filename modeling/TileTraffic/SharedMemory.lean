import TileTraffic.Error

/-!
Placement of buffers in shared memory.

Buffers are spread over the shared memory tiles in turn. A tile without room for a buffer is passed
over; the search for the next buffer starts behind the tile that was chosen last.
-/

namespace TileTraffic

/--
A shared memory tile and the bytes that are free on it.
-/
structure Bin where
  tile : Coord
  free : Nat
  deriving DecidableEq, Repr, Inhabited

/--
The shared memory tiles in their order.
-/
structure SharedMemory where
  bins : List Bin
  /-- Position of the tile that the next buffer tries first. -/
  cursor : Nat
  deriving DecidableEq, Repr, Inhabited

namespace SharedMemory

/--
All tiles of the target, empty.
-/
def ofTarget (t : Target) : SharedMemory :=
  ⟨t.sharedTiles.map fun tile => ⟨tile, t.sharedTileBytes⟩, 0⟩

/--
The position behind the cursor. The first tile comes after the last one.
-/
def next (m : SharedMemory) : Except CompileError Nat :=
  remainder (m.cursor + 1) m.bins.length

/--
Place a buffer on the first tile with room for it, and leave the cursor behind that tile.
-/
def place (buffer : String) (bytes : Nat) : EStateM CompileError SharedMemory Coord := fun m =>
  if m.bins.isEmpty then
    .error (.capacity (.sharedTiles buffer)) m
  else
    search m.bins.length m
where
  /-- The tile at the cursor is the next of `left` tiles that have not been tried. -/
  search : Nat → EStateM CompileError SharedMemory Coord
    | 0 => throw (.capacity (.sharedMemory buffer bytes))
    | left + 1 => do
      let m ← get
      let bin ← MonadExcept.ofExcept (elementAt m.bins m.cursor)
      let next ← MonadExcept.ofExcept m.next
      if bin.free < bytes then
        set { m with cursor := next }
        search left
      else
        set { m with bins := m.bins.set m.cursor ⟨bin.tile, bin.free - bytes⟩, cursor := next }
        return bin.tile

def free? (m : SharedMemory) (tile : Coord) : Option Nat :=
  (m.bins.find? fun b => b.tile = tile).map Bin.free

end SharedMemory

end TileTraffic
