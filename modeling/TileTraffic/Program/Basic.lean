import TileTraffic.Descriptor.Chain
import TileTraffic.Flow.Table
import TileTraffic.Host.Control
import TileTraffic.Metadata

/-!
Device programs: everything that has been decided for one device scope.
-/

namespace TileTraffic

structure Program where
  scope : String
  target : Target
  buffers : List Buffer
  locks : List Lock
  channels : List Allocation
  flows : List Flow
  tiles : List TileProgram
  cores : List CoreProgram
  metadata : Metadata
  control : Option Control
  deriving Repr, Inhabited

namespace Program

def descriptorCount (p : Program) : Nat :=
  ((p.tiles.flatMap TileProgram.chains).flatMap Chain.blocks).length

end Program

end TileTraffic
