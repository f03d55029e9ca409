import TileTraffic.Program.Basic

/-!
Device programs on the wire.
-/

namespace TileTraffic

namespace Guard

def members (g : Guard) : List (String × Json) :=
  [("acquire", g.acquire.toJson), ("release", g.release.toJson)]

end Guard

namespace Descriptor

def toJson (d : Descriptor) : Json :=
  .obj [("buffer", .str d.buffer), ("offset", .int d.offset), ("length", .int d.length)]

end Descriptor

namespace Block

def toJson (b : Block) : Json :=
  .obj [
    ("op_id", .int b.op),
    ("acquire", b.guard.acquire.toJson),
    ("descriptor", b.descriptor.toJson),
    ("release", b.guard.release.toJson),
    ("next", .int b.next)]

end Block

namespace Chain

def toJson (c : Chain) : Json :=
  .obj [
    ("direction", c.direction.toJson),
    ("channel", .int c.channel),
    ("blocks", .arr (c.blocks.map Block.toJson))]

end Chain

namespace DispatchNext

def toJson : DispatchNext → Json
  | .entry n => .obj [("entry", .int n)]
  | .done => .str "end"

end DispatchNext

namespace DispatchEntry

def toJson (e : DispatchEntry) : Json :=
  .obj [
    ("direction", e.direction.toJson),
    ("channel", .int e.channel),
    ("program", .int e.chain),
    ("next", e.next.toJson)]

end DispatchEntry

namespace TileProgram

def toJson (p : TileProgram) : Json :=
  .obj [
    ("tile", p.tile.toJson),
    ("role", p.role.toJson),
    ("dispatcher", .obj [
      ("primitive", p.primitive.toJson),
      ("entries", .arr (p.entries.map DispatchEntry.toJson))]),
    ("channels", .arr (p.chains.map Chain.toJson))]

end TileProgram

namespace CoreUse

def toJson (u : CoreUse) : Json :=
  .obj ([("op_id", .int u.op), ("buffer", .str u.buffer), ("channel", u.channel.toJson)] ++
    u.guard.members)

end CoreUse

namespace CoreProgram

def toJson (p : CoreProgram) : Json :=
  .obj [("tile", p.tile.toJson), ("uses", .arr (p.uses.map CoreUse.toJson))]

end CoreProgram

namespace Program

def toJson (p : Program) : Json :=
  .obj [
    ("scope", .str p.scope),
    ("target", p.target.toJson),
    ("buffers", .arr (p.buffers.map Buffer.toJson)),
    ("locks", .arr (p.locks.map Lock.toJson)),
    ("channels", .arr (p.channels.map Allocation.toJson)),
    ("flows", .arr (p.flows.map Flow.toJson)),
    ("tiles", .arr (p.tiles.map TileProgram.toJson)),
    ("cores", .arr (p.cores.map CoreProgram.toJson)),
    ("metadata", p.metadata.toJson),
    ("control", Json.ofOption Control.toJson p.control)]

end Program

end TileTraffic
