import TileTraffic.Graph.Basic
import TileTraffic.Program.Listing

/-!
What the command line prints about a compilation.
-/

namespace TileTraffic

namespace Cli

def rule (c : Char) (width : Nat) : String :=
  "".pushn c width

def banner (g : Graph) (t : Target) : String :=
  Text.lines [
    "Dataflow to DMA Compiler",
    rule '=' 35,
    "",
    s!"Scope: {g.scope}",
    s!"Input: {g.ops.length} ops, {g.buffers.length} buffers",
    s!"Target: {t.name} ({t.columns}x{t.rows}, {t.lockPolicy.label} locks)",
    ""]

/--
The size of a chain and, if asked for, its blocks.
-/
def chainLines (verbose : Bool) (c : Chain) : List String :=
  let blocks := c.blocks.map fun b =>
    s!"    op {b.op}: {b.guard.acquire} | {b.descriptor} | {b.guard.release}"
  s!"  {c.direction.mnemonic}{c.channel}: {c.blocks.length} descriptor(s)" ::
    if verbose then blocks else []

/--
The programs of the tiles, unless they are many and nobody asked for them.
-/
def tileLines (verbose : Bool) (p : Program) : List String :=
  if verbose || p.tiles.length ≤ 8 then
    let tiles := p.tiles.flatMap fun tile =>
      "" :: s!"Tile {tile.tile} [{tile.role}]" :: tile.chains.flatMap (chainLines verbose)
    "Tile Programs" :: rule '-' 50 :: tiles ++ [""]
  else
    [s!"({p.tiles.length} tiles programmed, use -v for details)"]

def recordLine (r : MetadataRecord) : String :=
  s!"    op {r.id} -> column {r.location} channel {r.channel} ({r.direction}) " ++
    s!"partner ({r.col}, {r.row})"

def metadataLines (m : Metadata) : List String :=
  if m.size = 0 then
    []
  else
    "Runtime Metadata" :: rule '-' 50 ::
      m.groups.flatMap fun group => s!"  {group.name}:" :: group.records.map recordLine

def controlLines : Option Control → List String
  | some c =>
    ["", s!"Control: {c.outerExtent} x {c.innerExtent} control nest, {c.body.length} statement(s)"]
  | none => []

def report (verbose : Bool) (p : Program) : String :=
  Text.lines ["Compilation Results", rule '=' 50, ""] ++
  p.summary ++
  Text.lines (["", "Flows", rule '-' 50] ++ p.flows.map (fun f => s!"  {f}") ++ [""]) ++
  Text.lines (tileLines verbose p) ++
  Text.lines (metadataLines p.metadata) ++
  Text.lines (controlLines p.control)

end Cli

end TileTraffic
