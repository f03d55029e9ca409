import TileTraffic.Program.Basic

/-!
Device programs for readers: a summary in figures, and a listing of flows, chains and core uses.
-/

namespace TileTraffic

namespace Text

def lines (ls : List String) : String :=
  String.join (ls.map fun l => l ++ "\n")

end Text

namespace Flow

instance : ToString Flow where
  toString f := s!"{f.source} -> {f.dest}"

end Flow

namespace Descriptor

instance : ToString Descriptor where
  toString d := s!"{d.buffer}[{d.offset}..+{d.length}]"

end Descriptor

namespace DispatchNext

instance : ToString DispatchNext where
  toString
    | .entry n => s!"entry {n}"
    | .done => "end"

end DispatchNext

namespace Chain

def listing (c : Chain) : List String :=
  s!"  {c.direction.mnemonic}{c.channel}:" :: c.blocks.zipIdx.map fun (b, i) =>
    s!"    bd{i} op {b.op}: {b.guard.acquire}; {b.descriptor}; {b.guard.release} -> bd{b.next}"

end Chain

namespace TileProgram

/--
A heading, the dispatcher and the chains.
-/
def listing (p : TileProgram) : List String :=
  let entries := p.entries.map fun e =>
    s!"  {p.primitive.label} {e.direction.mnemonic}{e.channel} -> {e.next}"
  s!"Tile {p.tile} [{p.role}]:" :: entries ++ p.chains.flatMap Chain.listing

end TileProgram

namespace CoreProgram

def listing (p : CoreProgram) : List String :=
  s!"Core {p.tile}:" :: p.uses.map fun u =>
    s!"  op {u.op} {u.buffer}: {u.guard.acquire}; {u.guard.release}"

end CoreProgram

namespace Program

def summary (p : Program) : String :=
  Text.lines [
    "Device Program Summary:",
    "=======================",
    s!"Scope: {p.scope}",
    s!"Target: {p.target.name} ({p.target.columns}x{p.target.rows})",
    s!"Buffers: {p.buffers.length}",
    s!"Locks: {p.locks.length}",
    s!"Channels: {p.channels.length}",
    s!"Flows: {p.flows.length}",
    s!"Tiles programmed: {p.tiles.length}",
    s!"Descriptors: {p.descriptorCount}",
    s!"Runtime records: {p.metadata.size}",
    "Control serialized: " ++ if p.control.isSome then "yes" else "no"]

/--
The whole program. Sections without content take their blank line with them.
-/
def listing (p : Program) : String :=
  let heading := ["Device Program", "==============", s!"Scope: {p.scope}",
    s!"Target: {p.target.name}", ""]
  let flows := p.flows.map fun f => s!"flow {f}"
  let cores := p.cores.flatMap CoreProgram.listing
  Text.lines <|
    heading ++
    flows ++ (if flows.isEmpty then [] else [""]) ++
    p.tiles.flatMap TileProgram.listing ++
    (if cores.isEmpty then [] else [""]) ++ cores

end Program

end TileTraffic
