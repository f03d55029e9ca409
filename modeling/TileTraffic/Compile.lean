import TileTraffic.Bundle.Partition
import TileTraffic.Channel.Assignment
import TileTraffic.Program.Basic
import TileTraffic.SharedMemory

/-!
The compiler: from a movement graph to the program of a device.
-/

namespace TileTraffic

namespace Device

/--
Place the shared buffers that are used, in the order of their declarations.
-/
def placeShared (g : Graph) (d : Device) : Except CompileError Device := do
  let used := g.ops.filterMap fun op => (op.accessAt? .shared).map Access.buffer
  let shared := g.buffers.filter fun b => b.level = .shared ∧ b.name ∈ used
  let (d, _) ← shared.foldlM place (d, SharedMemory.ofTarget d.target)
  return d
where
  place (state : Device × SharedMemory) (b : BufferDecl) :
      Except CompileError (Device × SharedMemory) :=
    match b.bytes? with
    | none => .error (.graph (.bufferTooLarge b.name))
    | some bytes =>
      match SharedMemory.place b.name bytes state.2 with
      | .ok tile memory => .ok (state.1.setHome b.name tile, memory)
      | .error e _ => .error e

/--
The key of the buffer `name` for an op at a level, on the tile of its channel, and the tile that
holds the buffer.
-/
def bufferKey (name : String) (level : Level) (ref : Nat) (tile : Coord) :
    BufferKey × Option Coord :=
  match level with
  | .tileLocal => (.tileLocal name tile, some tile)
  | .shared => (.shared name, some tile)
  | .external => (.external name ref, none)

def bindBuffer (g : Graph) (d : Device) (a : Allocation) (occ : Occurrence) :
    Except CompileError (Nat × Device) :=
  match occ.op.accessAt? a.level with
  | none => .error (.codeGen (.noSide occ.op.id a.level))
  | some access =>
    match g.buffer? access.buffer with
    | none => .error (.graph (.unknownBuffer access.buffer))
    | some decl =>
      let (key, home) := bufferKey decl.name a.level occ.ref a.key.tile
      .ok (d.intern key decl home)

def guardOp (g : Graph) (state : Device × Bindings) (work : Allocation × Occurrence) :
    Except CompileError (Device × Bindings) := do
  let (d, bindings) := state
  let (a, occ) := work
  let (_, d) ← attempt occ.op (tile a.key.tile) d
  let (buffer, d) ← d.bindBuffer g a occ
  let (_, d) ← attempt occ.op (lockPair buffer a.key none) d
  return (d, ((a.key, occ.ref), buffer) :: bindings)

/--
Set up the buffers and locks of all ops, channel by channel.
-/
def guardAll (g : Graph) (d : Device) (allocations : List Allocation) :
    Except CompileError (Device × Bindings) :=
  (allocations.flatMap fun a => a.ops.map fun occ => (a, occ)).foldlM (guardOp g) (d, [])

end Device

namespace Bundle

/--
Connect the producing end of a bundle to all of its consuming ends.
-/
def connect (table : FlowTable) (b : Bundle) : Except CompileError FlowTable := do
  let source ← assigned b.producer.key
  b.consumers.foldlM (fun table e => do
    let dest ← assigned e.key
    let first ← elementAt b.producer.ops 0
    let (_, table) ← attempt first.op (FlowTable.connect source dest) table
    return table) table
where
  assigned : Option ChannelKey → Except CompileError ChannelKey
    | some key => .ok key
    | none => .error (.codeGen (.unallocated b.name))

end Bundle

namespace Graph

/--
The control program, where the target needs one: over the cells of the first region, or over a
single cell if there is none.
-/
def control? (g : Graph) (t : Target) : Except CompileError (Option Control) :=
  match t.singleControlProcessor, g.host with
  | true, some host =>
    match g.regions with
    | r :: _ => Control.ofHost? host r.cols r.rows
    | [] => Control.ofHost? host 1 1
  | _, _ => .ok none

def compile (g : Graph) (t : Target) : Except CompileError Program := do
  let bundles ← g.partition t
  let device ← (Device.empty t t.lockPolicy).placeShared g
  let assignment ← Assignment.ofBundles g t device bundles
  let table ← assignment.bundles.foldlM Bundle.connect .empty
  let channels := assignment.allocations
  let (device, bindings) ← device.guardAll g channels
  let tiles ← device.synthesize bindings channels
  let cores ← device.corePrograms bindings channels
  let control ← g.control? t
  return {
    scope := g.scope
    target := t
    buffers := device.buffers.map Prod.snd
    locks := device.locks
    channels := channels
    flows := table.flows
    tiles := tiles
    cores := cores
    metadata := Metadata.build g assignment.external.allocations t.interface.channels
    control := control }

end Graph

end TileTraffic
