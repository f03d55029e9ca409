import TileTraffic.Channel.Pool
import TileTraffic.Descriptor.Window

/-!
Descriptor programs.

Every channel runs a circular chain of blocks, one for every op in the order in which the ops came
to the channel. A block waits for a lock, moves a window of a buffer and releases a lock. The
dispatcher of a tile starts its chains one after the other. Cores are told which locks to take
around their uses of tile-local buffers.
-/

namespace TileTraffic

/--
What one block moves.
-/
structure Descriptor where
  buffer : String
  offset : Nat
  length : Nat
  deriving DecidableEq, Repr, Inhabited

structure Block where
  op : Nat
  guard : Guard
  descriptor : Descriptor
  /-- The block that runs after this one. -/
  next : Nat
  deriving DecidableEq, Repr, Inhabited

/--
The chain of one channel.
-/
structure Chain where
  direction : Direction
  channel : Nat
  blocks : List Block
  deriving DecidableEq, Repr, Inhabited

/--
What the dispatcher does after an entry.
-/
inductive DispatchNext where
  | entry (n : Nat)
  | done
  deriving DecidableEq, Repr, Inhabited

/--
Start of one chain.
-/
structure DispatchEntry where
  direction : Direction
  channel : Nat
  /-- Which of the chains of the tile. -/
  chain : Nat
  next : DispatchNext
  deriving DecidableEq, Repr, Inhabited

/--
The DMA program of one tile.
-/
structure TileProgram where
  tile : Coord
  role : Role
  primitive : StartPrimitive
  entries : List DispatchEntry
  chains : List Chain
  deriving DecidableEq, Repr, Inhabited

namespace TileProgram

def chain? (p : TileProgram) (d : Direction) (channel : Nat) : Option Chain :=
  p.chains.find? fun c => c.direction = d ∧ c.channel = channel

end TileProgram

/--
One use of a buffer by a core.
-/
structure CoreUse where
  op : Nat
  buffer : String
  channel : ChannelKey
  guard : Guard
  deriving DecidableEq, Repr, Inhabited

structure CoreProgram where
  tile : Coord
  uses : List CoreUse
  deriving DecidableEq, Repr, Inhabited

namespace Allocation

/--
Put a channel among those of its tile.
-/
def file (tiles : List (Coord × List Allocation)) (a : Allocation) :
    List (Coord × List Allocation) :=
  let here := (tiles.lookup a.key.tile).getD []
  Ordered.insert Prod.fst (a.key.tile, Ordered.insert key a here) tiles

/--
The channels of every tile that has some. Tiles and channels are in increasing order; of several
channels with one key the last counts.
-/
def byTile (allocations : List Allocation) : List (Coord × List Allocation) :=
  allocations.foldl file []

end Allocation

/--
The buffer, by position, that an op uses on a channel. The latest entry counts.
-/
abbrev Bindings := List ((ChannelKey × Nat) × Nat)

namespace Device

variable (d : Device) (bindings : Bindings)

def bound (a : Allocation) (occ : Occurrence) : Except CompileError Nat :=
  match bindings.lookup (a.key, occ.ref) with
  | some n => .ok n
  | none => .error (.codeGen (.unbound occ.op.id a.key))

def bufferAt (n : Nat) : Except CompileError Buffer :=
  match d.buffer? n with
  | some buffer => .ok buffer
  | none => .error (.codeGen (.noBuffer n))

/--
The block for one op, followed by block `next`.
-/
def block (a : Allocation) (occ : Occurrence) (next : Nat) : Except CompileError Block :=
  match occ.op.accessAt? a.level with
  | none => .error (.codeGen (.noSide occ.op.id a.level))
  | some access => do
    let n ← bound bindings a occ
    let buffer ← d.bufferAt n
    match d.pair? n a.key with
    | none => throw (.codeGen (.unlocked buffer.symbol a.key))
    | some pair =>
      let offset ← access.baseOffset occ.op buffer
      let length ← access.transferLength occ.op buffer
      return {
        op := occ.op.id
        guard := d.policy.dmaGuard pair a.key.direction
        descriptor := ⟨buffer.symbol, offset, length⟩
        next := next }

/--
The chain of a channel. The last block leads back to the first.
-/
def chain (a : Allocation) : Except CompileError Chain := do
  let blocks ← a.ops.zipIdx.mapM fun (occ, i) => do
    d.block bindings a occ (← remainder (i + 1) a.ops.length)
  return ⟨a.key.direction, a.key.id, blocks⟩

/--
One entry for every chain, each leading to the next.
-/
def dispatch (chains : List Chain) : List DispatchEntry :=
  chains.zipIdx.map fun (c, i) =>
    ⟨c.direction, c.channel, i, if i + 1 < chains.length then .entry (i + 1) else .done⟩

/--
The program of a tile with the given channels. Channels without ops have no chain.
-/
def tileProgram (tile : Coord) (channels : List Allocation) : Except CompileError TileProgram := do
  let chains ← (channels.filter fun a => !a.ops.isEmpty).mapM (d.chain bindings)
  return {
    tile := tile
    role := d.target.roleOfRow tile.row
    primitive := d.target.startPrimitive
    entries := dispatch chains
    chains := chains }

/--
The programs of all tiles with channels, in the order of their coordinates.
-/
def synthesize (allocations : List Allocation) : Except CompileError (List TileProgram) :=
  (Allocation.byTile allocations).mapM fun (tile, channels) => d.tileProgram bindings tile channels

/--
The core's use of a buffer on a channel, if the buffer has locks there.
-/
def coreUse? (a : Allocation) (occ : Occurrence) : Except CompileError (Option CoreUse) := do
  let n ← bound bindings a occ
  match d.pair? n a.key with
  | none => return none
  | some pair =>
    let buffer ← d.bufferAt n
    return some ⟨occ.op.id, buffer.symbol, a.key, d.policy.coreGuard pair a.key.direction⟩

/--
All uses of tile-local buffers by cores, channel by channel.
-/
def coreUses (allocations : List Allocation) : Except CompileError (List CoreUse) := do
  let locals := allocations.filter fun a => a.level = .tileLocal
  let uses ← locals.mapM fun a => a.ops.mapM (d.coreUse? bindings a)
  return uses.flatten.filterMap id

/--
The uses by cores, tile by tile in the order of their coordinates.
-/
def corePrograms (allocations : List Allocation) : Except CompileError (List CoreProgram) := do
  let uses ← d.coreUses bindings allocations
  let tiles := Ordered.ofList id (uses.map fun u => u.channel.tile)
  return tiles.map fun tile => ⟨tile, uses.filter fun u => u.channel.tile = tile⟩

end Device

end TileTraffic
