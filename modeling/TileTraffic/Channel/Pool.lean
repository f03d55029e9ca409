import TileTraffic.Channel.Slots
import TileTraffic.Graph.Validity

/-!
Channel pools: the open channels of one level of memory and the ops that run on them.

On tile-local and shared memory the channels of a tile are opened in rotation. On external memory a
new channel is the next free one of the interface tiles. Every op takes one descriptor on the tile
of its channel, whichever way it gets there.
-/

namespace TileTraffic

/--
An open channel.
-/
structure Allocation where
  key : ChannelKey
  level : Level
  /-- The tile at the far end, for interface channels. -/
  partner : Option Coord
  /-- The ids of the ops, in the order in which they came. -/
  opIds : List Nat
  ops : List Occurrence
  deriving DecidableEq, Repr, Inhabited

namespace Allocation

def add (a : Allocation) (occ : Occurrence) : Allocation :=
  { a with opIds := a.opIds ++ [occ.op.id], ops := a.ops ++ [occ] }

def toJson (a : Allocation) : Json :=
  .obj [
    ("key", a.key.toJson),
    ("level", a.level.toJson),
    ("partner", Json.ofOption Coord.toJson a.partner),
    ("op_ids", Json.ofNats a.opIds)]

end Allocation

/--
The open channels of one level.
-/
structure ChannelPool where
  level : Level
  /-- In the order of opening. -/
  opened : List Allocation
  /-- Descriptors that are taken, by tile. -/
  descriptors : List (Coord × Nat)
  /-- What is free on the interface tiles. Only channels to external memory are taken from there. -/
  slots : InterfaceSlots
  deriving DecidableEq, Repr, Inhabited

namespace ChannelPool

def empty (level : Level) : ChannelPool :=
  ⟨level, [], [], .fresh⟩

/--
The open channels of one direction, in the order of opening.
-/
def toward (p : ChannelPool) (d : Direction) : List Allocation :=
  p.opened.filter fun a => a.key.direction = d

/--
All open channels: the inbound ones, then the outbound ones.
-/
def allocations (p : ChannelPool) : List Allocation :=
  p.toward .inbound ++ p.toward .outbound

def onTile (p : ChannelPool) (tile : Coord) (d : Direction) : List Allocation :=
  p.opened.filter fun a => a.key.tile = tile ∧ a.key.direction = d

def get? (p : ChannelPool) (key : ChannelKey) : Option Allocation :=
  p.opened.find? fun a => a.key = key

def serving? (p : ChannelPool) (tile : Coord) (d : Direction) (id : Nat) : Option Allocation :=
  (p.onTile tile d).find? fun a => id ∈ a.opIds

def used (p : ChannelPool) (tile : Coord) : Nat :=
  (p.descriptors.lookup tile).getD 0

def hasRoom (p : ChannelPool) (t : Target) (tile : Coord) : Bool :=
  p.used tile < (t.budgetAt tile).descriptors

def takeDescriptor (tile : Coord) : List (Coord × Nat) → List (Coord × Nat)
  | [] => [(tile, 1)]
  | (c, n) :: rest => if c = tile then (c, n + 1) :: rest else (c, n) :: takeDescriptor tile rest

/--
Run an op on a channel, which is opened if it is not open yet.
-/
def enter (p : ChannelPool) (occ : Occurrence) (key : ChannelKey) (partner : Option Coord) :
    ChannelPool :=
  let opened :=
    if (p.get? key).isSome then
      p.opened.map fun a => if a.key = key then a.add occ else a
    else
      p.opened ++ [⟨key, p.level, partner, [occ.op.id], [occ]⟩]
  { p with opened := opened, descriptors := takeDescriptor key.tile p.descriptors }

/--
Run an op on a channel, if it does not run there already. This takes a descriptor.
-/
def commit (t : Target) (occ : Occurrence) (key : ChannelKey) (partner : Option Coord) :
    EStateM CompileError ChannelPool ChannelKey := fun p =>
  if (p.get? key).any fun a => a.ops.any fun o => o.ref = occ.ref then
    .ok key p
  else if p.hasRoom t key.tile then
    .ok key (p.enter occ key partner)
  else
    .error (.capacity (.descriptorsOf key.tile (t.budgetAt key.tile).descriptors)) p

def join (t : Target) (occ : Occurrence) (key : ChannelKey) :
    EStateM CompileError ChannelPool ChannelKey := fun p =>
  if (p.get? key).isSome then
    commit t occ key none p
  else
    .error (.codeGen (.noAllocation key)) p

/--
Serve an op by a channel on `tile`. A channel that serves the id of the op already does so again.
The `preferred` channel is shared if it is open. Otherwise the channel number follows the number of
channels that are open on the tile, modulo the number that the tile has.
-/
def serve (t : Target) (occ : Occurrence) (tile : Coord) (preferred : Option Nat) :
    EStateM CompileError ChannelPool ChannelKey := fun p =>
  if p.level = .external then
    .error (.codeGen .rotatingOnly) p
  else
    match occ.op.directionAt p.level with
    | .error e => .error e p
    | .ok d =>
      match p.serving? tile d occ.op.id with
      | some a => .ok a.key p
      | none =>
        match preferred.bind fun id => p.get? ⟨tile, d, id⟩ with
        | some a => commit t occ a.key none p
        | none =>
          let channels := t.channelsOfRow tile.row
          if channels = 0 then
            .error (.capacity (.noChannels d tile)) p
          else
            match remainder (p.onTile tile d).length channels with
            | .error e => .error e p
            | .ok id => commit t occ ⟨tile, d, id⟩ none p

/--
Open the next interface channel for an op, facing `partner`.
-/
def openInterface (t : Target) (occ : Occurrence) (partner : Coord) :
    EStateM CompileError ChannelPool ChannelKey := fun p =>
  match occ.op.directionAt p.level with
  | .error e => .error e p
  | .ok d =>
    if p.level ≠ .external then
      .error (.codeGen .interfaceOnly) p
    else
      match p.slots.peek t d with
      | .error e => .error e p
      | .ok (tile, id) =>
        if p.hasRoom t tile then
          commit t occ ⟨tile, d, id⟩ (some partner) { p with slots := p.slots.advance t d }
        else
          .error (.capacity (.descriptors tile)) p

end ChannelPool

end TileTraffic
