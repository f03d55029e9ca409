import TileTraffic.Error

/-!
Channels of the interface tiles.

Each direction fills one interface tile before it opens the next, in the order in which the target
lists its interface columns. What is kept of a direction is the tiles that it has opened and how
many channels each of them has left.
-/

namespace TileTraffic

/--
An interface tile that has been opened in one direction.
-/
structure InterfaceSlot where
  tile : Coord
  /-- Channels that have not been handed out yet. -/
  available : Nat
  deriving DecidableEq, Repr, Inhabited

/--
The interface tiles that have been opened, in the order of opening.
-/
structure InterfaceSlots where
  inbound : List InterfaceSlot
  outbound : List InterfaceSlot
  deriving DecidableEq, Repr, Inhabited

namespace InterfaceSlots

def fresh : InterfaceSlots :=
  ⟨[], []⟩

def toward (s : InterfaceSlots) : Direction → List InterfaceSlot
  | .inbound => s.inbound
  | .outbound => s.outbound

/--
The channel that `assign` takes next: one of the first open tile that has any left, or else the
first one of the next column.
-/
def peek (t : Target) (s : InterfaceSlots) (d : Direction) : Except CompileError (Coord × Nat) :=
  let channels := t.interface.channels
  match (s.toward d).find? fun slot => 0 < slot.available with
  | some slot => .ok (slot.tile, channels - slot.available)
  | none =>
    match t.interfaceColumns[(s.toward d).length]? with
    | some col => if 0 < channels then .ok (⟨col, 0⟩, 0) else .error exhausted
    | none => .error exhausted
where
  exhausted : CompileError :=
    .capacity (.interfaceChannels d t.interfaceColumns.length t.interface.channels)

/--
Take a channel of a tile, which is opened if it is not open yet.
-/
def take (channels : Nat) (tile : Coord) : List InterfaceSlot → List InterfaceSlot
  | [] => [⟨tile, channels - 1⟩]
  | slot :: rest =>
    if slot.tile = tile then
      { slot with available := slot.available - 1 } :: rest
    else
      slot :: take channels tile rest

/--
The slots after the next channel of a direction has been taken, if there is one.
-/
def advance (t : Target) (s : InterfaceSlots) (d : Direction) : InterfaceSlots :=
  match s.peek t d with
  | .error _ => s
  | .ok (tile, _) =>
    match d with
    | .inbound => { s with inbound := take t.interface.channels tile s.inbound }
    | .outbound => { s with outbound := take t.interface.channels tile s.outbound }

def assign (t : Target) (d : Direction) : EStateM CompileError InterfaceSlots (Coord × Nat) :=
  fun s =>
    match s.peek t d with
    | .ok slot => .ok slot (s.advance t d)
    | .error e => .error e s

/--
The interface tiles that have been opened in a direction, in the order of opening.
-/
def tilesInUse (_ : Target) (s : InterfaceSlots) (d : Direction) : List Coord :=
  (s.toward d).map InterfaceSlot.tile

/--
The channels that a direction can still get, on open tiles and on others.
-/
def remaining (t : Target) (s : InterfaceSlots) (d : Direction) : Nat :=
  let left := (s.toward d).foldr (fun slot n => slot.available + n) 0
  left + (t.interfaceColumns.length - (s.toward d).length) * t.interface.channels

end InterfaceSlots

end TileTraffic
