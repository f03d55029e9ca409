import TileTraffic.Bundle.Basic

/-!
The destinations of a broadcast.

The destinations are the positions of the broadcast shape, numbered with the first coordinate
running fastest. A get belongs to the destination that its indices name, where the indices of
dimensions of size 1 do not matter.
-/

namespace TileTraffic

namespace ChannelDecl

/--
The position that `indices` name in `shape`.
-/
def destinationPosition (shape indices : List Nat) : List Nat :=
  List.zipWith (fun side index => if side = 1 then 0 else index) shape indices

/--
Number of the destination that a get belongs to. On a unicast channel there is only one.
-/
def destination (c : ChannelDecl) (op : Op) : Except CompileError Nat :=
  match c.broadcastShape with
  | none => .ok 0
  | some shape =>
    let unresolved (what : BroadcastFault) : Except CompileError Nat :=
      .error (.unresolvedBroadcast c.name what ⟨some op.id, op.location⟩)
    if op.indices.length ≠ shape.length then
      unresolved (.rank op.indices.length shape.length)
    else
      match c.consumerCount? with
      | none => unresolved (.tooMany shape)
      | some count =>
        let wanted := destinationPosition shape op.indices
        match firstBelow count fun n => position shape n = wanted with
        | some n => .ok n
        | none => unresolved (.noMatch op.indices)

/--
Number of destinations on a target. Every destination needs a tile of its own.
-/
def destinationCount (c : ChannelDecl) (t : Target) : Except CompileError Nat :=
  let tiles := t.columns * t.rows
  match c.consumerCount? with
  | some count =>
    if count ≤ tiles then
      .ok count
    else
      .error (.capacity (.broadcastTiles c.broadcastShape c.name tiles))
  | none => .error (.capacity (.broadcastTiles c.broadcastShape c.name tiles))

end ChannelDecl

end TileTraffic
