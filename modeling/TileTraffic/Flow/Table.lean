import TileTraffic.Error

/-!
The flow table: which outbound channels feed which inbound channels.
-/

namespace TileTraffic

/--
A stream from one channel to another.
-/
structure Flow where
  source : ChannelKey
  dest : ChannelKey
  deriving DecidableEq, Repr, Inhabited

namespace Flow

def toJson (f : Flow) : Json :=
  .obj [("source", f.source.toJson), ("dest", f.dest.toJson)]

end Flow

/--
The flows of a device. An index leads from a flow to its position.
-/
structure FlowTable where
  /-- In the order in which they were connected. -/
  flows : List Flow
  /-- The positions of the flows, latest first. -/
  index : List (Flow × Nat)
  deriving DecidableEq, Repr, Inhabited

namespace FlowTable

def empty : FlowTable :=
  ⟨[], []⟩

def position? (table : FlowTable) (f : Flow) : Option Nat :=
  table.index.lookup f

def add (table : FlowTable) (f : Flow) : FlowTable where
  flows := table.flows ++ [f]
  index := (f, table.flows.length) :: table.index

/--
The position of the flow between two channels, which is connected if need be. A flow leaves an
outbound channel, enters an inbound one, and does not stay on its tile.
-/
def connect (source dest : ChannelKey) : EStateM CompileError FlowTable Nat := fun table =>
  if source.direction ≠ .outbound ∨ dest.direction ≠ .inbound then
    .error (.codeGen (.misdirected source dest)) table
  else if source.tile = dest.tile then
    .error (.path (.channel source) (.channel dest)) table
  else
    match table.position? ⟨source, dest⟩ with
    | some n => .ok n table
    | none => .ok table.flows.length (table.add ⟨source, dest⟩)

end FlowTable

end TileTraffic
