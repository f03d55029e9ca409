import TileTraffic.Channel.Pool
import TileTraffic.Graph.Basic

/-!
The side table for the host: which interface channel serves which op, and which cell is at the far
end.
-/

namespace TileTraffic

/--
One op on one interface channel.
-/
structure MetadataRecord where
  id : Nat
  /-- Column of the far end, relative to the origin of the region. -/
  col : Int
  /-- Row of the far end, relative to the origin of the region. -/
  row : Int
  /-- Channel number for the host, which counts the outbound channels after the inbound ones. -/
  channel : Nat
  /-- Interface column. -/
  location : Nat
  direction : Direction
  deriving DecidableEq, Repr, Inhabited

namespace MetadataRecord

def toJson (r : MetadataRecord) : Json :=
  .obj [
    ("id", .int r.id),
    ("col", .int r.col),
    ("row", .int r.row),
    ("channel", .int r.channel),
    ("location", .int r.location),
    ("direction", r.direction.toJson)]

def ofJson? (j : Json) : Option MetadataRecord := do
  let members ← j.record? ["id", "col", "row", "channel", "location", "direction"]
  let id ← Json.field? members "id" (Json.nat? word32)
  let col ← Json.field? members "col" Json.int64?
  let row ← Json.field? members "row" Json.int64?
  let channel ← Json.field? members "channel" (Json.nat? word32)
  let location ← Json.field? members "location" (Json.nat? word32)
  let direction ← Json.field? members "direction" Direction.ofJson?
  some { id, col, row, channel, location, direction }

end MetadataRecord

/--
The records of the ops of one region, or of those outside all regions.
-/
structure MetadataGroup where
  name : String
  records : List MetadataRecord
  deriving DecidableEq, Repr, Inhabited

namespace MetadataGroup

def toJson (group : MetadataGroup) : Json :=
  .obj [("name", .str group.name), ("allocations", .arr (group.records.map MetadataRecord.toJson))]

def ofJson? (j : Json) : Option MetadataGroup := do
  let members ← j.record? ["name", "allocations"]
  let name ← Json.field? members "name" Json.str?
  let records ← Json.field? members "allocations" (Json.list? MetadataRecord.ofJson?)
  some { name, records }

end MetadataGroup

structure Metadata where
  scope : String
  groups : List MetadataGroup
  deriving DecidableEq, Repr, Inhabited

namespace Metadata

def toJson (m : Metadata) : Json :=
  .obj [("scope", .str m.scope), ("regions", .arr (m.groups.map MetadataGroup.toJson))]

def ofJson? (j : Json) : Option Metadata := do
  let members ← j.record? ["scope", "regions"]
  let scope ← Json.field? members "scope" Json.str?
  let groups ← Json.field? members "regions" (Json.list? MetadataGroup.ofJson?)
  some { scope, groups }

/--
All records, group by group.
-/
def records (m : Metadata) : List MetadataRecord :=
  m.groups.flatMap MetadataGroup.records

def lookup (m : Metadata) (id : Nat) : List MetadataRecord :=
  m.records.filter fun r => r.id = id

def size (m : Metadata) : Nat :=
  m.records.length

/--
The elements of a list without those that have come before.
-/
def distinct (ids : List Nat) : List Nat :=
  ids.foldl (fun seen id => if id ∈ seen then seen else seen ++ [id]) []

/--
The records of one interface channel for the op ids `members`, seen from `origin`. A channel that
faces no tile is no interface channel and has none. Outbound channels are numbered from `channels`
on.
-/
def recordsOf (members : List Nat) (origin : Coord) (channels : Nat) (a : Allocation) :
    List MetadataRecord :=
  match a.partner with
  | none => []
  | some partner =>
    let channel :=
      match a.key.direction with
      | .inbound => a.key.id
      | .outbound => a.key.id + channels
    (distinct (a.opIds.filter fun id => id ∈ members)).map fun id =>
      ⟨id, partner.col - origin.col, partner.row - origin.row, channel, a.key.tile.col,
        a.key.direction⟩

def group (allocations : List Allocation) (channels : Nat) (name : String) (origin : Coord)
    (ops : List Op) : MetadataGroup :=
  ⟨name, allocations.flatMap (recordsOf (ops.map Op.id) origin channels)⟩

/--
The side table of a graph: a group for every region, and one with the name of the scope for the ops
outside all regions. Groups without records are left out.
-/
def build (g : Graph) (allocations : List Allocation) (channels : Nat) : Metadata :=
  let regions := g.regions.map fun r =>
    let ops := g.ops.filter fun op => op.region = some r.name
    group allocations channels r.name ⟨r.col, r.row⟩ ops
  let scope := group allocations channels g.scope ⟨0, 0⟩ (g.ops.filter fun op => op.region = none)
  ⟨g.scope, (regions ++ [scope]).filter fun group => !group.records.isEmpty⟩

end Metadata

end TileTraffic
