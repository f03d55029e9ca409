import TileTraffic.Grid
import TileTraffic.Json.Basic

/-!
Target descriptions: the extent of the tile array, what every kind of tile has to offer, and how the
device generation locks buffers and starts chains.

Row 0 holds the interface tiles, the rows directly above it the shared memory tiles, and all further
rows the compute tiles.
-/

namespace TileTraffic

/--
What a tile is for.
-/
inductive Role where
  /-- Faces external memory, where its column has a path there. -/
  | interface
  /-- Holds mid-level memory. -/
  | shared
  /-- Computes, with a private memory. -/
  | compute
  deriving DecidableEq, Repr, Inhabited

namespace Role

instance : ToString Role where
  toString
    | .interface => "interface"
    | .shared => "shared"
    | .compute => "compute"

def vocabulary : List (String × Role) :=
  [("interface", .interface), ("shared", .shared), ("compute", .compute)]

def toJson (role : Role) : Json :=
  .str (toString role)

def ofJson? : Json → Option Role :=
  Json.word? vocabulary

end Role

namespace Direction

def vocabulary : List (String × Direction) :=
  [("inbound", .inbound), ("outbound", .outbound)]

def toJson : Direction → Json
  | .inbound => .str "inbound"
  | .outbound => .str "outbound"

def ofJson? : Json → Option Direction :=
  Json.word? vocabulary

@[simp]
theorem ofJson?_toJson (d : Direction) : ofJson? d.toJson = some d := by
  cases d <;> rfl

end Direction

namespace Coord

def toJson (c : Coord) : Json :=
  .obj [("col", .int c.col), ("row", .int c.row)]

def ofJson? (j : Json) : Option Coord := do
  let members ← j.record? ["col", "row"]
  let col ← Json.field? members "col" (Json.nat? word32)
  let row ← Json.field? members "row" (Json.nat? word32)
  some ⟨col, row⟩

end Coord

namespace ChannelKey

def toJson (k : ChannelKey) : Json :=
  .obj [("tile", k.tile.toJson), ("direction", k.direction.toJson), ("id", .int k.id)]

def ofJson? (j : Json) : Option ChannelKey := do
  let members ← j.record? ["tile", "direction", "id"]
  let tile ← Json.field? members "tile" Coord.ofJson?
  let direction ← Json.field? members "direction" Direction.ofJson?
  let id ← Json.field? members "id" (Json.nat? word32)
  some ⟨tile, direction, id⟩

end ChannelKey

/--
How the locks of a device generation work.
-/
inductive LockPolicy where
  /-- One lock for a buffer on a channel, taken at an exact value of 0 or 1. -/
  | binary
  /-- Two counting locks, one for filled and one for free slots. -/
  | counting
  deriving DecidableEq, Repr, Inhabited

namespace LockPolicy

def label : LockPolicy → String
  | .binary => "Binary"
  | .counting => "Counting"

def vocabulary : List (String × LockPolicy) :=
  [("binary", .binary), ("counting", .counting)]

def toJson : LockPolicy → Json
  | .binary => .str "binary"
  | .counting => .str "counting"

def ofJson? : Json → Option LockPolicy :=
  Json.word? vocabulary

@[simp]
theorem ofJson?_toJson (p : LockPolicy) : ofJson? p.toJson = some p := by
  cases p <;> rfl

end LockPolicy

/--
How the dispatcher of a tile starts the chain of a channel.
-/
inductive StartPrimitive where
  /-- A start block that branches on. -/
  | start
  /-- A task that is queued and may be restarted. -/
  | startTask
  deriving DecidableEq, Repr, Inhabited

namespace StartPrimitive

def label : StartPrimitive → String
  | .start => "Start"
  | .startTask => "StartTask"

def vocabulary : List (String × StartPrimitive) :=
  [("start", .start), ("start_task", .startTask)]

def toJson : StartPrimitive → Json
  | .start => .str "start"
  | .startTask => .str "start_task"

def ofJson? : Json → Option StartPrimitive :=
  Json.word? vocabulary

@[simp]
theorem ofJson?_toJson (p : StartPrimitive) : ofJson? p.toJson = some p := by
  cases p <;> rfl

end StartPrimitive

/--
What one tile of a role has.
-/
structure Budget where
  /-- Channels in each direction. -/
  channels : Nat
  locks : Nat
  /-- Descriptor slots, shared by all channels of the tile. -/
  descriptors : Nat
  deriving DecidableEq, Repr, Inhabited

namespace Budget

def toJson (b : Budget) : Json :=
  .obj [("channels", .int b.channels), ("locks", .int b.locks), ("descriptors", .int b.descriptors)]

def ofJson? (j : Json) : Option Budget := do
  let members ← j.record? ["channels", "locks", "descriptors"]
  let channels ← Json.field? members "channels" (Json.nat? word32)
  let locks ← Json.field? members "locks" (Json.nat? word32)
  let descriptors ← Json.field? members "descriptors" (Json.nat? word32)
  some ⟨channels, locks, descriptors⟩

end Budget

/--
A target device.
-/
structure Target where
  name : String
  columns : Nat
  rows : Nat
  /-- Columns with a path to external memory, in the order in which they are filled. -/
  interfaceColumns : List Nat
  /-- Number of rows of shared memory tiles. -/
  sharedRows : Nat
  /-- Bytes of memory on each shared memory tile. -/
  sharedTileBytes : Nat
  interface : Budget
  shared : Budget
  compute : Budget
  lockPolicy : LockPolicy
  startPrimitive : StartPrimitive
  /-- Whether one control processor serves the whole device. -/
  singleControlProcessor : Bool
  deriving DecidableEq, Repr, Inhabited

namespace Target

/--
The first device generation: binary locks, no shared memory tiles, one control processor. Two of
every four columns reach external memory.
-/
def gen1 (columns rows : Nat) : Target where
  name := s!"gen1-{columns}x{rows}"
  columns := columns
  rows := rows
  interfaceColumns := (List.range columns).filter fun c => c % 4 == 2 || c % 4 == 3
  sharedRows := 0
  sharedTileBytes := 0
  interface := ⟨2, 16, 16⟩
  shared := ⟨0, 0, 0⟩
  compute := ⟨2, 16, 16⟩
  lockPolicy := .binary
  startPrimitive := .start
  singleControlProcessor := true

/--
The second device generation: counting locks and one row of shared memory tiles of 512 KiB. Every
column reaches external memory.
-/
def gen2 (columns rows : Nat) : Target where
  name := s!"gen2-{columns}x{rows}"
  columns := columns
  rows := rows
  interfaceColumns := List.range columns
  sharedRows := 1
  sharedTileBytes := 512 * 1024
  interface := ⟨2, 16, 16⟩
  shared := ⟨6, 64, 48⟩
  compute := ⟨2, 16, 16⟩
  lockPolicy := .counting
  startPrimitive := .startTask
  singleControlProcessor := false

def standard : Target :=
  gen2 4 6

def contains (t : Target) (c : Coord) : Bool :=
  c.col < t.columns && c.row < t.rows

def roleOfRow (t : Target) (row : Nat) : Role :=
  if row = 0 then .interface
  else if row ≤ t.sharedRows then .shared
  else .compute

def budget (t : Target) : Role → Budget
  | .interface => t.interface
  | .shared => t.shared
  | .compute => t.compute

/--
The budget of the tile at `c`.
-/
def budgetAt (t : Target) (c : Coord) : Budget :=
  t.budget (t.roleOfRow c.row)

def channelsOfRow (t : Target) (row : Nat) : Nat :=
  (t.budget (t.roleOfRow row)).channels

def hasSharedTiles (t : Target) : Bool :=
  0 < t.sharedRows && 0 < t.shared.channels

/--
The shared memory tiles that lie on the grid, row by row from row 1 upwards.
-/
def sharedTiles (t : Target) : List Coord :=
  (List.range (min t.sharedRows (t.rows - 1))).flatMap fun r =>
    (List.range t.columns).map fun c => ⟨c, r + 1⟩

def toJson (t : Target) : Json :=
  .obj [
    ("name", .str t.name),
    ("columns", .int t.columns),
    ("rows", .int t.rows),
    ("interface_columns", Json.ofNats t.interfaceColumns),
    ("shared_rows", .int t.sharedRows),
    ("shared_tile_bytes", .int t.sharedTileBytes),
    ("interface", t.interface.toJson),
    ("shared", t.shared.toJson),
    ("compute", t.compute.toJson),
    ("lock_policy", t.lockPolicy.toJson),
    ("start_primitive", t.startPrimitive.toJson),
    ("single_control_processor", .bool t.singleControlProcessor)]

def fields : List String :=
  ["name", "columns", "rows", "interface_columns", "shared_rows", "shared_tile_bytes", "interface",
    "shared", "compute", "lock_policy", "start_primitive", "single_control_processor"]

def ofJson? (j : Json) : Option Target := do
  let members ← j.record? fields
  let name ← Json.field? members "name" Json.str?
  let columns ← Json.field? members "columns" (Json.nat? word32)
  let rows ← Json.field? members "rows" (Json.nat? word32)
  let interfaceColumns ← Json.field? members "interface_columns" (Json.list? (Json.nat? word32))
  let sharedRows ← Json.field? members "shared_rows" (Json.nat? word32)
  let sharedTileBytes ← Json.field? members "shared_tile_bytes" (Json.nat? word64)
  let interface ← Json.field? members "interface" Budget.ofJson?
  let shared ← Json.field? members "shared" Budget.ofJson?
  let compute ← Json.field? members "compute" Budget.ofJson?
  let lockPolicy ← Json.field? members "lock_policy" LockPolicy.ofJson?
  let startPrimitive ← Json.field? members "start_primitive" StartPrimitive.ofJson?
  let singleControlProcessor ← Json.field? members "single_control_processor" Json.bool?
  some {
    name, columns, rows, interfaceColumns, sharedRows, sharedTileBytes, interface, shared, compute,
    lockPolicy, startPrimitive, singleControlProcessor }

end Target

end TileTraffic
