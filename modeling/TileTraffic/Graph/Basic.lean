import TileTraffic.Graph.Op
import TileTraffic.Grid
import TileTraffic.Host.Stmt

/-!
Movement graphs: the declarations of one device scope and its movement ops in program order.
-/

namespace TileTraffic

/--
A declared buffer.
-/
structure BufferDecl where
  name : String
  level : Level
  shape : List Nat
  elementBytes : Nat
  deriving DecidableEq, Repr, Inhabited

namespace BufferDecl

/--
Number of elements, if it fits 64 bits.
-/
def volume? (b : BufferDecl) : Option Nat :=
  product? word64 b.shape

/--
Number of bytes, if it fits 64 bits.
-/
def bytes? (b : BufferDecl) : Option Nat := do
  fit? word64 ((← b.volume?) * b.elementBytes)

def toJson (b : BufferDecl) : Json :=
  .obj [
    ("name", .str b.name),
    ("level", b.level.toJson),
    ("shape", Json.ofNats b.shape),
    ("element_bytes", .int b.elementBytes)]

def ofJson? (j : Json) : Option BufferDecl := do
  let members ← j.record? ["name", "level", "shape", "element_bytes"]
  let name ← Json.field? members "name" Json.str?
  let level ← Json.field? members "level" Level.ofJson?
  let shape ← Json.field? members "shape" (Json.list? (Json.nat? word64))
  let elementBytes ← Json.fieldOr? members "element_bytes" 4 (Json.nat? word64)
  some { name, level, shape, elementBytes }

end BufferDecl

/--
A declared logical channel. With a broadcast shape it has one consumer for every position of the
shape; without one it is unicast.
-/
structure ChannelDecl where
  name : String
  broadcastShape : Option (List Nat)
  deriving DecidableEq, Repr, Inhabited

namespace ChannelDecl

/--
Number of consumers, if it fits 32 bits.
-/
def consumerCount? (c : ChannelDecl) : Option Nat :=
  match c.broadcastShape with
  | some shape => product? word32 shape
  | none => some 1

def toJson (c : ChannelDecl) : Json :=
  .obj [("name", .str c.name), ("broadcast_shape", Json.ofOption Json.ofNats c.broadcastShape)]

def ofJson? (j : Json) : Option ChannelDecl := do
  let members ← j.record? ["name", "broadcast_shape"]
  let name ← Json.field? members "name" Json.str?
  let broadcastShape ← Json.fieldOr? members "broadcast_shape" none
    (Json.nullable? (Json.list? (Json.nat? word32)))
  some { name, broadcastShape }

end ChannelDecl

/--
A rectangle of tiles over which ops are replicated.
-/
structure Region where
  name : String
  col : Nat
  row : Nat
  cols : Nat
  rows : Nat
  deriving DecidableEq, Repr, Inhabited

namespace Region

def size (r : Region) : List Nat :=
  [r.cols, r.rows]

/--
The tile of the cell at `index`. A missing coordinate is 0; a third one is an error, as is a cell
outside the region.
-/
def tileAt? (r : Region) (index : List Nat) : Option Coord :=
  let x := index[0]?.getD 0
  let y := index[1]?.getD 0
  if index.length ≤ 2 ∧ x < r.cols ∧ y < r.rows then
    some ⟨r.col + x, r.row + y⟩
  else
    none

def toJson (r : Region) : Json :=
  .obj [
    ("name", .str r.name),
    ("col", .int r.col),
    ("row", .int r.row),
    ("cols", .int r.cols),
    ("rows", .int r.rows)]

def ofJson? (j : Json) : Option Region := do
  let members ← j.record? ["name", "col", "row", "cols", "rows"]
  let name ← Json.field? members "name" Json.str?
  let col ← Json.field? members "col" (Json.nat? word32)
  let row ← Json.field? members "row" (Json.nat? word32)
  let cols ← Json.field? members "cols" (Json.nat? word32)
  let rows ← Json.field? members "rows" (Json.nat? word32)
  some { name, col, row, cols, rows }

end Region

/--
The movement graph of one device scope. Of several declarations with one name the first counts.
-/
structure Graph where
  scope : String
  buffers : List BufferDecl
  channels : List ChannelDecl
  regions : List Region
  ops : List Op
  host : Option Host
  deriving Repr, Inhabited

namespace Graph

def empty (scope : String) : Graph :=
  ⟨scope, [], [], [], [], none⟩

def buffer? (g : Graph) (name : String) : Option BufferDecl :=
  g.buffers.find? fun b => b.name = name

def channel? (g : Graph) (name : String) : Option ChannelDecl :=
  g.channels.find? fun c => c.name = name

def region? (g : Graph) (name : String) : Option Region :=
  g.regions.find? fun r => r.name = name

def occurrences (g : Graph) : List Occurrence :=
  g.ops.zipIdx.map fun (op, ref) => ⟨ref, op⟩

/--
The op at position `ref`.
-/
def occurrence? (g : Graph) (ref : Nat) : Option Occurrence :=
  g.ops[ref]?.map fun op => ⟨ref, op⟩

def toJson (g : Graph) : Json :=
  .obj [
    ("scope", .str g.scope),
    ("buffers", .arr (g.buffers.map BufferDecl.toJson)),
    ("channels", .arr (g.channels.map ChannelDecl.toJson)),
    ("regions", .arr (g.regions.map Region.toJson)),
    ("ops", .arr (g.ops.map Op.toJson)),
    ("host", Json.ofOption Host.toJson g.host)]

def ofJson? (j : Json) : Option Graph := do
  let members ← j.record? ["scope", "buffers", "channels", "regions", "ops", "host"]
  let scope ← Json.field? members "scope" Json.str?
  let buffers ← Json.fieldOr? members "buffers" [] (Json.list? BufferDecl.ofJson?)
  let channels ← Json.fieldOr? members "channels" [] (Json.list? ChannelDecl.ofJson?)
  let regions ← Json.fieldOr? members "regions" [] (Json.list? Region.ofJson?)
  let ops ← Json.fieldOr? members "ops" [] (Json.list? Op.ofJson?)
  let host ← Json.fieldOr? members "host" none (Json.nullable? Host.ofJson?)
  some { scope, buffers, channels, regions, ops, host }

end Graph

end TileTraffic
