import TileTraffic.Graph.Access

/-!
Movement ops.

An op copies from one buffer to another, or is one half of such a movement whose other half is found
through a logical channel: a put reads, a get writes.
-/

namespace TileTraffic

/--
What an op moves.
-/
inductive Movement where
  | copy (src dst : Access)
  | put (channel : String) (src : Access)
  | get (channel : String) (dst : Access)
  deriving DecidableEq, Repr, Inhabited

namespace Movement

def src? : Movement → Option Access
  | .copy src _ | .put _ src => some src
  | .get _ _ => none

def dst? : Movement → Option Access
  | .copy _ dst | .get _ dst => some dst
  | .put _ _ => none

/--
The logical channel, for the halves of a movement.
-/
def channel? : Movement → Option String
  | .put channel _ | .get channel _ => some channel
  | .copy _ _ => none

/--
All sides, the one that is read first.
-/
def accesses (m : Movement) : List Access :=
  m.src?.toList ++ m.dst?.toList

end Movement

/--
A movement op.
-/
structure Op where
  id : Nat
  movement : Movement
  /-- The region whose cell the op runs in. -/
  region : Option String
  /-- The cell inside the region. -/
  spatialIndex : Option (List Nat)
  /-- Indices into the logical channel. -/
  indices : List Nat
  /-- Tokens that the op waits for. They are carried along. -/
  dependsOn : List Nat
  /-- Where the op comes from, for messages. -/
  location : Option String
  deriving DecidableEq, Repr, Inhabited

namespace Op

/--
The side of the op at a level of memory, the one that is read if both are there.
-/
def accessAt? (op : Op) (level : Level) : Option Access :=
  op.movement.accesses.find? fun a => a.level = level

def movementMembers : Movement → List (String × Json)
  | .copy src dst => [("kind", .str "copy"), ("src", src.toJson), ("dst", dst.toJson)]
  | .put channel src => [("kind", .str "put"), ("channel", .str channel), ("src", src.toJson)]
  | .get channel dst => [("kind", .str "get"), ("channel", .str channel), ("dst", dst.toJson)]

def toJson (op : Op) : Json :=
  .obj (("id", .int op.id) :: movementMembers op.movement ++ [
    ("region", Json.ofOption .str op.region),
    ("spatial_index", Json.ofOption Json.ofNats op.spatialIndex),
    ("indices", Json.ofNats op.indices),
    ("depends_on", Json.ofNats op.dependsOn),
    ("location", Json.ofOption .str op.location)])

/--
The three kinds of movement, with the fields that belong to each.
-/
inductive Kind where
  | copy
  | put
  | get

namespace Kind

/--
A kind is given by its name or by its position in the list of kinds.
-/
def ofJson? : Json → Option Kind
  | .str "copy" | .int 0 => some .copy
  | .str "put" | .int 1 => some .put
  | .str "get" | .int 2 => some .get
  | _ => none

def fields : Kind → List String
  | .copy => ["src", "dst"]
  | .put => ["channel", "src"]
  | .get => ["channel", "dst"]

end Kind

/--
The movement that the members of an op describe. Fields that belong to another kind are ignored.
-/
def movement? (members : List (String × Json)) : Option Movement := do
  let kind ← Json.field? members "kind" Kind.ofJson?
  if !Json.unrepeated kind.fields members then
    none
  else
    match kind with
    | .copy => do
      let src ← Json.field? members "src" Access.ofLooseJson?
      let dst ← Json.field? members "dst" Access.ofLooseJson?
      some (.copy src dst)
    | .put => do
      let channel ← Json.field? members "channel" Json.str?
      let src ← Json.field? members "src" Access.ofLooseJson?
      some (.put channel src)
    | .get => do
      let channel ← Json.field? members "channel" Json.str?
      let dst ← Json.field? members "dst" Access.ofLooseJson?
      some (.get channel dst)

def fields : List String :=
  ["id", "kind", "region", "spatial_index", "indices", "depends_on", "location"]

/--
An op is always written as an object, all members of which have to be readable.
-/
def ofJson? : Json → Option Op
  | .obj members => do
    if !(Json.unrepeated fields members && Json.membersReadable members) then
      none
    else
      let id ← Json.field? members "id" (Json.nat? word32)
      let movement ← movement? members
      let region ← Json.fieldOr? members "region" none (Json.nullable? Json.str?)
      let spatialIndex ← Json.fieldOr? members "spatial_index" none
        (Json.nullable? (Json.list? (Json.nat? word32)))
      let indices ← Json.fieldOr? members "indices" [] (Json.list? (Json.nat? word32))
      let dependsOn ← Json.fieldOr? members "depends_on" [] (Json.list? (Json.nat? word32))
      let location ← Json.fieldOr? members "location" none (Json.nullable? Json.str?)
      some { id, movement, region, spatialIndex, indices, dependsOn, location }
  | _ => none

end Op

/--
An op together with its position in the graph. Ids may be shared by several ops; positions may not.
-/
structure Occurrence where
  ref : Nat
  op : Op
  deriving DecidableEq, Repr, Inhabited

end TileTraffic
