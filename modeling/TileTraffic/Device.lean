import TileTraffic.Graph.Basic
import TileTraffic.Lock
import TileTraffic.Error
import TileTraffic.Ordered

/-!
What has been set up on a device: tiles, locks, buffers with their homes, and lock pairs.

Tiles and locks are created when they are first asked for, and are known by their position in the
order of creation. An index leads from coordinates to tiles, and a tile lists its locks.
-/

namespace TileTraffic

/--
A buffer with a home.
-/
structure Buffer where
  /-- Its name in the program. -/
  symbol : String
  /-- Name of its declaration. -/
  decl : String
  level : Level
  shape : List Nat
  elementBytes : Nat
  /-- The tile that holds it. External memory is on no tile. -/
  tile : Option Coord
  deriving DecidableEq, Repr, Inhabited

namespace Buffer

/--
Number of elements, if it fits 64 bits.
-/
def volume? (b : Buffer) : Option Nat :=
  product? word64 b.shape

def toJson (b : Buffer) : Json :=
  .obj [
    ("symbol", .str b.symbol),
    ("decl", .str b.decl),
    ("level", b.level.toJson),
    ("shape", Json.ofNats b.shape),
    ("element_bytes", .int b.elementBytes),
    ("tile", Json.ofOption Coord.toJson b.tile)]

def ofJson? (j : Json) : Option Buffer := do
  let members ← j.wholeRecord? ["symbol", "decl", "level", "shape", "element_bytes", "tile"]
  let symbol ← Json.field? members "symbol" Json.str?
  let decl ← Json.field? members "decl" Json.str?
  let level ← Json.field? members "level" Level.ofJson?
  let shape ← Json.field? members "shape" (Json.list? (Json.nat? word64))
  let elementBytes ← Json.field? members "element_bytes" (Json.nat? word64)
  let tile ← Json.fieldOr? members "tile" none (Json.nullable? Coord.ofJson?)
  some { symbol, decl, level, shape, elementBytes, tile }

end Buffer

/--
What makes a buffer the same buffer: tile-local ones are private to a tile, external ones to an op.
-/
inductive BufferKey where
  | tileLocal (name : String) (tile : Coord)
  | shared (name : String)
  | external (name : String) (ref : Nat)
  deriving DecidableEq, Repr, Inhabited

namespace BufferKey

def symbol : BufferKey → String
  | .tileLocal name tile => s!"{name}_{tile.col}_{tile.row}"
  | .shared name => name
  | .external name ref => s!"{name}_ext{ref}"

end BufferKey

/--
A tile that is in use.
-/
structure Tile where
  coord : Coord
  role : Role
  /-- The positions of its locks, in the order of creation. -/
  locks : List Nat
  deriving DecidableEq, Repr, Inhabited

structure Device where
  target : Target
  policy : LockPolicy
  /-- In the order of creation. -/
  tiles : List Tile
  /-- The positions of the tiles, in the order of their coordinates. -/
  index : List (Coord × Nat)
  /-- In the order of creation. -/
  locks : List Lock
  buffers : List (BufferKey × Buffer)
  /-- The tiles of shared buffers, latest first. -/
  homes : List (String × Coord)
  /-- The lock pair of a buffer, given by its position, on a channel. -/
  pairs : List ((Nat × ChannelKey) × LockPair)
  deriving Repr, Inhabited

namespace Device

def empty (t : Target) (policy : LockPolicy) : Device :=
  ⟨t, policy, [], [], [], [], [], []⟩

def tileIndex? (d : Device) (c : Coord) : Option Nat :=
  d.index.lookup c

def addTile (d : Device) (c : Coord) : Device :=
  { d with
    tiles := d.tiles ++ [⟨c, d.target.roleOfRow c.row, []⟩]
    index := Ordered.insert Prod.fst (c, d.tiles.length) d.index }

/--
The position of the tile at `c`, which is created if need be.
-/
def tile (c : Coord) : EStateM CompileError Device Nat := fun d =>
  match d.tileIndex? c with
  | some n => .ok n d
  | none =>
    if d.target.contains c then
      .ok d.tiles.length (d.addTile c)
    else
      .error (.graph (.offGrid c d.target.columns d.target.rows)) d

/--
The tiles in the order of their coordinates.
-/
def tilesInOrder (d : Device) : List Tile :=
  d.index.filterMap fun (_, n) => d.tiles[n]?

def sortedTiles (d : Device) : List Coord :=
  d.tilesInOrder.map Tile.coord

/--
The positions of the locks on the tile at `c`.
-/
def locksOn (d : Device) (c : Coord) : List Nat :=
  (((d.tileIndex? c).bind fun n => d.tiles[n]?).map Tile.locks).getD []

/--
The locks of a tile, with their positions.
-/
def held (d : Device) (tile : Tile) : Except CompileError (List (Nat × Lock)) :=
  tile.locks.mapM fun n => return (n, ← elementAt d.locks n)

/--
Add a lock to the device, and to the tile at position `n`.
-/
def addLock (d : Device) (n : Nat) (lock : Lock) : Device :=
  { d with
    tiles := d.tiles.modify n fun tile => { tile with locks := tile.locks ++ [d.locks.length] }
    locks := d.locks ++ [lock] }

/--
A new lock on the tile at `c`, which is at position `n`, with the given id or else the lowest one
that is not used.
-/
def newLock (c : Coord) (n : Nat) (role : Role) (used : List Nat) (init : Int) (id : Option Nat) :
    EStateM CompileError Device (Nat × Lock) := fun d =>
  let budget := (d.target.budget role).locks
  let id := id.getD ((firstBelow budget fun n => n ∉ used).getD budget)
  if id < budget then
    let lock := ⟨c, id, init⟩
    .ok (d.locks.length, lock) (d.addLock n lock)
  else
    .error (.capacity (.locks role c budget)) d

/--
A lock on a tile: the one with the id that is asked for, where there is one already, or a new one.
-/
def allocateLock (c : Coord) (init : Int) (id : Option Nat) :
    EStateM CompileError Device (Nat × Lock) := do
  let n ← tile c
  let d ← get
  let tile ← MonadExcept.ofExcept (elementAt d.tiles n)
  let held ← MonadExcept.ofExcept (d.held tile)
  match id.bind fun id => held.find? fun x => x.2.id = id with
  | some found => return found
  | none => newLock c n tile.role (held.map fun x => x.2.id) init id

/--
The position of the buffer with a key. It is created from its declaration if need be.
-/
def intern (d : Device) (key : BufferKey) (decl : BufferDecl) (tile : Option Coord) :
    Nat × Device :=
  match d.buffers.findIdx? fun b => b.1 = key with
  | some n => (n, d)
  | none =>
    let buffer := ⟨key.symbol, decl.name, decl.level, decl.shape, decl.elementBytes, tile⟩
    (d.buffers.length, { d with buffers := d.buffers ++ [(key, buffer)] })

def buffer? (d : Device) (index : Nat) : Option Buffer :=
  d.buffers[index]?.map Prod.snd

def setHome (d : Device) (buffer : String) (tile : Coord) : Device :=
  { d with homes := (buffer, tile) :: d.homes }

def home? (d : Device) (buffer : String) : Option Coord :=
  d.homes.lookup buffer

/--
The lock pair of a buffer on a channel, if it has one.
-/
def pair? (d : Device) (buffer : Nat) (channel : ChannelKey) : Option LockPair :=
  d.pairs.lookup (buffer, channel)

/--
The write lock that goes with a read lock. Under the counting policy it is a lock of its own and,
where ids are asked for, the next one.
-/
def writeLock (c : Coord) (read : Lock) (id : Option Nat) : EStateM CompileError Device Lock := do
  let policy := (← get).policy
  match policy with
  | .binary => return read
  | .counting =>
    match id with
    | none => return (← allocateLock c policy.writeInit none).2
    | some id =>
      if id + 1 < word32 then
        return (← allocateLock c policy.writeInit (some (id + 1))).2
      else
        throw (.capacity (.lockIds id c))

/--
The lock pair of a buffer on a channel. It is created on the tile of the channel when it is first
asked for, from the lock `id` onwards where one is given; a lock that has the id already is shared.
-/
def lockPair (buffer : Nat) (channel : ChannelKey) (id : Option Nat) :
    EStateM CompileError Device LockPair := do
  match (← get).pair? buffer channel with
  | some pair => return pair
  | none =>
    let c := channel.tile
    let read ← allocateLock c (← get).policy.readInit id
    let write ← writeLock c read.2 id
    let pair := ⟨⟨c, read.2.id⟩, ⟨c, write.id⟩⟩
    modify fun d => { d with pairs := d.pairs ++ [((buffer, channel), pair)] }
    return pair

end Device

end TileTraffic
