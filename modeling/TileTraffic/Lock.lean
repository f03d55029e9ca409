import TileTraffic.Target

/-!
Locks, and what the two sides of a buffer do with them.

A buffer on a channel is guarded by a pair of locks. The read lock says that the buffer is filled,
the write lock that it is free; under the binary policy one lock does both. The DMA engine takes one
of them around every transfer and releases the other; the core does the opposite around every use.
-/

namespace TileTraffic

/--
A lock of the device with its initial value.
-/
structure Lock where
  tile : Coord
  id : Nat
  init : Int
  deriving DecidableEq, Repr, Inhabited

namespace Lock

def toJson (l : Lock) : Json :=
  .obj [("tile", l.tile.toJson), ("id", .int l.id), ("init", .int l.init)]

end Lock

/--
A lock as actions refer to it.
-/
structure LockRef where
  tile : Coord
  id : Nat
  deriving DecidableEq, Repr, Inhabited

namespace LockRef

def toJson (l : LockRef) : Json :=
  .obj [("col", .int l.tile.col), ("row", .int l.tile.row), ("id", .int l.id)]

end LockRef

/--
The locks that guard one buffer on one channel.
-/
structure LockPair where
  read : LockRef
  write : LockRef
  deriving DecidableEq, Repr, Inhabited

namespace LockPair

def toJson (p : LockPair) : Json :=
  .obj [("read", p.read.toJson), ("write", p.write.toJson)]

end LockPair

/--
What is done to a lock.
-/
inductive LockOp where
  /-- Wait until the lock has exactly this value. -/
  | acquireEqual
  /-- Wait until the lock has at least this value, and subtract it. -/
  | acquireGreaterEqual
  /-- Set the lock to the value, or add the value to a counting lock. -/
  | release
  deriving DecidableEq, Repr, Inhabited

namespace LockOp

instance : ToString LockOp where
  toString
    | .acquireEqual => "acquire=="
    | .acquireGreaterEqual => "acquire>="
    | .release => "release"

def toJson : LockOp → Json
  | .acquireEqual => .str "acquire_equal"
  | .acquireGreaterEqual => .str "acquire_greater_equal"
  | .release => .str "release"

end LockOp

structure LockAction where
  lock : LockRef
  op : LockOp
  value : Int
  deriving DecidableEq, Repr, Inhabited

namespace LockAction

instance : ToString LockAction where
  toString a := s!"{a.op} lock({a.lock.tile.col},{a.lock.tile.row})#{a.lock.id} {a.value}"

def toJson (a : LockAction) : Json :=
  .obj [("lock", a.lock.toJson), ("op", a.op.toJson), ("value", .int a.value)]

end LockAction

/--
The two actions around one use of a buffer.
-/
structure Guard where
  acquire : LockAction
  release : LockAction
  deriving DecidableEq, Repr, Inhabited

namespace LockPolicy

/--
The value at which a write lock grants a free buffer.
-/
def emptyValue : LockPolicy → Int
  | .binary => 0
  | .counting => 1

def readInit : LockPolicy → Int
  | .binary => 0
  | .counting => 0

/--
Initial value of write locks: every buffer starts out free.
-/
def writeInit : LockPolicy → Int
  | .binary => 0
  | .counting => 1

def acquireOp : LockPolicy → LockOp
  | .binary => .acquireEqual
  | .counting => .acquireGreaterEqual

/--
Fill a buffer: wait until it is free, then report it filled.
-/
def fill (p : LockPolicy) (pair : LockPair) : Guard :=
  ⟨⟨pair.write, p.acquireOp, p.emptyValue⟩, ⟨pair.read, .release, 1⟩⟩

/--
Drain a buffer: wait until it is filled, then report it free.
-/
def drain (p : LockPolicy) (pair : LockPair) : Guard :=
  ⟨⟨pair.read, p.acquireOp, 1⟩, ⟨pair.write, .release, p.emptyValue⟩⟩

/--
What the DMA engine does around a transfer. An inbound channel fills the buffer.
-/
def dmaGuard (p : LockPolicy) (pair : LockPair) : Direction → Guard
  | .inbound => p.fill pair
  | .outbound => p.drain pair

/--
What a core does around a use of a buffer. It drains what an inbound channel has filled.
-/
def coreGuard (p : LockPolicy) (pair : LockPair) : Direction → Guard
  | .inbound => p.drain pair
  | .outbound => p.fill pair

end LockPolicy

end TileTraffic
