/-!
Places on the device: tiles, the two directions of their memory ports, and channels.

Tiles are ordered by column and then by row, channels by tile, direction (inbound first) and number.
-/

namespace TileTraffic

/--
Position of a tile in the grid.
-/
structure Coord where
  col : Nat
  row : Nat
  deriving DecidableEq, Repr, Inhabited

namespace Coord

instance : ToString Coord where
  toString c := s!"({c.col}, {c.row})"

instance : LT Coord where
  lt a b := a.col < b.col ∨ a.col = b.col ∧ a.row < b.row

instance : DecidableLT Coord := fun a b =>
  inferInstanceAs (Decidable (a.col < b.col ∨ a.col = b.col ∧ a.row < b.row))

theorem lt_iff {a b : Coord} : a < b ↔ a.col < b.col ∨ a.col = b.col ∧ a.row < b.row :=
  Iff.rfl

end Coord

/--
Which way a channel moves data, seen from the memory of its tile.
-/
inductive Direction where
  /-- From the stream into the memory. -/
  | inbound
  /-- From the memory onto the stream. -/
  | outbound
  deriving DecidableEq, Repr, Inhabited

namespace Direction

/--
The engine that serves this direction: stream to memory-map or memory-map to stream.
-/
def mnemonic : Direction → String
  | .inbound => "S2MM"
  | .outbound => "MM2S"

def rank : Direction → Nat
  | .inbound => 0
  | .outbound => 1

instance : ToString Direction where
  toString
    | .inbound => "inbound"
    | .outbound => "outbound"

theorem rank_inj {a b : Direction} : a.rank = b.rank ↔ a = b := by
  cases a <;> cases b <;> decide

end Direction

/--
One channel of the device: the tile it sits on, its direction and its number among the channels of
that direction.
-/
structure ChannelKey where
  tile : Coord
  direction : Direction
  id : Nat
  deriving DecidableEq, Repr, Inhabited

namespace ChannelKey

instance : ToString ChannelKey where
  toString k := s!"{k.tile}:{k.direction.mnemonic}{k.id}"

/--
The order of channels, spelled out.
-/
def Before (a b : ChannelKey) : Prop :=
  a.tile < b.tile ∨
    a.tile = b.tile ∧
      (a.direction.rank < b.direction.rank ∨ a.direction = b.direction ∧ a.id < b.id)

instance : DecidableRel Before := fun a b => by
  unfold Before
  infer_instance

instance : LT ChannelKey where
  lt := Before

instance : DecidableLT ChannelKey := fun a b => inferInstanceAs (Decidable (Before a b))

theorem lt_iff {a b : ChannelKey} : a < b ↔ Before a b :=
  Iff.rfl

/--
`keys` in increasing order, every key as often as it occurs.
-/
def sort (keys : List ChannelKey) : List ChannelKey :=
  keys.mergeSort fun a b => !decide (b < a)

end ChannelKey

/--
Position number `n` of a box with the given side lengths, the first coordinate running fastest. A
side of length zero counts as one position.
-/
def position : List Nat → Nat → List Nat
  | [], _ => []
  | side :: sides, n => n % max side 1 :: position sides (n / max side 1)

theorem length_position (sides : List Nat) (n : Nat) :
    (position sides n).length = sides.length := by
  induction sides generalizing n with
  | nil => rfl
  | cons side sides ih => simp [position, ih]

end TileTraffic
