import TileTraffic.Level

/-!
Accesses: which part of which buffer one side of a movement touches.
-/

namespace TileTraffic

/--
An extent, offset or stride: known when compiling, or a named value of the run time.
-/
inductive Dim where
  | known (n : Nat)
  | runtime (name : String)
  deriving DecidableEq, Repr, Inhabited

namespace Dim

instance : ToString Dim where
  toString
    | .known n => toString n
    | .runtime name => "%" ++ name

/--
The value, when it is known.
-/
def value? : Dim → Option Nat
  | .known n => some n
  | .runtime _ => none

def toJson : Dim → Json
  | .known n => .int n
  | .runtime name => .str name

def ofJson? : Json → Option Dim
  | .str name => some (.runtime name)
  | j => (j.nat? word64).map .known

end Dim

/--
A strided window over a buffer at some level of memory.
-/
structure Access where
  buffer : String
  level : Level
  offsets : List Dim
  sizes : List Dim
  strides : List Dim
  deriving DecidableEq, Repr, Inhabited

namespace Access

def whole (buffer : String) (level : Level) : Access :=
  ⟨buffer, level, [], [], []⟩

def withOffsets (a : Access) (offsets : List Nat) : Access :=
  { a with offsets := offsets.map .known }

def withSizes (a : Access) (sizes : List Nat) : Access :=
  { a with sizes := sizes.map .known }

def withStrides (a : Access) (strides : List Nat) : Access :=
  { a with strides := strides.map .known }

/--
Make the size of dimension `dim` a value of the run time. Dimensions that are missing before it get
size 1.
-/
def withRuntimeSize (a : Access) (dim : Nat) (name : String) : Access :=
  let padding := List.replicate (dim + 1 - a.sizes.length) (.known 1)
  { a with sizes := (a.sizes ++ padding).set dim (.runtime name) }

def toJson (a : Access) : Json :=
  .obj [
    ("buffer", .str a.buffer),
    ("level", a.level.toJson),
    ("offsets", .arr (a.offsets.map Dim.toJson)),
    ("sizes", .arr (a.sizes.map Dim.toJson)),
    ("strides", .arr (a.strides.map Dim.toJson))]

/--
Read an access whose level is read by `level`.
-/
def ofJsonWith? (level : Json → Option Level) (j : Json) : Option Access := do
  let members ← j.record? ["buffer", "level", "offsets", "sizes", "strides"]
  let buffer ← Json.field? members "buffer" Json.str?
  let level ← Json.field? members "level" level
  let offsets ← Json.fieldOr? members "offsets" [] (Json.list? Dim.ofJson?)
  let sizes ← Json.fieldOr? members "sizes" [] (Json.list? Dim.ofJson?)
  let strides ← Json.fieldOr? members "strides" [] (Json.list? Dim.ofJson?)
  some { buffer, level, offsets, sizes, strides }

def ofJson? : Json → Option Access :=
  ofJsonWith? Level.ofJson?

/--
As accesses may be written inside ops.
-/
def ofLooseJson? : Json → Option Access :=
  ofJsonWith? Level.ofLooseJson?

end Access

end TileTraffic
