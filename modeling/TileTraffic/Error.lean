import TileTraffic.Graph.Op
import TileTraffic.Grid
import TileTraffic.Target
import TileTraffic.Text

/-!
What can go wrong when a graph is mapped onto a target, and how it is reported.

Every error ends the compilation of its scope. Causes are values; `CompileError.message` is the only
place that words them. The `text` constructors hold a cause in the words of whoever reports it.
-/

namespace TileTraffic

/--
A resource that has run out.
-/
inductive Shortage where
  /-- Tiles of this role have no channels at all. -/
  | noChannels (direction : Direction) (tile : Coord)
  | interfaceChannels (direction : Direction) (columns channels : Nat)
  | descriptors (tile : Coord)
  | descriptorsOf (tile : Coord) (available : Nat)
  | locks (role : Role) (tile : Coord) (available : Nat)
  | lockIds (id : Nat) (tile : Coord)
  | sharedTiles (buffer : String)
  | sharedMemory (buffer : String) (bytes : Nat)
  | broadcastTiles (shape : Option (List Nat)) (channel : String) (tiles : Nat)
  | text (resource : String)
  deriving DecidableEq, Repr

namespace Shortage

protected def toString : Shortage → String
  | noChannels direction tile => s!"{direction} channels on tile {tile} (role has none)"
  | interfaceChannels direction columns channels =>
    s!"{direction} interface channels ({columns} columns x {channels} channels)"
  | descriptors tile => s!"buffer descriptors on tile {tile}"
  | descriptorsOf tile available => s!"buffer descriptors on tile {tile} ({available} available)"
  | locks role tile available => s!"locks on {role} tile {tile} ({available} available)"
  | lockIds id tile => s!"lock ids above {id} on tile {tile}"
  | sharedTiles buffer => s!"shared memory tiles for buffer '{buffer}' (target has none)"
  | sharedMemory buffer bytes => s!"shared memory for buffer '{buffer}' ({bytes} bytes)"
  | broadcastTiles shape channel tiles =>
    "tiles for the " ++ Text.optionalList shape ++
      s!" broadcast of channel '{channel}' ({tiles} in the grid)"
  | text resource => resource

end Shortage

/--
What a number that does not fit 64 bits would have said.
-/
inductive Quantity where
  | volume (symbol : String)
  | strides (symbol : String)
  | length (buffer : String)
  | offset (buffer : String)
  deriving DecidableEq, Repr

namespace Quantity

protected def toString : Quantity → String
  | volume symbol => s!"volume of '{symbol}'"
  | strides symbol => s!"strides of '{symbol}'"
  | length buffer => s!"transfer length into '{buffer}'"
  | offset buffer => s!"offset into '{buffer}'"

end Quantity

/--
A graph that makes no sense, by itself or on the target.
-/
inductive GraphFault where
  | bufferBytes (buffer : String) (shape : List Nat)
  | destinations (shape : Option (List Nat)) (channel : String)
  | unknownBuffer (name : String)
  | unknownChannel (name : String)
  | unknownRegion (name : String)
  | levelMismatch (buffer : String) (declared accessed : Level)
  | regionCells (region : String)
  | mixedLevels (channel : String) (first second : Level)
  | noProducer (channel : String)
  | noConsumer (channel : String)
  | noRegion
  | cellOutside (index : List Nat) (region : String)
  | notCompute (cell : Coord)
  | splitEndpoint (flow : String) (first second : ChannelKey)
  | offGrid (tile : Coord) (columns rows : Nat)
  | bufferTooLarge (buffer : String)
  | overflow (quantity : Quantity)
  | offsetRank (offsets : Nat) (buffer : String) (dimensions : Nat)
  | strideRank (offsets : Nat) (buffer : String) (strides : Nat)
  | text (message : String)
  deriving DecidableEq, Repr

namespace GraphFault

protected def toString : GraphFault → String
  | bufferBytes buffer shape =>
    s!"buffer '{buffer}' of shape " ++ Text.list shape ++ " overflows a 64-bit byte count"
  | destinations shape channel =>
    "broadcast shape " ++ Text.optionalList shape ++
      s!" of channel '{channel}' has too many destinations"
  | unknownBuffer name => s!"unknown buffer '{name}'"
  | unknownChannel name => s!"unknown channel '{name}'"
  | unknownRegion name => s!"unknown region '{name}'"
  | levelMismatch buffer declared accessed =>
    s!"buffer '{buffer}' is declared {declared} but accessed as {accessed}"
  | regionCells region => s!"region '{region}' has too many cells"
  | mixedLevels channel first second => s!"channel '{channel}' mixes {first} and {second} endpoints"
  | noProducer channel => s!"channel '{channel}' has no producer"
  | noConsumer channel => s!"channel '{channel}' has no consumer"
  | noRegion => "tile-local access outside any region"
  | cellOutside index region =>
    "spatial index " ++ Text.list index ++ s!" outside region '{region}'"
  | notCompute cell => s!"region cell {cell} is not a compute tile"
  | splitEndpoint flow first second =>
    s!"flow '{flow}' has one endpoint split over channels {first} and {second}"
  | offGrid tile columns rows => s!"tile {tile} is outside the {columns}x{rows} grid"
  | bufferTooLarge buffer => s!"buffer '{buffer}' is too large"
  | overflow quantity => quantity.toString ++ " does not fit in 64 bits"
  | offsetRank offsets buffer dimensions =>
    s!"{offsets} offsets into '{buffer}' with {dimensions} dimensions"
  | strideRank offsets buffer strides =>
    s!"{offsets} offsets into '{buffer}' with {strides} strides"
  | text message => message

end GraphFault

/--
A broadcast whose destinations do not work out.
-/
inductive BroadcastFault where
  | rank (indices dimensions : Nat)
  | tooMany (shape : List Nat)
  | noMatch (indices : List Nat)
  | noConsumer (destination : Nat)
  | text (message : String)
  deriving DecidableEq, Repr

namespace BroadcastFault

protected def toString : BroadcastFault → String
  | rank indices dimensions =>
    s!"get has {indices} indices, broadcast shape has {dimensions} dimensions"
  | tooMany shape => "broadcast shape " ++ Text.list shape ++ " has too many destinations"
  | noMatch indices => "indices " ++ Text.list indices ++ " match no destination"
  | noConsumer destination => s!"destination {destination} has no consumer"
  | text message => message

end BroadcastFault

/--
A value of the run time where descriptors need a constant.
-/
inductive ShapeFault where
  | size (name buffer : String)
  | offset (index stride : Dim) (buffer : String)
  | text (message : String)
  deriving DecidableEq, Repr

namespace ShapeFault

protected def toString : ShapeFault → String
  | size name buffer => s!"size %{name} of '{buffer}' is not a compile-time constant"
  | offset index stride buffer => s!"offset {index} * {stride} into '{buffer}' is not static"
  | text message => message

end ShapeFault

/--
A host program that does not fold into one control nest.
-/
inductive FoldFault where
  | sequentialLaunch (vars : List String)
  | variableCount (count : Nat)
  | severalLaunches
  | severalChildren
  | severalNested
  | unreachable
  | text (message : String)
  deriving DecidableEq, Repr

namespace FoldFault

protected def toString : FoldFault → String
  | sequentialLaunch vars =>
    "top-level sequential loop over %" ++ ", %".intercalate vars ++ " launches movement ops"
  | variableCount count => s!"parallel loop has {count} induction variables, control nest has 2"
  | severalLaunches =>
    "parallel loop mixes several launches or loops; only the first would fold"
  | severalChildren =>
    "parallel loop holds more than one child loop; only the first would fold"
  | severalNested => "loop holds more than one child loop; only the first would fold"
  | unreachable => "movement launch not reachable through first child loops"
  | text message => message

end FoldFault

/--
A request that makes no sense in the state in which it comes. The compiler makes none of these.
-/
inductive Misuse where
  | rotatingOnly
  | interfaceOnly
  | noAllocation (key : ChannelKey)
  | misdirected (source dest : ChannelKey)
  | unplaced (op : Nat)
  | noSide (op : Nat) (level : Level)
  | unbound (op : Nat) (key : ChannelKey)
  | unlocked (symbol : String) (key : ChannelKey)
  | noOps
  | noPartner
  | unallocated (flow : String)
  | noBuffer (index : Nat)
  /-- A position in a list that is not that long. -/
  | outOfRange (index length : Nat)
  | zeroDivisor
  /-- A path into the control nest that ends beside it. -/
  | lostLoop
  | text (message : String)
  deriving DecidableEq, Repr

namespace Misuse

protected def toString : Misuse → String
  | rotatingOnly => "interface channels are assigned through allocate_interface"
  | interfaceOnly => "not an interface allocator"
  | noAllocation key => s!"no allocation for channel {key}"
  | misdirected source dest =>
    s!"flow must run from an outbound to an inbound channel, got {source} -> {dest}"
  | unplaced op => s!"op {op} touches an unplaced shared buffer"
  | noSide op level => s!"op {op} has no {level} side"
  | unbound op key => s!"op {op} on channel {key} has no buffer"
  | unlocked symbol key => s!"no locks for '{symbol}' on {key}"
  | noOps => "interface endpoint without ops"
  | noPartner => "interface endpoint has no partner channel"
  | unallocated flow => s!"flow '{flow}' left an endpoint unallocated"
  | noBuffer index => s!"no buffer with index {index}"
  | outOfRange index length => s!"index {index} into a list of length {length}"
  | zeroDivisor => "remainder by zero"
  | lostLoop => "control nest lost a loop"
  | text message => message

end Misuse

/--
One end of a path through the memory hierarchy.
-/
inductive PathEnd where
  | level (level : Level)
  | stream
  | broadcast
  | channel (key : ChannelKey)
  | text (name : String)
  deriving DecidableEq, Repr

namespace PathEnd

protected def toString : PathEnd → String
  | level l => toString l
  | stream => "stream"
  | broadcast => "broadcast"
  | channel key => toString key
  | text name => name

end PathEnd

/--
The op an error is reported against, as far as it is known.
-/
structure Site where
  op : Option Nat
  location : Option String
  deriving DecidableEq, Repr

namespace Site

def unknown : Site :=
  ⟨none, none⟩

/--
Fill in the op, unless one is known. Its location comes along, unless one is known.
-/
def orElse (site : Site) (op : Nat) (location : Option String) : Site :=
  match site.op with
  | some _ => site
  | none => ⟨some op, site.location <|> location⟩

/--
How a message ends.
-/
protected def toString : Site → String
  | ⟨some op, some location⟩ => s!" (op {op} at {location})"
  | ⟨some op, none⟩ => s!" (op {op})"
  | ⟨none, some location⟩ => s!" (at {location})"
  | ⟨none, none⟩ => ""

theorem orElse_orElse (site : Site) (op op' : Nat) (location location' : Option String) :
    (site.orElse op location).orElse op' location' = site.orElse op location := by
  unfold orElse
  cases h : site.op <;> simp [h]

end Site

/--
Why a graph could not be compiled.
-/
inductive CompileError where
  | capacityExhausted (what : Shortage) (site : Site)
  | unsupportedPath (src dst : PathEnd) (site : Site)
  | nonStaticShape (what : ShapeFault) (op : Nat) (location : Option String)
  | unresolvedBroadcast (channel : String) (what : BroadcastFault) (site : Site)
  | incompleteFold (what : FoldFault)
  | invalidGraph (what : GraphFault) (site : Site)
  | codeGen (what : Misuse)
  deriving DecidableEq, Repr

namespace CompileError

def capacity (what : Shortage) : CompileError :=
  .capacityExhausted what .unknown

def path (src dst : PathEnd) : CompileError :=
  .unsupportedPath src dst .unknown

def graph (what : GraphFault) : CompileError :=
  .invalidGraph what .unknown

/--
Report the error against an op. What is known already stays.
-/
def atOp (op : Nat) (location : Option String) : CompileError → CompileError
  | .capacityExhausted what site => .capacityExhausted what (site.orElse op location)
  | .unsupportedPath src dst site => .unsupportedPath src dst (site.orElse op location)
  | .nonStaticShape what op' location' => .nonStaticShape what op' (location' <|> location)
  | .unresolvedBroadcast channel what site =>
    .unresolvedBroadcast channel what (site.orElse op location)
  | .invalidGraph what site => .invalidGraph what (site.orElse op location)
  | e => e

def op? : CompileError → Option Nat
  | .capacityExhausted _ site => site.op
  | .unsupportedPath _ _ site => site.op
  | .nonStaticShape _ op _ => some op
  | .unresolvedBroadcast _ _ site => site.op
  | .invalidGraph _ site => site.op
  | _ => none

def message : CompileError → String
  | .capacityExhausted what site => "Capacity exhausted: " ++ what.toString ++ site.toString
  | .unsupportedPath src dst site =>
    "Unsupported memory path " ++ src.toString ++ " -> " ++ dst.toString ++ site.toString
  | .nonStaticShape what op location =>
    "Non-static shape: " ++ what.toString ++ Site.toString ⟨some op, location⟩
  | .unresolvedBroadcast channel what site =>
    s!"Unresolved broadcast target on channel '{channel}': " ++ what.toString ++ site.toString
  | .incompleteFold what => "Incomplete control fold: " ++ what.toString
  | .invalidGraph what site => "Invalid graph: " ++ what.toString ++ site.toString
  | .codeGen what => "Code generation error: " ++ what.toString

end CompileError

namespace Op

def blame (op : Op) (e : CompileError) : CompileError :=
  e.atOp op.id op.location

end Op

/--
The element at a position that is known to be there.
-/
def elementAt {α : Type} (as : List α) (index : Nat) : Except CompileError α :=
  match as[index]? with
  | some a => .ok a
  | none => .error (.codeGen (.outOfRange index as.length))

/--
The remainder by a divisor that is known to be positive.
-/
def remainder (n divisor : Nat) : Except CompileError Nat :=
  if 0 < divisor then .ok (n % divisor) else .error (.codeGen .zeroDivisor)

end TileTraffic
