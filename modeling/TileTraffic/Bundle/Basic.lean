import TileTraffic.Graph.Validity

/-!
Bundles: the logical flows of a graph.

A bundle has one producing end and one consuming end for every destination; a broadcast has several
destinations. Every end lists its ops and, once the bundle is assigned, the channel that serves
them.
-/

namespace TileTraffic

/--
One end of a flow.
-/
structure Endpoint where
  ops : List Occurrence
  key : Option ChannelKey
  deriving DecidableEq, Repr, Inhabited

/--
The channels at the ends of a bundle, as far as they are assigned.
-/
structure Ends where
  producer : Option ChannelKey
  consumers : List (Option ChannelKey)
  deriving DecidableEq, Repr, Inhabited

namespace Ends

def isBroadcast (e : Ends) : Bool :=
  1 < e.consumers.length

/--
The channels of the destinations that have one, in the order of the destinations.
-/
def consumerKeys (e : Ends) : List ChannelKey :=
  e.consumers.filterMap id

/--
The assigned channels on the side where a channel of the given direction would be.
-/
def keysToward (e : Ends) : Direction → List ChannelKey
  | .outbound => e.producer.toList
  | .inbound => e.consumerKeys

end Ends

/--
A logical flow.
-/
structure Bundle where
  name : String
  producerLevel : Level
  consumerLevel : Level
  producer : Endpoint
  consumers : List Endpoint
  deriving DecidableEq, Repr, Inhabited

namespace Bundle

def ends (b : Bundle) : Ends :=
  ⟨b.producer.key, b.consumers.map Endpoint.key⟩

def isBroadcast (b : Bundle) : Bool :=
  b.ends.isBroadcast

end Bundle

namespace Target

/--
Memory of level `src` can be moved to level `dst` on the target. Shared memory takes part where
there are shared tiles; no movement stays on its level.
-/
def hasPath (t : Target) : Level → Level → Bool
  | .tileLocal, .external | .external, .tileLocal => true
  | .tileLocal, .shared | .shared, .tileLocal | .shared, .external | .external, .shared =>
    t.hasSharedTiles
  | _, _ => false

def checkPath (t : Target) (src dst : Level) : Except CompileError Unit :=
  if t.hasPath src dst then .ok () else .error (.path (.level src) (.level dst))

end Target

end TileTraffic
