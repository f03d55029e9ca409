import TileTraffic.Metadata

/-!
What the side table has for channels that face tiles: every group has one record for each of its ids
on each channel, and nothing else. Channels are told apart by column and number as the host counts
them.
-/

namespace TileTraffic

namespace ChannelKey

end ChannelKey

namespace MetadataRecord

def slot (r : MetadataRecord) : Nat × Nat :=
  (r.location, r.channel)

end MetadataRecord

namespace Metadata

/--
Those who have a group in the side table: a region, or the scope for the ops outside all regions.
-/
inductive Owner where
  | region (r : Region)
  | scope (name : String)

namespace Owner

def name : Owner → String
  | .region r => r.name
  | .scope name => name

def origin : Owner → Coord
  | .region r => ⟨r.col, r.row⟩
  | .scope _ => ⟨0, 0⟩

end Owner

variable {members : List Nat} {origin : Coord} {channels : Nat} {x : Allocation}

variable {as : List Allocation} {name : String} {ops : List Op}

end Metadata

namespace Graph

end Graph

end TileTraffic
