import TileTraffic.Graph.Validity

/-!
Replication: one op for every cell of a region.
-/

namespace TileTraffic

namespace Op

/--
The instance of an op in the cell at `index` of a region. Halves of a movement use their cell as
channel index.
-/
def instanceAt (op : Op) (region : String) (index : List Nat) : Op :=
  { op with
    region := some region
    spatialIndex := some index
    indices := if op.movement.channel?.isSome then index else op.indices }

end Op

namespace Graph

/--
Append an op. The result is its position.
-/
def push (g : Graph) (op : Op) : Nat × Graph :=
  (g.ops.length, { g with ops := g.ops ++ [op] })

/--
Append one instance of `op` for every cell of a region, the first coordinate running fastest. The
result are the positions of the instances.
-/
def replicate (op : Op) (region : String) : EStateM CompileError Graph (List Nat) := fun g =>
  match g.region? region with
  | none => .error (.graph (.unknownRegion region)) g
  | some r =>
    match product? word32 r.size with
    | none => .error (.graph (.regionCells region)) g
    | some cells =>
      let instances := (List.range cells).map fun n => op.instanceAt region (position r.size n)
      .ok (List.range' g.ops.length cells) { g with ops := g.ops ++ instances }

end Graph

end TileTraffic
