import TileTraffic.Json.Basic

/-!
The memory hierarchy.
-/

namespace TileTraffic

/--
A level of the memory hierarchy, from the memory beside a compute core outwards.
-/
inductive Level where
  | tileLocal
  | shared
  | external
  deriving DecidableEq, Repr, Inhabited

namespace Level

def depth : Level → Nat
  | .tileLocal => 0
  | .shared => 1
  | .external => 2

instance : ToString Level where
  toString
    | .tileLocal => "tile-local"
    | .shared => "shared"
    | .external => "external"

def vocabulary : List (String × Level) :=
  [("tile_local", .tileLocal), ("shared", .shared), ("external", .external)]

def toJson : Level → Json
  | .tileLocal => .str "tile_local"
  | .shared => .str "shared"
  | .external => .str "external"

def ofJson? : Json → Option Level :=
  Json.word? vocabulary

/--
As levels may be written inside ops.
-/
def ofLooseJson? : Json → Option Level :=
  Json.looseWord? vocabulary

@[simp]
theorem ofJson?_toJson (l : Level) : ofJson? l.toJson = some l := by
  cases l <;> rfl

@[simp]
theorem ofLooseJson?_toJson (l : Level) : ofLooseJson? l.toJson = some l := by
  cases l <;> rfl

end Level

end TileTraffic
