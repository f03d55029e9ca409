/-!
How lists of numbers are written inside messages.
-/

namespace TileTraffic

namespace Text

/--
`[1, 2, 3]`.
-/
def list (ns : List Nat) : String :=
  "[" ++ ", ".intercalate (ns.map toString) ++ "]"

/--
A list that may be missing: `Some([1, 2, 3])` or `None`.
-/
def optionalList : Option (List Nat) → String
  | some ns => "Some(" ++ list ns ++ ")"
  | none => "None"

end Text

end TileTraffic
