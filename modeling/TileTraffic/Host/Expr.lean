import TileTraffic.Json.Basic

/-!
Index expressions over the variables of host loops.
-/

namespace TileTraffic

/--
An index expression.
-/
inductive Expr where
  | const (n : Int)
  | var (name : String)
  | add (a b : Expr)
  | mul (a b : Expr)
  deriving DecidableEq, Repr, Inhabited

/--
New names for variables. The first entry for a name counts; a name without entry stays.
-/
abbrev Renaming := List (String × String)

namespace Renaming

def apply (ρ : Renaming) (name : String) : String :=
  (ρ.lookup name).getD name

/--
Rename the variables `names` to the variables `others`, position by position, as far as both go. Of
two entries for one name the later position counts.
-/
def extend (ρ : Renaming) (names others : List String) : Renaming :=
  (names.zip others).foldl (fun ρ entry => entry :: ρ) ρ

end Renaming

namespace Expr

protected def toString : Expr → String
  | .const n => toString n
  | .var name => "%" ++ name
  | .add a b => "(" ++ a.toString ++ " + " ++ b.toString ++ ")"
  | .mul a b => "(" ++ a.toString ++ " * " ++ b.toString ++ ")"

instance : ToString Expr where
  toString := Expr.toString

def value? : Expr → Option Int
  | .const n => some n
  | .var _ => none
  | .add a b => do
    let m ← a.value?
    let n ← b.value?
    some (m + n)
  | .mul a b => do
    let m ← a.value?
    let n ← b.value?
    some (m * n)

def rename (ρ : Renaming) : Expr → Expr
  | .const n => .const n
  | .var name => .var (ρ.apply name)
  | .add a b => .add (a.rename ρ) (b.rename ρ)
  | .mul a b => .mul (a.rename ρ) (b.rename ρ)

def toJson : Expr → Json
  | .const n => .obj [("const", .int n)]
  | .var name => .obj [("var", .str name)]
  | .add a b => .obj [("add", .arr [a.toJson, b.toJson])]
  | .mul a b => .obj [("mul", .arr [a.toJson, b.toJson])]

def ofJson? : Json → Option Expr
  | .obj [("const", j)] => j.int64?.map .const
  | .obj [("var", .str name)] => some (.var name)
  | .obj [("add", .arr [a, b])] => do
    let a ← ofJson? a
    let b ← ofJson? b
    some (.add a b)
  | .obj [("mul", .arr [a, b])] => do
    let a ← ofJson? a
    let b ← ofJson? b
    some (.mul a b)
  | _ => none

end Expr

end TileTraffic
