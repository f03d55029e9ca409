import TileTraffic.Host.Expr

/-!
Host programs: loops and launches of movement ops.
-/

namespace TileTraffic

/--
Whether the cells of a loop run side by side or one after the other.
-/
inductive LoopKind where
  | parallel
  | sequential
  deriving DecidableEq, Repr, Inhabited

namespace LoopKind

def vocabulary : List (String × LoopKind) :=
  [("parallel", .parallel), ("sequential", .sequential)]

def toJson : LoopKind → Json
  | .parallel => .str "parallel"
  | .sequential => .str "sequential"

def ofJson? : Json → Option LoopKind :=
  Json.word? vocabulary

@[simp]
theorem ofJson?_toJson (k : LoopKind) : ofJson? k.toJson = some k := by
  cases k <;> rfl

end LoopKind

/--
The head of a loop: its variables and, position by position, their lower bounds, upper bounds and
steps.
-/
structure LoopHead where
  kind : LoopKind
  vars : List String
  lower : List Expr
  upper : List Expr
  step : List Expr
  deriving DecidableEq, Repr, Inhabited

namespace LoopHead

def sequential (var : String) (lower upper step : Int) : LoopHead :=
  ⟨.sequential, [var], [.const lower], [.const upper], [.const step]⟩

def parallel (vars : List String) (upper : List Int) : LoopHead :=
  ⟨.parallel, vars, vars.map fun _ => .const 0, upper.map .const, vars.map fun _ => .const 1⟩

def rename (ρ : Renaming) (head : LoopHead) : LoopHead where
  kind := head.kind
  vars := head.vars.map ρ.apply
  lower := head.lower.map (Expr.rename ρ)
  upper := head.upper.map (Expr.rename ρ)
  step := head.step.map (Expr.rename ρ)

/--
The fields of a loop on the wire, its body last.
-/
def fields : List String :=
  ["kind", "ivs", "lower", "upper", "step", "body"]

def members (head : LoopHead) : List (String × Json) :=
  [("kind", head.kind.toJson),
    ("ivs", .arr (head.vars.map .str)),
    ("lower", .arr (head.lower.map Expr.toJson)),
    ("upper", .arr (head.upper.map Expr.toJson)),
    ("step", .arr (head.step.map Expr.toJson))]

def ofMembers? (members : List (String × Json)) : Option LoopHead := do
  let kind ← Json.field? members "kind" LoopKind.ofJson?
  let vars ← Json.field? members "ivs" (Json.list? Json.str?)
  let lower ← Json.field? members "lower" (Json.list? Expr.ofJson?)
  let upper ← Json.field? members "upper" (Json.list? Expr.ofJson?)
  let step ← Json.field? members "step" (Json.list? Expr.ofJson?)
  some { kind, vars, lower, upper, step }

end LoopHead

/--
A statement of a host program.
-/
inductive Stmt where
  | launch (op : Nat) (operands : List Expr)
  | loop (head : LoopHead) (body : List Stmt)
  deriving Repr, Inhabited

namespace Stmt

def isLaunch : Stmt → Bool
  | .launch .. => true
  | .loop .. => false

def isSequential : Stmt → Bool
  | .launch .. => false
  | .loop head _ => head.kind = .sequential

mutual

/--
There is a launch in the statement, at any depth.
-/
def launches : Stmt → Bool
  | .launch .. => true
  | .loop _ body => anyLaunches body

def anyLaunches : List Stmt → Bool
  | [] => false
  | s :: rest => s.launches || anyLaunches rest

end

mutual

/--
Rename all variables, those that loops bind included.
-/
def rename (ρ : Renaming) : Stmt → Stmt
  | .launch op operands => .launch op (operands.map (Expr.rename ρ))
  | .loop head body => .loop (head.rename ρ) (renameAll ρ body)

def renameAll (ρ : Renaming) : List Stmt → List Stmt
  | [] => []
  | s :: rest => s.rename ρ :: renameAll ρ rest

end

mutual

def toJson : Stmt → Json
  | .launch op operands =>
    .obj [("launch", .obj [("op_id", .int op), ("operands", .arr (operands.map Expr.toJson))])]
  | .loop head body => .obj [("loop", .obj (head.members ++ [("body", .arr (toJsons body))]))]

def toJsons : List Stmt → List Json
  | [] => []
  | s :: rest => s.toJson :: toJsons rest

end

def launchOfJson? (j : Json) : Option Stmt := do
  let members ← j.record? ["op_id", "operands"]
  let op ← Json.field? members "op_id" (Json.nat? word32)
  let operands ← Json.fieldOr? members "operands" [] (Json.list? Expr.ofJson?)
  some (.launch op operands)

mutual

def ofJson? : Json → Option Stmt
  | .obj [("launch", j)] => launchOfJson? j
  | .obj [("loop", .obj members)] =>
    if Json.unrepeated LoopHead.fields members then do
      let head ← LoopHead.ofMembers? members
      let body ← bodyOfMembers? members
      some (.loop head body)
    else
      none
  | .obj [("loop", .arr [kind, vars, lower, upper, step])] => do
    let head ← LoopHead.ofMembers? (LoopHead.fields.zip [kind, vars, lower, upper, step])
    some (.loop head [])
  | .obj [("loop", .arr [kind, vars, lower, upper, step, .arr body])] => do
    let head ← LoopHead.ofMembers? (LoopHead.fields.zip [kind, vars, lower, upper, step])
    let body ← ofJsons? body
    some (.loop head body)
  | _ => none

/--
The body among the members of a loop. A loop without one is empty.
-/
def bodyOfMembers? : List (String × Json) → Option (List Stmt)
  | [] => some []
  | ("body", .arr body) :: _ => ofJsons? body
  | ("body", _) :: _ => none
  | _ :: rest => bodyOfMembers? rest

def ofJsons? : List Json → Option (List Stmt)
  | [] => some []
  | j :: rest => do
    let s ← ofJson? j
    let rest ← ofJsons? rest
    some (s :: rest)

end

end Stmt

/--
The host program of one device scope.
-/
structure Host where
  name : String
  body : List Stmt
  deriving Repr, Inhabited

namespace Host

def toJson (host : Host) : Json :=
  .obj [("name", .str host.name), ("body", .arr (Stmt.toJsons host.body))]

def ofJson? (j : Json) : Option Host := do
  let members ← j.record? ["name", "body"]
  let name ← Json.field? members "name" Json.str?
  let body ← Stmt.bodyOfMembers? members
  some { name, body }

end Host

end TileTraffic
