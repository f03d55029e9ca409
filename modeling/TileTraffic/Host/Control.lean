import TileTraffic.Error
import TileTraffic.Host.Stmt

/-!
One control program out of many.

A device with one control processor cannot run a host loop for every cell of a region. The parallel
loops of the host program are folded into one sequential nest that walks all cells: the two
variables of a parallel loop become the variables of the nest, and its child loops are merged into
those that earlier loops have put there, or copied if there are none.

Only the first child loop at every depth is followed. A program of another shape is refused.
-/

namespace TileTraffic

/--
The control program: what was at the top level of the host program, and the nest over all cells.
-/
structure Control where
  prologue : List Stmt
  outerVar : String
  innerVar : String
  outerExtent : Nat
  innerExtent : Nat
  body : List Stmt
  deriving Repr, Inhabited

namespace Control

def toJson (c : Control) : Json :=
  .obj [
    ("prologue", .arr (Stmt.toJsons c.prologue)),
    ("outer_iv", .str c.outerVar),
    ("inner_iv", .str c.innerVar),
    ("outer_extent", .int c.outerExtent),
    ("inner_extent", .int c.innerExtent),
    ("body", .arr (Stmt.toJsons c.body))]

def idle (outer inner : Nat) : Control :=
  ⟨[], "ctrl_x", "ctrl_y", outer, inner, []⟩

/--
A sequential loop: its head and its body.
-/
structure Nest where
  head : LoopHead
  body : List Stmt
  deriving Repr, Inhabited

/--
The first sequential loop of a body, and the first one of its body, and so on.
-/
def spine : List Stmt → List Nest
  | [] => []
  | .launch .. :: rest => spine rest
  | .loop head body :: rest =>
    if head.kind = .sequential then ⟨head, body⟩ :: spine body else spine rest

def launchCount (body : List Stmt) : Nat :=
  body.countP Stmt.isLaunch

def loopCount (body : List Stmt) : Nat :=
  body.countP Stmt.isSequential

def firstLoop? (body : List Stmt) : Option Nat :=
  body.findIdx? Stmt.isSequential

/--
A way into a body: the position of a loop in it, the position of a loop in the body of that one, and
so on.
-/
abbrev Path := List Nat

def bodyAt? : Path → List Stmt → Option (List Stmt)
  | [], body => some body
  | i :: path, body =>
    match body[i]? with
    | some (.loop _ inner) => bodyAt? path inner
    | _ => none

def editAt? (f : List Stmt → List Stmt) : Path → List Stmt → Option (List Stmt)
  | [], body => some (f body)
  | i :: path, body =>
    match body[i]? with
    | some (.loop head inner) =>
      (editAt? f path inner).map fun inner => body.set i (.loop head inner)
    | _ => none

/--
What a path leads to has to be there.
-/
def expect {α : Type} : Option α → Except CompileError α
  | some a => .ok a
  | none => .error (.codeGen .lostLoop)

/--
The variables of the loop at a position in the body at the end of a path.
-/
def varsAt (body : List Stmt) (path : Path) (index : Nat) : Except CompileError (List String) :=
  match (bodyAt? path body).bind fun body => body[index]? with
  | some (.loop head _) => .ok head.vars
  | _ => .error (.codeGen .lostLoop)

/--
Where a loop is put that finds no other to be merged into.
-/
inductive Place where
  | first
  | last
  deriving DecidableEq, Repr

def Place.put (s : Stmt) (body : List Stmt) : Place → List Stmt
  | .first => s :: body
  | .last => body ++ [s]

/--
New variables of the nest. `used` is the number of those that exist.
-/
def freshVars (used count : Nat) : List String :=
  (List.range' (used + 1) count).map fun n => s!"ctrl_iv{n}"

/--
Copy a loop into the nest, with new variables. Its bounds do not see them, its body does.
-/
def copyLoop (ρ : Renaming) (used : Nat) (loop : Nest) : Stmt :=
  let vars := freshVars used loop.head.vars.length
  let head := {
    kind := .sequential
    vars := vars
    lower := loop.head.lower.map (Expr.rename ρ)
    upper := loop.head.upper.map (Expr.rename ρ)
    step := loop.head.step.map (Expr.rename ρ) }
  .loop head (Stmt.renameAll (ρ.extend loop.head.vars vars) loop.body)

/--
Bring a row of nested loops into the nest, from the body at the end of `path` inwards. As long as
there is a loop at `child` in that body, the outermost loop of the row is merged into it and takes
over its variables; what the loop launches comes last there. The first loop without a counterpart is
copied. The result is the new nest and the new number of fresh variables.
-/
def followLoops (ρ : Renaming) (used : Nat) (place : Place) (nest : List Stmt) (path : Path)
    (child : Option Nat) : List Nest → Except CompileError (List Stmt × Nat)
  | [] => .error (.incompleteFold .unreachable)
  | loop :: inner =>
    match child with
    | none => do
      let nest ← expect (editAt? (fun body => place.put (copyLoop ρ used loop) body) path nest)
      return (nest, used + loop.head.vars.length)
    | some index => do
      let ρ := ρ.extend loop.head.vars (← varsAt nest path index)
      let path := path ++ [index]
      if 0 < launchCount loop.body then
        let nest ← expect (editAt? (fun body => body ++ Stmt.renameAll ρ loop.body) path nest)
        return (nest, used)
      else if 1 < loopCount loop.body then
        throw (.incompleteFold .severalNested)
      else
        let body ← expect (bodyAt? path nest)
        followLoops ρ used .first nest path (firstLoop? body) inner

def foldParallel (c : Control) (used : Nat) (head : LoopHead) (body : List Stmt) :
    Except CompileError (Control × Nat) :=
  if head.vars.length ≠ 2 then
    .error (.incompleteFold (.variableCount head.vars.length))
  else
    let ρ := Renaming.extend [] head.vars [c.outerVar, c.innerVar]
    if 0 < launchCount body then
      if 1 < launchCount body ∨ 0 < loopCount body then
        .error (.incompleteFold .severalLaunches)
      else
        .ok ({ c with body := c.body ++ Stmt.renameAll ρ body }, used)
    else if 1 < loopCount body then
      .error (.incompleteFold .severalChildren)
    else do
      let (body, used) ← followLoops ρ used .last c.body [] (firstLoop? c.body) (spine body)
      return ({ c with body := body }, used)

/--
Take over one statement of the host program. Loops that launch nothing are dropped.
-/
def takeStmt (state : Control × Nat) (s : Stmt) : Except CompileError (Control × Nat) :=
  match s with
  | .launch .. => .ok ({ state.1 with prologue := state.1.prologue ++ [s] }, state.2)
  | .loop head body =>
    if !Stmt.anyLaunches body then
      .ok state
    else if head.kind = .parallel then
      foldParallel state.1 state.2 head body
    else
      .error (.incompleteFold (.sequentialLaunch head.vars))

def isCandidate : Stmt → Bool
  | .launch .. => false
  | .loop head body => head.kind = .parallel && Stmt.anyLaunches body

/--
The control program of a host program over a region of `outer` by `inner` cells. There is none if no
parallel loop launches anything.
-/
def ofHost? (host : Host) (outer inner : Nat) : Except CompileError (Option Control) :=
  if host.body.any isCandidate then do
    let (c, _) ← host.body.foldlM takeStmt (idle outer inner, 0)
    return some c
  else
    .ok none

end Control

end TileTraffic
