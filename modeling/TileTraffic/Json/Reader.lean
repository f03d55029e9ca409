import TileTraffic.Json.Token

/-!
Reading JSON text.

The reader takes one token after the other. Containers that are still open wait on a stack, and
`Expect` says what may come next, so that no comma is missing or left over.
-/

namespace TileTraffic

namespace Json

/--
A container whose closing bracket has not come yet. What it holds so far is listed last one first.
A member name with an unpaired surrogate is `none`.
-/
inductive Frame where
  | arr (items : List Json)
  | obj (members : List (Option String × Json)) (name : Option String)

/--
What the next token has to be.
-/
inductive Expect where
  | value
  /-- A value, or the end of the array that has just been opened. -/
  | valueOrClose
  | name
  /-- A name, or the end of the object that has just been opened. -/
  | nameOrClose
  | colon
  /-- A comma or the end of the innermost container. -/
  | next
  /-- Nothing: the text is a complete value. -/
  | nothing (value : Json)

structure Reader where
  opened : List Frame
  expect : Expect

namespace Reader

/--
Containers may be nested this deep.
-/
def maxDepth : Nat := 127

def start : Reader :=
  ⟨[], .value⟩

/--
The members of an object, if all of their names can be read.
-/
def members? (members : List (Option String × Json)) : Option (List (String × Json)) :=
  members.mapM fun m => m.1.map fun name => (name, m.2)

/--
A value is complete: hand it to the innermost open container.
-/
def settle (value : Json) : List Frame → Reader
  | [] => ⟨[], .nothing value⟩
  | .arr items :: opened => ⟨.arr (value :: items) :: opened, .next⟩
  | .obj members name :: opened => ⟨.obj ((name, value) :: members) none :: opened, .next⟩

/--
The innermost container is complete. One that is nested too deeply has no value.
-/
def close (value : Json) (outer : List Frame) : Reader :=
  settle (if outer.length < maxDepth then value else .unreadable) outer

def closeObj (members : List (Option String × Json)) (outer : List Frame) : Reader :=
  match members? members.reverse with
  | some members => close (.obj members) outer
  | none => close .unreadable outer

def ofText : Option String → Json
  | some s => .str s
  | none => .unreadable

/--
Take one token, or refuse it.
-/
def step? (r : Reader) (token : Token) : Option Reader :=
  match r.expect, token, r.opened with
  | .value, .scalar v, opened
  | .valueOrClose, .scalar v, opened => some (settle v opened)
  | .value, .text s, opened
  | .valueOrClose, .text s, opened => some (settle (ofText s) opened)
  | .value, .openArr, opened
  | .valueOrClose, .openArr, opened => some ⟨.arr [] :: opened, .valueOrClose⟩
  | .value, .openObj, opened
  | .valueOrClose, .openObj, opened => some ⟨.obj [] none :: opened, .nameOrClose⟩
  | .valueOrClose, .closeArr, .arr items :: outer => some (close (.arr items.reverse) outer)
  | .name, .text name, .obj members _ :: outer
  | .nameOrClose, .text name, .obj members _ :: outer => some ⟨.obj members name :: outer, .colon⟩
  | .nameOrClose, .closeObj, .obj members _ :: outer => some (closeObj members outer)
  | .colon, .colon, opened => some ⟨opened, .value⟩
  | .next, .comma, .arr items :: outer => some ⟨.arr items :: outer, .value⟩
  | .next, .comma, .obj members _ :: outer => some ⟨.obj members none :: outer, .name⟩
  | .next, .closeArr, .arr items :: outer => some (close (.arr items.reverse) outer)
  | .next, .closeObj, .obj members _ :: outer => some (closeObj members outer)
  | _, _, _ => none

end Reader

/--
The value that `text` spells, if it spells exactly one.
-/
def parse? (text : String) : Option Json := do
  let tokens ← Token.scan? [] text.toList
  match (← tokens.foldlM Reader.step? Reader.start).expect with
  | .nothing value => some value
  | _ => none

end Json

end TileTraffic
