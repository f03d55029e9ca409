import TileTraffic.Bounds

/-!
JSON values, and how records are read from them.

An object keeps its members in the order of the text, repeated names included: whether a repetition
matters depends on who reads the object. Reading is strict: `none` means that the value does not
have the form asked for.
-/

namespace TileTraffic

/--
A JSON value.
-/
inductive Json where
  | null
  | bool (b : Bool)
  | int (n : Int)
  /-- A number with a fraction or an exponent, or a negative zero, as written. -/
  | decimal (text : String)
  | str (s : String)
  | arr (items : List Json)
  | obj (members : List (String × Json))
  /--
  A well-formed stretch of text without a value: a string with an unpaired surrogate, a number out
  of range, or a value nested too deeply. It may be skipped but not read.
  -/
  | unreadable
  deriving Inhabited

namespace Json

mutual

/--
No part of the value is `unreadable`.
-/
def readable : Json → Bool
  | .unreadable => false
  | .arr items => allReadable items
  | .obj members => membersReadable members
  | _ => true

def allReadable : List Json → Bool
  | [] => true
  | item :: rest => item.readable && allReadable rest

def membersReadable : List (String × Json) → Bool
  | [] => true
  | (_, value) :: rest => value.readable && membersReadable rest

end

/--
An integer in `0 ≤ n < limit`.
-/
def nat? (limit : Nat) : Json → Option Nat
  | .int (.ofNat n) => fit? limit n
  | _ => none

/--
A signed integer in `-limit ≤ n < limit`.
-/
def int? (limit : Int) : Json → Option Int
  | .int n => if -limit ≤ n ∧ n < limit then some n else none
  | _ => none

def int64? : Json → Option Int :=
  int? 0x8000_0000_0000_0000

def bool? : Json → Option Bool
  | .bool b => some b
  | _ => none

def str? : Json → Option String
  | .str s => some s
  | _ => none

/--
An array whose items are all read by `item`.
-/
def list? {α : Type} (item : Json → Option α) : Json → Option (List α)
  | .arr items => items.mapM item
  | _ => none

/--
A value that may be `null`.
-/
def nullable? {α : Type} (value : Json → Option α) : Json → Option (Option α)
  | .null => some none
  | j => (value j).map some

/--
One of the words of a vocabulary, written as a string or as the only member, holding `null`, of an
object.
-/
def word? {α : Type} (vocabulary : List (String × α)) : Json → Option α
  | .str word => vocabulary.lookup word
  | .obj [(word, .null)] => vocabulary.lookup word
  | _ => none

/--
Like `word?`, but the only member of the object may also hold an empty object.
-/
def looseWord? {α : Type} (vocabulary : List (String × α)) : Json → Option α
  | .obj [(word, .obj [])] => vocabulary.lookup word
  | j => word? vocabulary j

/--
How often `name` occurs among the members.
-/
def occurrences (name : String) (members : List (String × Json)) : Nat :=
  members.countP fun m => m.1 == name

/--
No name of `names` is repeated among the members.
-/
def unrepeated (names : List String) (members : List (String × Json)) : Bool :=
  names.all fun name => occurrences name members ≤ 1

/--
The members of a record with the given field names. The record is an object in which no field is
repeated, or an array that gives the leading fields by position. Other members of the object stay
and are nobody's business.
-/
def record? (fields : List String) : Json → Option (List (String × Json))
  | .obj members => if unrepeated fields members then some members else none
  | .arr items => if items.length ≤ fields.length then some (fields.zip items) else none
  | _ => none

/--
Like `record?`, but an array has to give all fields.
-/
def wholeRecord? (fields : List String) (j : Json) : Option (List (String × Json)) :=
  match j with
  | .arr items => if items.length < fields.length then none else record? fields j
  | _ => record? fields j

/--
The field `name`, which has to be there.
-/
def field? {α : Type} (members : List (String × Json)) (name : String) (value : Json → Option α) :
    Option α :=
  (members.lookup name).bind value

/--
The field `name`, or `fallback` when it is missing.
-/
def fieldOr? {α : Type} (members : List (String × Json)) (name : String) (fallback : α)
    (value : Json → Option α) : Option α :=
  match members.lookup name with
  | some j => value j
  | none => some fallback

def ofNats (ns : List Nat) : Json :=
  .arr (ns.map fun (n : Nat) => .int n)

/--
The value, or `null`.
-/
def ofOption {α : Type} (value : α → Json) : Option α → Json
  | some a => value a
  | none => .null

@[simp]
theorem nat?_int (limit n : Nat) : nat? limit (.int n) = fit? limit n := rfl

@[simp]
theorem str?_str (s : String) : str? (.str s) = some s := rfl

@[simp]
theorem bool?_bool (b : Bool) : bool? (.bool b) = some b := rfl

end Json

end TileTraffic
