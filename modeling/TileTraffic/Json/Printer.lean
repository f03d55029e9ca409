import TileTraffic.Json.Basic

/-!
JSON values as text, on one line or indented.
-/

namespace TileTraffic

namespace Json

/--
How a character stands inside a string literal. Only quotes, backslashes and control characters are
escaped.
-/
def escaped (c : Char) : String :=
  match c with
  | '"' => "\\\""
  | '\\' => "\\\\"
  | '\x08' => "\\b"
  | '\x0c' => "\\f"
  | '\n' => "\\n"
  | '\r' => "\\r"
  | '\t' => "\\t"
  | c => if c.toNat < 0x20 then control c.toNat else c.toString
where
  control (n : Nat) : String :=
    let hex := String.ofList (Nat.toDigits 16 n)
    "\\u00" ++ (if n < 16 then "0" ++ hex else hex)

def quoted (s : String) : String :=
  "\"" ++ s.foldl (fun text c => text ++ escaped c) "" ++ "\""

def scalarText : Json → String
  | .bool true => "true"
  | .bool false => "false"
  | .int n => toString n
  | .decimal text => text
  | .str s => quoted s
  | _ => "null"

mutual

/--
The whole value on one line, without blanks.
-/
def line : Json → String
  | .arr items => "[" ++ ",".intercalate (lineItems items) ++ "]"
  | .obj members => "\x7b" ++ ",".intercalate (lineMembers members) ++ "\x7d"
  | j => scalarText j

def lineItems : List Json → List String
  | [] => []
  | item :: rest => item.line :: lineItems rest

def lineMembers : List (String × Json) → List String
  | [] => []
  | (name, value) :: rest => (quoted name ++ ":" ++ value.line) :: lineMembers rest

end

def newline (indent : Nat) : String :=
  "\n" ++ "".pushn ' ' indent

/--
The parts of a container, one on a line of its own, between its brackets.
-/
def block (left right : String) (indent : Nat) (parts : List String) : String :=
  if parts.isEmpty then
    left ++ right
  else
    left ++ newline (indent + 2) ++ ("," ++ newline (indent + 2)).intercalate parts ++
      newline indent ++ right

mutual

/--
The value over several lines, with two blanks of indentation a level. `indent` is the indentation of
the line on which it starts.
-/
def prettyAt (indent : Nat) : Json → String
  | .arr items => block "[" "]" indent (prettyItems (indent + 2) items)
  | .obj members => block "\x7b" "\x7d" indent (prettyMembers (indent + 2) members)
  | j => scalarText j

def prettyItems (indent : Nat) : List Json → List String
  | [] => []
  | item :: rest => item.prettyAt indent :: prettyItems indent rest

def prettyMembers (indent : Nat) : List (String × Json) → List String
  | [] => []
  | (name, value) :: rest =>
    (quoted name ++ ": " ++ value.prettyAt indent) :: prettyMembers indent rest

end

/--
The value over several lines, without a line break at the end.
-/
def pretty (j : Json) : String :=
  j.prettyAt 0

end Json

end TileTraffic
