import TileTraffic.Cli.Run

/-!
A system that lives in memory: a table of files, a standard input, and what has been printed. Runs
of the command line can be looked at without touching anything.

Files are found by walking from directory to directory, from the root or from the working directory.
The standard streams stand at places of their own.
-/

namespace TileTraffic

namespace Cli

/--
What may stand at a place instead of a file.
-/
inductive Stream where
  | input
  | output
  /-- Has nothing to read, and swallows what is written. -/
  | empty
  /-- Swallows what is written, and cannot be read. -/
  | sink
  deriving DecidableEq, Repr

abbrev Place := List String

namespace Place

/--
The working directory, in which relative paths start.
-/
def home : Place :=
  ["tmp", "run"]

def streams : List (Place × Stream) :=
  [(["dev", "null"], .empty), (["dev", "zero"], .sink), (["dev", "random"], .sink),
    (["dev", "urandom"], .sink), (["dev", "stdin"], .input), (["dev", "stdout"], .output),
    (["dev", "stderr"], .sink), (["proc", "self", "fd", "0"], .input),
    (["proc", "self", "fd", "1"], .output), (["proc", "self", "fd", "2"], .sink)]

def links : List (Place × Place) :=
  [(["dev", "fd"], ["proc", "self", "fd"]), (["proc", "self", "cwd"], home),
    (["proc", "self", "root"], [])]

/--
The place is that of something in `dir` or further below.
-/
def isBelow (dir place : Place) : Bool :=
  dir.length < place.length && dir.isPrefixOf place

/--
New files may be written to `dir`: it is the working directory, on the way there, or below it.
-/
def takesFiles (dir : Place) : Bool :=
  dir.isPrefixOf home || home.isPrefixOf dir

end Place

/--
Files, the standard input, and the standard output so far.
-/
structure Memory where
  /-- Place and content. The first entry of a place counts. -/
  files : List (Place × String)
  input : String
  printed : String
  deriving Repr, Inhabited

namespace Memory

def properSteps (path : String) : List String :=
  (path.splitOn "/").filter fun step => step ∉ ["", "."]

/--
Start with some files, each under its path from the working directory.
-/
def ofFiles (files : List (String × String)) (input : String) : Memory :=
  ⟨files.map fun (path, content) => (Place.home ++ properSteps path, content), input, ""⟩

/--
There is such a directory: it leads to the working directory, a stream or a file.
-/
def isDirectory (s : Memory) (dir : Place) : Bool :=
  dir.isPrefixOf Place.home ||
    Place.streams.any (fun (place, _) => dir.isBelow place) ||
    s.files.any (fun (place, _) => dir.isBelow place)

/--
One step from directory to directory. The root is above itself.
-/
def enter? (s : Memory) (dir : Place) (step : String) : Option Place :=
  if step ∈ ["", "."] then
    some dir
  else if step = ".." then
    some dir.dropLast
  else
    let next := dir ++ [step]
    let next := (Place.links.lookup next).getD next
    if s.isDirectory next then some next else none

/--
The longest name of a file and the longest path, in bytes.
-/
def maxName : Nat := 255

def maxPath : Nat := 4095

/--
The directory and the name that a path gives to a file. The directory exists; the file need not.
-/
def locate? (s : Memory) (path : String) : Option (Place × String) := do
  let steps := path.splitOn "/"
  let name ← steps.getLast?
  if name ∈ ["", ".", ".."] ∨ maxPath < path.utf8ByteSize ∨ maxName < name.utf8ByteSize then
    none
  else
    let start := if path.startsWith "/" then [] else Place.home
    some (← steps.dropLast.foldlM s.enter? start, name)

/--
The standard input, which can be read once.
-/
def takeInput : StateM Memory String := fun s =>
  (s.input, { s with input := "" })

def print (text : String) : StateM Memory Unit :=
  modify fun s => { s with printed := s.printed ++ text }

def readStream : Stream → StateM Memory (Option String)
  | .input => return some (← takeInput)
  | .empty => return some ""
  | .output | .sink => return none

def writeStream (text : String) : Stream → StateM Memory Unit
  | .output => print text
  | .input | .empty | .sink => return

def read (path : String) : StateM Memory (Option String) := do
  let s ← get
  match s.locate? path with
  | none => return none
  | some (dir, name) =>
    match Place.streams.lookup (dir ++ [name]) with
    | some stream => readStream stream
    | none => return s.files.lookup (dir ++ [name])

/--
Write a file, if there can be one at this path, or to a stream.
-/
def write (path content : String) : StateM Memory Bool := do
  let s ← get
  match s.locate? path with
  | none => return false
  | some (dir, name) =>
    let place := dir ++ [name]
    match Place.streams.lookup place with
    | some stream =>
      writeStream content stream
      return true
    | none =>
      if s.isDirectory place || !dir.takesFiles then
        return false
      else
        set { s with files := (place, content) :: s.files }
        return true

/--
Run over files in memory, and the streams besides.
-/
def system : System (StateM Memory) where
  readFile := read
  readInput := return some (← takeInput)
  writeFile := write
  print := print

end Memory

end Cli

end TileTraffic
