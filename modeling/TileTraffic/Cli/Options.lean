import TileTraffic.Bounds
import TileTraffic.Target

/-!
The arguments of the command line.

Arguments are taken from left to right, and the first one that is wrong or asks for the version
decides. An option may be given once. Its value follows it, in the next argument or after an equals
sign, for short options also without one; short flags may share a dash. After a double dash nothing
is an option.
-/

namespace TileTraffic

namespace Cli

/--
The device generation to compile for.
-/
inductive Preset where
  | gen1
  | gen2
  deriving DecidableEq, Repr, Inhabited

namespace Preset

def target (columns rows : Nat) : Preset → Target
  | .gen1 => Target.gen1 columns rows
  | .gen2 => Target.gen2 columns rows

end Preset

/--
What the arguments have said so far.
-/
structure Given where
  input : Option String
  preset : Option Preset
  columns : Option Nat
  rows : Option Nat
  targetFile : Option String
  metadataOut : Option String
  json : Bool
  verbose : Bool
  deriving DecidableEq, Repr, Inhabited

namespace Given

def nothing : Given :=
  ⟨none, none, none, none, none, none, false, false⟩

end Given

/--
Why reading the arguments ends before their end.
-/
inductive Stop where
  | version
  | rejected
  deriving DecidableEq, Repr, Inhabited

/--
Arguments that stand alone.
-/
inductive Flag where
  | json
  | verbose
  | version
  deriving DecidableEq, Repr, Inhabited

/--
Arguments that take a value.
-/
inductive Setting where
  | target
  | columns
  | rows
  | targetFile
  | metadataOut
  deriving DecidableEq, Repr, Inhabited

/--
The long names, without their dashes.
-/
def longNames : List (String × (Flag ⊕ Setting)) :=
  [("json", .inl .json), ("verbose", .inl .verbose), ("version", .inl .version),
    ("target", .inr .target), ("columns", .inr .columns), ("rows", .inr .rows),
    ("target-file", .inr .targetFile), ("metadata-out", .inr .metadataOut)]

def shortNames : List (Char × (Flag ⊕ Setting)) :=
  [('j', .inl .json), ('v', .inl .verbose), ('V', .inl .version),
    ('t', .inr .target), ('c', .inr .columns), ('r', .inr .rows)]

def digits? (ds : List Char) : Option Nat :=
  if ds.isEmpty || !ds.all Char.isDigit then
    none
  else
    some (ds.foldl (fun n d => 10 * n + (d.toNat - '0'.toNat)) 0)

/--
A count of 32 bits: digits, perhaps behind a sign. Behind a minus sign only zero is a count.
-/
def count? (text : String) : Option Nat :=
  match text.toList with
  | '-' :: ds => (digits? ds).filter fun n => n = 0
  | '+' :: ds | ds => (digits? ds).bind (fit? word32)

def preset? : String → Option Preset
  | "gen1" => some .gen1
  | "gen2" => some .gen2
  | _ => none

/--
Set a flag. Flags may not be repeated.
-/
def setFlag (given : Given) : Flag → Except Stop Given
  | .json => if given.json then .error .rejected else .ok { given with json := true }
  | .verbose => if given.verbose then .error .rejected else .ok { given with verbose := true }
  | .version => .error .version

def once {α : Type} (known : Option α) (value : Option α) : Except Stop (Option α) :=
  match known, value with
  | none, some a => .ok (some a)
  | _, _ => .error .rejected

def setValue (given : Given) (setting : Setting) (text : String) : Except Stop Given :=
  match setting with
  | .target => do return { given with preset := ← once given.preset (preset? text) }
  | .columns => do return { given with columns := ← once given.columns (count? text) }
  | .rows => do return { given with rows := ← once given.rows (count? text) }
  | .targetFile => do return { given with targetFile := ← once given.targetFile (some text) }
  | .metadataOut => do return { given with metadataOut := ← once given.metadataOut (some text) }

/--
What one argument leaves to be done: go on, or take the next argument as a value.
-/
abbrev Step := Except Stop (Given × Option Setting)

def isOption (arg : String) : Bool :=
  arg.startsWith "-" && arg ≠ "-"

/--
A file name. There is only one.
-/
def positional (given : Given) (arg : String) : Except Stop Given := do
  return { given with input := ← once given.input (some arg) }

/--
The name of a long option, and its value if an equals sign comes with it.
-/
def splitEquals (cs : List Char) : String × Option String :=
  let name := String.ofList (cs.takeWhile fun c => c != '=')
  match cs.dropWhile fun c => c != '=' with
  | [] => (name, none)
  | _ :: value => (name, some (String.ofList value))

/--
A long option, given without its dashes.
-/
def long (given : Given) (cs : List Char) : Step :=
  let (name, value) := splitEquals cs
  match longNames.lookup name, value with
  | some (.inl flag), none => do return (← setFlag given flag, none)
  | some (.inr setting), some text => do return (← setValue given setting text, none)
  | some (.inr setting), none => .ok (given, some setting)
  | _, _ => .error .rejected

/--
A row of short flags. The first option with a value takes the rest of the row.
-/
def short (given : Given) : List Char → Step
  | [] => .ok (given, none)
  | c :: rest =>
    match shortNames.lookup c with
    | some (.inl flag) => do short (← setFlag given flag) rest
    | some (.inr setting) =>
      match rest with
      | [] => .ok (given, some setting)
      | '=' :: value | value => do
        return (← setValue given setting (String.ofList value), none)
    | none => .error .rejected

def argument (given : Given) (arg : String) : Step :=
  match arg.toList with
  | '-' :: '-' :: name => long given name
  | '-' :: c :: cs => short given (c :: cs)
  | _ => do return (← positional given arg, none)

/--
Take all arguments. `pending` is an option that waits for its value.
-/
def takeAll (given : Given) (pending : Option Setting) : List String → Except Stop Given
  | [] => if pending.isSome then .error .rejected else .ok given
  | arg :: rest =>
    match pending with
    | some setting =>
      if isOption arg then
        .error .rejected
      else do
        takeAll (← setValue given setting arg) none rest
    | none =>
      if arg = "--" then
        rest.foldlM positional given
      else do
        let (given, pending) ← argument given arg
        takeAll given pending rest

/--
What the command line asks for.
-/
structure Options where
  /-- The file with the graph. Without one it comes from the standard input. -/
  input : Option String
  preset : Preset
  columns : Nat
  rows : Nat
  /-- The file with a target description, which counts more than the preset. -/
  targetFile : Option String
  metadataOut : Option String
  json : Bool
  verbose : Bool
  deriving DecidableEq, Repr, Inhabited

/--
Read the arguments. The standard target is four columns by six rows of the second generation.
-/
def parse (args : List String) : Except Stop Options := do
  let given ← takeAll .nothing none args
  return {
    input := given.input
    preset := given.preset.getD .gen2
    columns := given.columns.getD 4
    rows := given.rows.getD 6
    targetFile := given.targetFile
    metadataOut := given.metadataOut
    json := given.json
    verbose := given.verbose }

end Cli

end TileTraffic
