import TileTraffic.Cli.Options
import TileTraffic.Cli.Report
import TileTraffic.Compile
import TileTraffic.Json.Printer
import TileTraffic.Json.Reader
import TileTraffic.Program.Json

/-!
One run of the command line, over any system that can read and write files.
-/

namespace TileTraffic

namespace Graph

def ofText? (text : String) : Option Graph :=
  (Json.parse? text).bind ofJson?

end Graph

namespace Target

def ofText? (text : String) : Option Target :=
  (Json.parse? text).bind ofJson?

end Target

namespace Metadata

def ofText? (text : String) : Option Metadata :=
  (Json.parse? text).bind ofJson?

end Metadata

namespace Cli

/--
What a run needs of its surroundings. Reading and writing may fail.
-/
structure System (m : Type → Type) where
  readFile : String → m (Option String)
  readInput : m (Option String)
  writeFile : String → String → m Bool
  print : String → m Unit

/--
Why a run fails.
-/
inductive Failure where
  | unreadableGraph (file : Option String)
  | unreadableTarget (file : String)
  | malformedGraph
  | malformedTarget
  | compilation (e : CompileError)
  | unwritable (file : String)
  deriving DecidableEq, Repr

namespace Failure

def kind : Failure → String
  | .unreadableGraph _ | .unreadableTarget _ | .unwritable _ => "Error"
  | .malformedGraph => "Parse error"
  | .malformedTarget => "Target error"
  | .compilation _ => "Compilation error"

def detail : Failure → String
  | .unreadableGraph (some file) => s!"Failed to read file '{file}'"
  | .unreadableGraph none => "Failed to read stdin"
  | .unreadableTarget file => s!"Failed to read target '{file}'"
  | .malformedGraph => "not a movement graph"
  | .malformedTarget => "not a target description"
  | .compilation e => e.message
  | .unwritable file => s!"Failed to write '{file}'"

def message (f : Failure) : String :=
  f.kind ++ ": " ++ f.detail

end Failure

/--
How a run ends.
-/
inductive Outcome where
  | done
  | failed (why : Failure)
  /-- The arguments make no sense. -/
  | rejected
  deriving DecidableEq, Repr

namespace Outcome

def exitCode : Outcome → Nat
  | .done => 0
  | .failed _ => 1
  | .rejected => 2

end Outcome

def version : String :=
  "dataflow2dma 0.1.0"

section

variable {m : Type → Type} [Monad m] (sys : System m)

def readGraph (options : Options) : ExceptT Failure m String := do
  let text ←
    match options.input with
    | some file => sys.readFile file
    | none => sys.readInput
  match text with
  | some text => return text
  | none => throw (.unreadableGraph options.input)

def readTarget (options : Options) : ExceptT Failure m Target := do
  match options.targetFile with
  | none => return options.preset.target options.columns options.rows
  | some file =>
    match ← sys.readFile file with
    | none => throw (.unreadableTarget file)
    | some text =>
      match Target.ofText? text with
      | some t => return t
      | none => throw .malformedTarget

def writeMetadata (options : Options) (p : Program) : ExceptT Failure m Unit := do
  match options.metadataOut with
  | none => return
  | some file =>
    if !(← sys.writeFile file p.metadata.toJson.pretty) then
      throw (.unwritable file)

/--
Compile and report. All input is read before anything else happens.
-/
def compileAll (options : Options) : ExceptT Failure m Unit := do
  let text ← readGraph sys options
  let t ← readTarget sys options
  match Graph.ofText? text with
  | none => throw .malformedGraph
  | some g =>
    if options.verbose then
      sys.print (banner g t)
    match g.compile t with
    | .error e => throw (.compilation e)
    | .ok p =>
      writeMetadata sys options p
      sys.print (if options.json then p.toJson.pretty ++ "\n" else report options.verbose p)

def run (args : List String) : m Outcome := do
  match parse args with
  | .error .version =>
    sys.print (version ++ "\n")
    return .done
  | .error .rejected => return .rejected
  | .ok options =>
    match ← (compileAll sys options).run with
    | .ok _ => return .done
    | .error why => return .failed why

end

end Cli

end TileTraffic
