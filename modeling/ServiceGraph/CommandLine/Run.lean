import ServiceGraph.CommandLine.Options
import ServiceGraph.Graph.Report
import ServiceGraph.Project.Discover

namespace ServiceGraph.CommandLine

/-- An error as it is shown: a message, and the messages of its causes, the nearest first. -/
structure Failure where
  message : String
  causes : List String
  deriving DecidableEq

namespace Failure

/-- A text with each line after the first one moved in. -/
def indent (margin : String) (text : String) : String :=
  String.ofList <| text.toList.flatMap fun c => if c = '\n' then '\n' :: margin.toList else [c]

/-- A number in a column of five. -/
def column (n : Nat) : String :=
  let digits := Decimal.natText n
  String.ofList (List.replicate (5 - digits.length) ' ' ++ digits)

/-- Causes are numbered if there are several. -/
def causeLines : List String → List String
  | [] => []
  | [cause] => ["    " ++ indent "    " cause]
  | causes => causes.mapIdx fun i cause => column i ++ ": " ++ indent "       " cause

def report (f : Failure) : String :=
  let lines := causeLines f.causes
  "Error: " ++ f.message ++
    if lines.isEmpty then "" else "\n\nCaused by:\n" ++ "\n".intercalate lines

/-- An error of a project as one of several messages. Where it arose is not told. -/
def projectMessage (e : ProjectError) : String := e.message ++ "\ndisabled backtrace"

def ofProject (e : ProjectError) : Failure := ⟨projectMessage e, e.causes⟩

/-- An error of a project that stopped something larger. -/
def within (message : String) (e : ProjectError) : Failure :=
  ⟨message, projectMessage e :: e.causes⟩

end Failure

/-- How a run ends. -/
structure Outcome where
  status : Nat
  output : String
  report : Option String
  disk : Disk

/-- How a command runs for the directories of a project and of a service. -/
abbrev Launcher := (command project service : String) → Except DiskError BridgeRun

namespace Options

/-- The settings that the options give. -/
def settings (o : Options) (d : Disk) : Except Failure Settings :=
  let settings := Settings.default.withVerbose (0 < o.verbose)
  match o.environmentFile with
  | none => .ok settings
  | some path =>
    match readEnvironment d path with
    | .ok env => .ok (settings.withEnvironment env)
    | .error e => .error (.within ("cannot read environment file " ++ path) e)

def loader (o : Options) (launch : Launcher) : Loader :=
  match o.bridge with
  | some command => .bridge command (launch command)
  | none => .dump

/-- Writes the report to its file, whose directory has to exist. -/
def writeOutput (d : Disk) (path : String) (text : String) : Except Failure Disk := do
  if let some parent := Path.parent? path then
    if !parent.isEmpty && (d.directory? parent).isNone then
      throw ⟨"output directory " ++ parent ++ " does not exist", []⟩
  match d.write path text.toUTF8 with
  | .ok d => return d
  | .error e => throw ⟨"cannot create " ++ path, [e.message]⟩

/-- Gives the report to be printed, or writes it to its file. -/
def deliver (o : Options) (d : Disk) (found : Discovery) : Except Failure (String × Disk) := do
  let text := String.ofList found.report
  match o.outputFile with
  | none => return (text, d)
  | some path => return ("", ← writeOutput d path text)

/-- What is printed, and the disk afterwards, if the run comes to an end. -/
def run (o : Options) (d : Disk) (parse : Source.Parser) (launch : Launcher) :
    Option (Except Failure (String × Disk)) :=
  match o.settings d with
  | .error failure => some (.error failure)
  | .ok settings => do
    let loader := o.loader launch
    match ← discover d parse loader settings o.projectDirectory o.serviceDirectory with
    | .error e => return .error (.ofProject e)
    | .ok found => return o.deliver d found

end Options

/-- How a run ends, if it does. Arguments that are not well formed end it with status two. -/
def run (d : Disk) (parse : Source.Parser) (launch : Launcher) (arguments : List String) :
    Option Outcome :=
  match Options.parse? arguments with
  | none => some ⟨2, "", none, d⟩
  | some options =>
    (options.run d parse launch).map fun
      | .ok (output, d) => ⟨0, output, none, d⟩
      | .error failure => ⟨1, "", some failure.report, d⟩

end ServiceGraph.CommandLine
