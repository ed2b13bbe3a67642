import ServiceGraph.Project.Load
import ServiceGraph.Project.Sources
import ServiceGraph.Walk.Findings

namespace ServiceGraph

/-- A service is a directory in the directory of services. -/
structure Service where
  name : String
  directory : String
  deriving DecidableEq

/-- The services in a directory by name. -/
def findServices (d : Disk) (directory : String) : Except ProjectError (List Service) :=
  match d.subdirectories directory with
  | .error e => .error (.disk e)
  | .ok [] => .error .noServices
  | .ok names =>
    .ok ((names.mergeSort fun a b => (compare a b).isLE).map fun name =>
      ⟨name, Path.join directory name⟩)

def readEnvironment (d : Disk) (path : String) : Except ProjectError Environment :=
  match d.readText path with
  | .error e => .error (.disk e)
  | .ok text =>
    match Environment.parse text.toList with
    | .ok env => .ok env
    | .error e => .error (.invalidEnvironment e)

/-- The annotations in the sources of all services. -/
def annotationsOf (d : Disk) (parse : Source.Parser) (services : List Service) : Annotations :=
  .ofList (services.map fun s => (s.name, d.collectAnnotations parse s.directory))

/-- What one service calls and offers, if the walk of its program returns. -/
def Service.analyse (d : Disk) (parse : Source.Parser) (loader : Loader) (settings : Settings)
    (project : String) (s : Service) : Option (Except ProjectError Discovery) :=
  match loader.load d project s.name s.directory with
  | .error e => some (.error e)
  | .ok program => do
    let found ← Analysis.walk ⟨program, settings, s.name⟩
    let found := found.annotate settings.annotations .client
    let found := found.annotate settings.annotations .endpoint
    return .ok { found with busCalls := d.busCalls parse s.name s.directory }

/-- What some services call and offer, one after the other. There is no result before all of them are
analysed. Annotations in their sources go before those of the settings. -/
def analyseAll (d : Disk) (parse : Source.Parser) (loader : Loader) (settings : Settings)
    (project : String) (services : List Service) : Option (Except ProjectError Discovery) := do
  let settings := settings.withAnnotations (annotationsOf d parse services)
  let results ← services.mapM (·.analyse d parse loader settings project)
  return (results.mapM id).map .concat

/-- What all services of a project call and offer. -/
def discover (d : Disk) (parse : Source.Parser) (loader : Loader) (settings : Settings)
    (projectPath servicePath : String) : Option (Except ProjectError Discovery) :=
  match d.directory? projectPath, d.directory? servicePath with
  | none, _ => some (.error (.invalidProject projectPath))
  | some _, none => some (.error (.invalidServices servicePath))
  | some project, some directory =>
    match findServices d directory with
    | .error e => some (.error e)
    | .ok services => analyseAll d parse loader settings project services

end ServiceGraph
