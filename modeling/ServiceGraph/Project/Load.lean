import ServiceGraph.Disk.Basic
import ServiceGraph.Program.Codec
import ServiceGraph.Project.Error
import ServiceGraph.Text.Utf8

namespace ServiceGraph

/-- What a command left when it ended. -/
structure BridgeRun where
  status : Nat
  output : ByteArray
  errors : ByteArray

/-- Where programs come from. -/
inductive Loader where
  /-- A file in the directory of the service. -/
  | dump
  /-- A command, and how it runs for the directories of a project and of a service. -/
  | bridge (command : String) (run : (project service : String) → Except DiskError BridgeRun)

namespace Loader

def dumpName : String := "ssa.json"

/-- The program that a run of the bridge wrote. -/
def ofRun (run : BridgeRun) : Except LoadError Program :=
  if run.status ≠ 0 then
    .error (.bridgeFailed run.status (String.ofList (Text.trim (Text.ofBytes run.errors))))
  else
    match Program.parseBytes? run.output with
    | some program => .ok program
    | none => .error .bridgeMalformed

/-- The program of a service as it was written. -/
def read (d : Disk) (project service : String) : Loader → Except LoadError Program
  | dump =>
    let path := Path.join service dumpName
    match d.readText path with
    | .error e => .error (.unreadable path e)
    | .ok text =>
      match Program.parse? text.toList with
      | some program => .ok program
      | none => .error (.malformed path)
  | bridge command run =>
    match run project service with
    | .error e => .error (.bridgeNotStarted command e)
    | .ok run => ofRun run

end Loader

/-- Drops packages with errors and the bodies of their functions. The functions stay, since ids
count them. -/
def Program.withoutErrors (p : Program) : Program :=
  { p with
    packages := p.usablePackages
    functions := p.functions.map fun f =>
      if p.isErrored f.packagePath then { f with blocks := [], values := [] } else f }

/-- A program that can be walked. -/
def Program.usable (service : String) (p : Program) : Except ProjectError Program :=
  if !p.packages.isEmpty && p.usablePackages.isEmpty then .error (.noUsablePackages service)
  else if p.main?.isNone then
    .error (.noEntryPoint ((p.usablePackages.head?.map (·.path)).getD service))
  else .ok p.withoutErrors

/-- The program of a service, ready to be walked. -/
def Loader.load (d : Disk) (project service directory : String) (loader : Loader) :
    Except ProjectError Program :=
  match loader.read d project directory with
  | .ok program => program.usable service
  | .error e => .error (.load service e)

end ServiceGraph
