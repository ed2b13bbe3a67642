import ServiceGraph.Disk.Error
import ServiceGraph.Environment
import ServiceGraph.Number.Decimal

namespace ServiceGraph

/-- Why there is no program for a service. -/
inductive LoadError where
  | unreadable (path : String) (cause : DiskError)
  | malformed (path : String)
  | bridgeNotStarted (command : String) (cause : DiskError)
  | bridgeFailed (status : Nat) (errors : String)
  | bridgeMalformed
  deriving DecidableEq

namespace LoadError

def message : LoadError → String
  | unreadable path _ => "failed to read '" ++ path ++ "'"
  | malformed path => "failed to parse '" ++ path ++ "'"
  | bridgeNotStarted command _ => "failed to run SSA bridge '" ++ command ++ "'"
  | bridgeFailed status errors =>
    "SSA bridge exited with exit status: " ++ String.ofList (Decimal.natText status) ++ ": " ++
      errors
  | bridgeMalformed => "SSA bridge produced an invalid program"

def causes : LoadError → List String
  | unreadable _ cause | bridgeNotStarted _ cause => [cause.message]
  | _ => []

end LoadError

inductive ProjectError where
  | invalidProject (path : String)
  | invalidServices (path : String)
  | invalidEnvironment (error : Environment.SyntaxError)
  | load (service : String) (cause : LoadError)
  | noUsablePackages (service : String)
  | noEntryPoint (package : String)
  | noServices
  | disk (cause : DiskError)
  deriving DecidableEq

namespace ProjectError

def message : ProjectError → String
  | invalidProject path => "invalid project directory: " ++ path
  | invalidServices path => "invalid service directory: " ++ path
  | invalidEnvironment error => error.message
  | load service cause => "failed to load service " ++ service ++ ": " ++ cause.message
  | noUsablePackages service => "no usable packages found for service " ++ service
  | noEntryPoint package => "no main function found in package " ++ package
  | noServices => "no service to analyse were found"
  | disk cause => "I/O error: " ++ cause.message

def causes : ProjectError → List String
  | load _ cause => cause.message :: cause.causes
  | disk cause => [cause.message]
  | _ => []

end ProjectError

end ServiceGraph
