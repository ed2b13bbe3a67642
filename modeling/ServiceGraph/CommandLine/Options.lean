import ServiceGraph.Text.Blank

namespace ServiceGraph.CommandLine

/-- Options that take a value. -/
inductive Setting where
  | project
  | services
  | environment
  | output
  | bridge
  deriving DecidableEq

/-- Options that are counted. -/
inductive Volume where
  | verbose
  | quiet
  deriving DecidableEq

/-- What an option is. -/
inductive Flag where
  | setting (s : Setting)
  | volume (v : Volume)
  deriving DecidableEq

def longOption? (name : List Char) : Option Flag :=
  match String.ofList name with
  | "project-directory" => some (.setting .project)
  | "service-directory" => some (.setting .services)
  | "environment-variables" => some (.setting .environment)
  | "output-filename" => some (.setting .output)
  | "ssa-bridge" => some (.setting .bridge)
  | "verbose" => some (.volume .verbose)
  | "quiet" => some (.volume .quiet)
  | _ => none

def shortOption? : Char → Option Flag
  | 'p' => some (.setting .project)
  | 's' => some (.setting .services)
  | 'e' => some (.setting .environment)
  | 'o' => some (.setting .output)
  | 'v' => some (.volume .verbose)
  | 'q' => some (.volume .quiet)
  | _ => none

/-- What the arguments read so far say. -/
structure Choices where
  settings : List (Setting × String)
  verbose : Nat
  quiet : Nat
  deriving DecidableEq

namespace Choices

def empty : Choices := ⟨[], 0, 0⟩

/-- A setting is made once, and its value is not empty. -/
def set? (c : Choices) (s : Setting) (value : List Char) : Option Choices :=
  if value.isEmpty || c.settings.any (·.1 == s) then none
  else some { c with settings := (s, String.ofList value) :: c.settings }

/-- There is no way to be both verbose and quiet. -/
def raise? (c : Choices) : Volume → Option Choices
  | .verbose => if c.quiet = 0 then some { c with verbose := c.verbose + 1 } else none
  | .quiet => if c.verbose = 0 then some { c with quiet := c.quiet + 1 } else none

/-- Reads short names. A setting at the end of them waits for its value. -/
def readShort (c : Choices) : List Char → Option (Choices × Option Setting)
  | [] => some (c, none)
  | name :: rest =>
    match shortOption? name with
    | none => none
    | some (.volume v) => (c.raise? v).bind fun c => readShort c rest
    | some (.setting s) =>
      match rest with
      | [] => some (c, some s)
      | '=' :: value => (c.set? s value).map (·, none)
      | value => (c.set? s value).map (·, none)

/-- Reads a long name, with its value if it has one. -/
def readLong (c : Choices) (text : List Char) : Option (Choices × Option Setting) :=
  match Text.splitAtFirst? '=' text with
  | some (name, value) =>
    match longOption? name with
    | some (.setting s) => (c.set? s value).map (·, none)
    | _ => none
  | none =>
    match longOption? text with
    | none => none
    | some (.volume v) => (c.raise? v).map (·, none)
    | some (.setting s) => some (c, some s)

/-- Whether an argument is made of options. A single dash is not. -/
def isOption : List Char → Bool
  | '-' :: _ :: _ => true
  | _ => false

/-- Reads arguments; a setting may wait for its value. There are no other arguments than options. -/
def read (c : Choices) : (waiting : Option Setting) → List String → Option Choices
  | none, [] => some c
  | some _, [] => none
  | some s, value :: rest =>
    if isOption value.toList then none
    else (c.set? s value.toList).bind fun c => read c none rest
  | none, argument :: rest =>
    match argument.toList with
    | ['-', '-'] => if rest.isEmpty then some c else none
    | '-' :: '-' :: text => (readLong c text).bind fun (c, waiting) => read c waiting rest
    | '-' :: name :: names =>
      (readShort c (name :: names)).bind fun (c, waiting) => read c waiting rest
    | _ => none

end Choices

structure Options where
  projectDirectory : String
  serviceDirectory : String
  environmentFile : Option String
  outputFile : Option String
  bridge : Option String
  /-- Levels above the usual one. -/
  verbose : Nat
  deriving DecidableEq

/-- The options of a command line, if it is well formed. -/
def Options.parse? (arguments : List String) : Option Options := do
  let c ← Choices.read .empty none arguments
  let value? (s : Setting) : Option String := c.settings.lookup s
  return {
    projectDirectory := (value? .project).getD "./"
    serviceDirectory := (value? .services).getD "./svc"
    environmentFile := value? .environment
    outputFile := value? .output
    bridge := value? .bridge
    verbose := c.verbose }

end ServiceGraph.CommandLine
