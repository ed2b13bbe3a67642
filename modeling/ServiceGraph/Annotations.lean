import ServiceGraph.Discovery
import ServiceGraph.Text.Blank

namespace ServiceGraph

structure CallHint where
  kind : CallKind
  url : Option String
  targetService : Option String
  deriving DecidableEq

namespace CallHint

inductive SyntaxError where
  | empty
  | unknownKind (word : String)
  | malformedPair (word : String)
  deriving DecidableEq

def SyntaxError.message : SyntaxError → String
  | empty => "empty annotation"
  | unknownKind word => "unknown annotation kind '" ++ word ++ "'"
  | malformedPair word => "malformed pair '" ++ word ++ "'"

/-- The kind that a word names. -/
def kind? (word : List Char) : Option CallKind :=
  if word = "client".toList then some .client
  else if word = "endpoint".toList then some .endpoint
  else none

/-- Takes over the value of a key that is known. -/
def set (a : CallHint) (key value : List Char) : CallHint :=
  if key = "url".toList then { a with url := some (String.ofList value) }
  else if key = "targetSvc".toList then { a with targetService := some (String.ofList value) }
  else a

/-- Reads words `key=value` from left to right, so that the last value of a key counts. -/
def readPairs (a : CallHint) : List (List Char) → Except SyntaxError CallHint
  | [] => .ok a
  | word :: rest =>
    match Text.splitAtFirst? '=' word with
    | some (key, value) => readPairs (a.set key value) rest
    | none => .error (.malformedPair (String.ofList word))

def parse (text : List Char) : Except SyntaxError CallHint :=
  match Text.words text with
  | [] => .error .empty
  | word :: pairs =>
    match kind? word with
    | some kind => readPairs ⟨kind, none, none⟩ pairs
    | none => .error (.unknownKind (String.ofList word))

end CallHint

/-- Texts of annotations by their position, for each service. -/
abbrev Annotations := Dict String (Dict Position String)

namespace Annotations

/-- The entries of `b` on top of those of `a`. -/
def merge (a b : Annotations) : Annotations :=
  b.entries.foldl (fun d e => Dict.update d e.1 .empty (·.override e.2)) a

def add (a : Annotations) (service : String) (position : Position) (text : String) : Annotations :=
  Dict.update a service .empty (·.insert position text)

end Annotations

/-- A path with `/` between its parts. -/
def normalisePath (path : String) : String :=
  String.ofList (path.toList.map fun c => if c = '\\' then '/' else c)

namespace CallTarget

/-- Where an annotation of a call has to stand: on the line above it. -/
def annotationPosition? (t : CallTarget) : Option Position := do
  let p ← t.innermost?
  if p.line = 0 then none else some ⟨normalisePath p.file, p.line - 1⟩

/-- The text of the annotation for a call that is not resolved. -/
def annotationText? (t : CallTarget) (annotations : Annotations) : Option String :=
  if t.isResolved then none
  else do
    let entries ← Dict.get? annotations t.serviceName
    entries.get? (← t.annotationPosition?)

/-- Takes over what an annotation says. -/
def annotate (t : CallTarget) (a : CallHint) : CallTarget :=
  let t := match a.url with
    | some url => t.resolveTo url
    | none => t
  match a.targetService with
  | some service => { t with targetService := some service }
  | none => t

/-- The annotation that applies to a call of the given kind. -/
def hint? (t : CallTarget) (annotations : Annotations) (kind : CallKind) :
    Option CallHint := do
  match CallHint.parse (← t.annotationText? annotations).toList with
  | .ok a => if a.kind = kind then some a else none
  | .error _ => none

/-- The call after its annotation, if it has one. -/
def applyHint (t : CallTarget) (annotations : Annotations) (kind : CallKind) : CallTarget :=
  match t.hint? annotations kind with
  | some a => t.annotate a
  | none => t

/-- The fault of an annotation that cannot be read. -/
def annotationFault? (t : CallTarget) (annotations : Annotations) :
    Option CallHint.SyntaxError := do
  match CallHint.parse (← t.annotationText? annotations).toList with
  | .ok _ => none
  | .error e => some e

end CallTarget

/-- Applies annotations to calls of one kind. -/
def applyAnnotations (targets : List CallTarget) (annotations : Annotations) (kind : CallKind) :
    List CallTarget :=
  targets.map (·.applyHint annotations kind)

/-- What was found, with annotations applied to the calls of one kind. -/
def Discovery.annotate (d : Discovery) (annotations : Annotations) (kind : CallKind) : Discovery :=
  d.setTargets kind (applyAnnotations (d.targets kind) annotations kind)

/-- The number of calls that an annotation applies to. -/
def countAnnotated (targets : List CallTarget) (annotations : Annotations) (kind : CallKind) :
    Nat :=
  (targets.filter fun t => (t.hint? annotations kind).isSome).length

end ServiceGraph
