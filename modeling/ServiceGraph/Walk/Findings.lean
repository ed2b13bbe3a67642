import ServiceGraph.Event
import ServiceGraph.Walk.Visit

namespace ServiceGraph

/-- A client or endpoint call with what was found out about it. -/
structure Finding where
  kind : CallKind
  target : CallTarget
  deriving DecidableEq

/-- Drops findings whose trace is in `seen` or was met before. -/
def firstFindings (seen : List (List Position)) : List Finding → List Finding
  | [] => []
  | f :: rest =>
    if seen.contains f.target.trace then firstFindings seen rest
    else f :: firstFindings (f.target.trace :: seen) rest

namespace Finding

def targetsOf (kind : CallKind) (findings : List Finding) : List CallTarget :=
  (findings.filter fun f => f.kind = kind).map (·.target)

/-- Findings by their kind. -/
def discovery (findings : List Finding) : Discovery :=
  ⟨targetsOf .client findings, targetsOf .endpoint findings, []⟩

end Finding

namespace Analysis

/-- The text of the argument that says where a call goes. -/
def locationText (a : Analysis) (v : Visit) : Search String := do
  a.resolve v.frame (← .ofOption v.call.arguments[v.index.toNat]?)

/-- What is told about a call, with the text that says where it goes if that is known. -/
def target (a : Analysis) (v : Visit) (location : Option String) : CallTarget :=
  CallTarget.resolveTo
    { packageName := v.callee.packagePath
      methodName := v.callee.signature
      serviceName := a.service
      requestLocation := ""
      isResolved := false
      targetService := none
      trace := v.trace }
    (location.getD "")

/-- The finding at a call. There is none if the search for where it goes never ends. -/
def finding? (a : Analysis) (v : Visit) : Option Finding :=
  (a.locationText v).ended?.map fun location => ⟨v.kind, a.target v location⟩

/-- The findings at all calls that the walk comes to. There are none if the walk never returns
because of one of them. -/
def findings (a : Analysis) : Option (List Finding) := a.visits.mapM a.finding?

/-- The findings that are reported. -/
def reported (a : Analysis) : Option (List Finding) := a.findings.map (firstFindings [])

/-- The client and endpoint calls of the service, if the walk returns. -/
def walk (a : Analysis) : Option Discovery := a.reported.map Finding.discovery

/-- What there is to tell about a walk that returns. -/
def walkEvents (a : Analysis) : Option (List Event) :=
  a.reported.map fun reported =>
    match a.program.main? with
    | none => [.noEntryPoint a.service]
    | some _ =>
      if a.settings.verbose then
        (reported.filter fun f => !f.target.isResolved).map fun f =>
          .unresolvedCall a.service f.target.methodName
            (f.target.trace.take a.settings.maxTraceDepth)
      else []

end Analysis

end ServiceGraph
