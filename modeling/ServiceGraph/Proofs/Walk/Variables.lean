import Mathlib.Data.List.Forall2
import ServiceGraph.Proofs.Dict
import ServiceGraph.Proofs.Walk.Activations
import ServiceGraph.Proofs.Walk.Denotation

namespace ServiceGraph

/-- The same outcome of a search, or any outcome where there was no answer before. -/
inductive Search.KeptBy {α : Type} : Search α → Search α → Prop where
  | unknown {s : Search α} : KeptBy .unknown s
  | same {s : Search α} : KeptBy s s

namespace Search.KeptBy

variable {α β : Type}

theorem bind {s s' : Search α} {next next' : α → Search β} (h : s.KeptBy s')
    (hnext : ∀ a, (next a).KeptBy (next' a)) : (s >>= next).KeptBy (s' >>= next') := by
  cases h with
  | unknown => exact .unknown
  | same =>
    cases s with
    | found a => exact hnext a
    | unknown => exact .unknown
    | endless => exact .same

theorem antisymm {s s' : Search α} (h : s.KeptBy s') (h' : s'.KeptBy s) : s = s' := by
  cases h with
  | same => rfl
  | unknown => cases h' <;> rfl

variable [DecidableEq β] {f g : α → Search β}

theorem agreesOn (h : ∀ a, (f a).KeptBy (g a)) (b : β) (xs : List α) :
    (Search.agreesOn f b xs).KeptBy (Search.agreesOn g b xs) := by
  induction xs with
  | nil => exact .same
  | cons a rest ih =>
    refine (h a).bind fun c => ?_
    split
    · exact ih
    · exact .unknown

theorem agreed (h : ∀ a, (f a).KeptBy (g a)) (xs : List α) :
    (Search.agreed f xs).KeptBy (Search.agreed g xs) := by
  cases xs with
  | nil => exact .unknown
  | cons a rest => exact (h a).bind fun b => agreesOn h b rest

end Search.KeptBy

/-- A call is told about as before, or was unresolved before and may now be resolved. -/
structure CallTarget.RefinedBy (t t' : CallTarget) : Prop where
  trace : t.trace = t'.trace
  packageName : t.packageName = t'.packageName
  methodName : t.methodName = t'.methodName
  resolved : t.isResolved = true → t = t'

/-- Findings of the same kind, with calls that are told about as before. -/
structure Finding.RefinedBy (f f' : Finding) : Prop where
  kind : f.kind = f'.kind
  target : f.target.RefinedBy f'.target

namespace Analysis

/-- Two analyses that differ at most in what they know from outside of the program and in what they
tell about it: the environment, the annotations, and how unresolved calls are told. -/
structure SameSearch (a b : Analysis) : Prop where
  program : b.program = a.program
  service : b.service = a.service
  maxRecursionDepth : b.settings.maxRecursionDepth = a.settings.maxRecursionDepth
  clients : b.settings.clients = a.settings.clients
  endpoints : b.settings.endpoints = a.settings.endpoints
  substitutes : b.settings.substitutes = a.settings.substitutes
  ignored : b.settings.ignored = a.settings.ignored

/-- The value of a variable of the service. -/
def value? (a : Analysis) (name : String) : Option String :=
  a.settings.variableValue? a.service name

/-- Every variable of the service that `a` knows has the same value in `b`. -/
def KnownBy (a b : Analysis) : Prop :=
  ∀ name value, a.value? name = some value → b.value? name = some value

variable {a b : Analysis}

section Texts

theorem expandFormat_kept {operand operand' : Char → ValueId → Search String}
    (h : ∀ verb x, (operand verb x).KeptBy (operand' verb x)) (cs : List Char) (xs : List ValueId) :
    (expandFormat operand cs xs).KeptBy (expandFormat operand' cs xs) := by
  fun_induction expandFormat operand cs xs with
  | case1 =>
    rw [expandFormat]
    exact .same
  | case2 rest xs ih =>
    rw [expandFormat]
    exact ih.bind fun _ => .same
  | case3 | case5 | case6 => exact .unknown
  | case4 verb rest hp hv x xs ih =>
    rw [expandFormat, if_pos hv]
    · exact (h verb x).bind fun _ => ih.bind fun _ => .same
    · exact hp
  | case7 c rest xs hp hv hl ih =>
    rw [expandFormat]
    · exact ih.bind fun _ => .same
    all_goals assumption

variable {text text' : ValueId → Search String} (h : ∀ id, (text id).KeptBy (text' id))
include h

theorem operandText_kept (f : Function) (verb : Char) (id : ValueId) :
    (operandText text f verb id).KeptBy (operandText text' f verb id) := by
  rw [operandText, operandText]
  cases f.underlying id with
  | none => exact .same
  | some x =>
    dsimp only
    split
    · split
      · exact .same
      · exact h x
    · exact h x

theorem formatText_kept (f : Function) (args : List ValueId) :
    (formatText text f args).KeptBy (formatText text' f args) := by
  rw [formatText_eq, formatText_eq]
  refine Search.KeptBy.same.bind fun arg => (h arg).bind fun format => ?_
  refine Search.KeptBy.same.bind fun operands => ?_
  exact (expandFormat_kept (operandText_kept h f) _ _).bind fun _ => .same

theorem callText_kept (same : a.SameSearch b) (known : a.KnownBy b) (f : Function) (call : Call) :
    (a.callText text f call).KeptBy (b.callText text' f call) := by
  have hvalue (name : String) : (Search.ofOption (a.settings.variableValue? a.service name)).KeptBy
      (.ofOption (b.settings.variableValue? b.service name)) := by
    cases ha : a.settings.variableValue? a.service name with
    | none => exact .unknown
    | some value =>
      have hb : b.settings.variableValue? b.service name = some value := known name value ha
      rw [hb]
      exact .same
  rw [callText, callText, same.program, same.substitutes]
  cases call.callee with
  | dynamic | invoke => exact .same
  | static func =>
    refine Search.KeptBy.same.bind fun callee => ?_
    dsimp only
    cases a.settings.substitutes.index? callee.signature with
    | some index =>
      exact Search.KeptBy.same.bind fun arg => (h arg).bind fun name => hvalue name
    | none =>
      dsimp only
      split
      · exact formatText_kept h f call.args
      · exact .same

end Texts

theorem textStep_kept (same : a.SameSearch b) (known : a.KnownBy b)
    {inner inner' : Frame → ValueId → Search String}
    (h : ∀ frame id, (inner frame id).KeptBy (inner' frame id)) (frame : Frame) (id : ValueId) :
    (a.textStep inner frame id).KeptBy (b.textStep inner' frame id) := by
  refine Search.KeptBy.same.bind fun v => ?_
  cases v.kind with
  | const literal => cases literal <;> exact .same
  | parameter index | freeVar index => exact Search.KeptBy.same.bind fun x => h _ _
  | binary op x y =>
    cases op with
    | add => exact (h frame x).bind fun _ => (h frame y).bind fun _ => .same
    | _ => exact .same
  | call call => exact callText_kept (h frame) same known _ _
  | phi edges => exact .agreed (h frame) edges
  | makeInterface x | convert x => exact h frame x
  | _ => exact .same

/-- What is found stays, and what never ends goes on, when more variables are known. -/
theorem textWithin_kept (same : a.SameSearch b) (known : a.KnownBy b) (n : Nat) (frame : Frame)
    (id : ValueId) : (a.textWithin n frame id).KeptBy (b.textWithin n frame id) := by
  induction n generalizing frame id with
  | zero => exact .same
  | succ n ih => exact textStep_kept same known ih frame id

theorem locationText_kept (same : a.SameSearch b) (known : a.KnownBy b) (v : Visit) :
    (a.locationText v).KeptBy (b.locationText v) :=
  Search.KeptBy.same.bind fun arg => textWithin_kept same known maxDepth v.frame arg

namespace SameSearch

theorem symm (same : a.SameSearch b) : b.SameSearch a :=
  ⟨same.program.symm, same.service.symm, same.maxRecursionDepth.symm, same.clients.symm,
    same.endpoints.symm, same.substitutes.symm, same.ignored.symm⟩

theorem classify_eq (same : a.SameSearch b) (signature : String) :
    b.settings.classify signature = a.settings.classify signature := by
  rw [Settings.classify, Settings.classify, same.clients, same.endpoints, same.substitutes]

theorem callee?_eq (same : a.SameSearch b) (frame : Frame) (id : ValueId) :
    b.callee? frame id = a.callee? frame id := by
  have callees : b.resolveCallee frame = a.resolveCallee frame := by
    funext call
    exact resolveCallee_congr same.program frame call
  rw [callee?, callee?, callees, same.program]

theorem mayEnter_eq (same : a.SameSearch b) (frame : Frame) (visited : Visited)
    (callee : Function) : b.mayEnter frame visited callee = a.mayEnter frame visited callee := by
  rw [mayEnter, mayEnter, Settings.isIgnored, Settings.isIgnored, same.ignored,
    same.maxRecursionDepth]

theorem handlerFrame?_eq (same : a.SameSearch b) (frame : Frame) (visited : Visited)
    (site : Position) (call : Call) (index : UInt64) :
    b.handlerFrame? frame visited site call index =
      a.handlerFrame? frame visited site call index := by
  simp only [handlerFrame?, resolveHandler_congr same.program, same.program, same.mayEnter_eq]

/-- Both walks open the same frames. -/
theorem child?_eq (same : a.SameSearch b) (frame : Frame) (visited : Visited) (id : ValueId) :
    b.child? frame visited id = a.child? frame visited id := by
  simp only [child?, same.callee?_eq, same.classify_eq, same.handlerFrame?_eq, same.mayEnter_eq]

theorem report?_eq (same : a.SameSearch b) (frame : Frame) (id : ValueId) :
    b.report? frame id = a.report? frame id := by
  simp only [report?, same.callee?_eq, same.classify_eq]

theorem visitInstr_eq (same : a.SameSearch b) (enter : Frame → List Visit) (frame : Frame)
    (visited : Visited) (id : ValueId) :
    b.visitInstr enter frame visited id = a.visitInstr enter frame visited id := by
  rw [Analysis.visitInstr_eq, Analysis.visitInstr_eq, same.report?_eq, same.child?_eq]

theorem walkBlock_eq (same : a.SameSearch b) (fuel : Nat) :
    b.walkBlock fuel = a.walkBlock fuel := by
  induction fuel with
  | zero => rfl
  | succ fuel ih =>
    funext frame visited block
    have hinstr : b.visitInstr = a.visitInstr := by
      funext enter frame visited id
      exact same.visitInstr_eq enter frame visited id
    rw [walkBlock, walkBlock, ih, hinstr]

/-- Both walks come to the same calls. -/
theorem visits_eq (same : a.SameSearch b) : b.visits = a.visits := by
  rw [visits, visits, same.program, same.walkBlock_eq]

end SameSearch

section Findings

variable {v : Visit} {f f' : Finding}

theorem target_eq (same : a.SameSearch b) (v : Visit) (location : Option String) :
    a.target v location = b.target v location := by
  rw [target, target, same.service]

/-- A call that is resolved is told about in the same way when more variables are known. -/
theorem finding?_refined (same : a.SameSearch b) (known : a.KnownBy b)
    (hf' : b.finding? v = some f') : ∃ f, a.finding? v = some f ∧ f.RefinedBy f' := by
  obtain ⟨location', hlocation', rfl⟩ := finding?_eq_some_iff.1 hf'
  have hkept := locationText_kept same known v
  generalize htext : a.locationText v = s at hkept
  generalize b.locationText v = s' at hkept hlocation'
  cases hkept with
  | same =>
    refine ⟨_, finding?_eq_some_iff.2 ⟨location', htext ▸ hlocation', rfl⟩, rfl, ?_⟩
    rw [target_eq same]
    exact ⟨rfl, rfl, rfl, fun _ => rfl⟩
  | unknown =>
    refine ⟨_, finding?_eq_some_iff.2 ⟨none, by rw [htext]; rfl, rfl⟩, rfl, rfl, rfl, rfl, ?_⟩
    intro hresolved
    cases hresolved

theorem finding?_eq (same : a.SameSearch b) (h : ∀ name, a.value? name = b.value? name) (v : Visit) :
    a.finding? v = b.finding? v := by
  have known : a.KnownBy b := fun name value hvalue => (h name).symm.trans hvalue
  have known' : b.KnownBy a := fun name value hvalue => (h name).trans hvalue
  have htext := (locationText_kept same known v).antisymm (locationText_kept same.symm known' v)
  rw [finding?, finding?, htext]
  congr 1
  funext location
  rw [target_eq same]

end Findings

theorem firstFindings_refined {findings findings' : List Finding}
    (h : List.Forall₂ Finding.RefinedBy findings findings') (seen : List (List Position)) :
    List.Forall₂ Finding.RefinedBy (firstFindings seen findings) (firstFindings seen findings') := by
  induction h generalizing seen with
  | nil => exact .nil
  | cons hf _ ih =>
    rw [firstFindings, firstFindings, hf.target.trace]
    split
    · exact ih seen
    · exact .cons hf (ih _)

theorem targetsOf_refined {findings findings' : List Finding}
    (h : List.Forall₂ Finding.RefinedBy findings findings') (kind : CallKind) :
    List.Forall₂ CallTarget.RefinedBy (Finding.targetsOf kind findings)
      (Finding.targetsOf kind findings') := by
  induction h with
  | nil => exact .nil
  | cons hf _ ih =>
    unfold Finding.targetsOf at ih ⊢
    rw [List.filter_cons, List.filter_cons, hf.kind]
    split
    · exact .cons hf.target ih
    · exact ih

theorem findings_refined (same : a.SameSearch b) (known : a.KnownBy b) {visits : List Visit}
    {findings' : List Finding} (h : visits.map b.finding? = findings'.map some) :
    ∃ findings, visits.map a.finding? = findings.map some ∧
      List.Forall₂ Finding.RefinedBy findings findings' := by
  induction visits generalizing findings' with
  | nil =>
    cases findings' with
    | nil => exact ⟨[], rfl, .nil⟩
    | cons f' rest' => cases h
  | cons v visits ih =>
    cases findings' with
    | nil => cases h
    | cons f' rest' =>
      obtain ⟨hf', hrest'⟩ := List.cons.inj h
      obtain ⟨f, hf, hrefined⟩ := finding?_refined same known hf'
      obtain ⟨rest, hrest, hall⟩ := ih hrest'
      exact ⟨f :: rest, by rw [List.map_cons, List.map_cons, hf, hrest], .cons hrefined hall⟩

theorem walk_refined (same : a.SameSearch b) (known : a.KnownBy b) {found' : Discovery}
    (h : b.walk = some found') :
    ∃ found, a.walk = some found ∧ ∀ kind,
      List.Forall₂ CallTarget.RefinedBy (found.targets kind) (found'.targets kind) := by
  obtain ⟨findings', hfindings', rfl⟩ := walk_eq_some_iff.1 h
  rw [findings, mapM_eq_some_iff, same.visits_eq] at hfindings'
  obtain ⟨findings, hfindings, hrefined⟩ := findings_refined same known hfindings'
  refine ⟨_, walk_eq_some_iff.2 ⟨findings, mapM_eq_some_iff.2 hfindings, rfl⟩, fun kind => ?_⟩
  rw [Finding.targets_discovery, Finding.targets_discovery]
  exact targetsOf_refined (firstFindings_refined hrefined []) kind

theorem SameSearch.walk_eq (same : a.SameSearch b) (h : ∀ name, a.value? name = b.value? name) :
    a.walk = b.walk := by
  have hfinding : a.finding? = b.finding? := funext (finding?_eq same h)
  rw [walk, walk, reported, reported, findings, findings, same.visits_eq, hfinding]

/-- Let a second walk know every variable of the service that the first one knows. If it returns so
does the first one; both then report equally many clients and endpoints, position by position with the
same trace, package and method, and every call that is resolved is reported as it was. It can fail to
return where the first one returns only at a call whose location was unknown before. Where the
variables of the service are the same, both return the same or neither of them returns. -/
theorem walk_variables (a b : Analysis) (same : a.SameSearch b) :
    (a.KnownBy b →
      (∀ found', b.walk = some found' → ∃ found, a.walk = some found ∧ ∀ kind,
        List.Forall₂ CallTarget.RefinedBy (found.targets kind) (found'.targets kind)) ∧
      (b.walk = none → a.walk = none ∨
        ∃ v ∈ a.visits, a.locationText v = .unknown ∧ b.locationText v = .endless)) ∧
    ((∀ name, a.value? name = b.value? name) → a.walk = b.walk) := by
  refine ⟨fun known => ⟨fun found' h => walk_refined same known h, fun h => ?_⟩, same.walk_eq⟩
  obtain ⟨v, hv, hendless⟩ := walk_eq_none_iff.1 h
  rw [same.visits_eq] at hv
  have hkept := locationText_kept same known v
  rw [hendless] at hkept
  generalize htext : a.locationText v = s at hkept
  cases hkept with
  | same => exact .inl (walk_eq_none_iff.2 ⟨v, hv, htext⟩)
  | unknown => exact .inr ⟨v, hv, htext, hendless⟩

/-- A service that takes the places of two others from its environment. -/
def orders (environment : Environment) (verbose : Bool) : Analysis where
  service := "orders"
  settings := { Settings.default with environment := environment, verbose := verbose }
  program := {
    packages := []
    methodSets := .empty
    functions := [
      .declared 0 "net/http" "http" "Get",
      .declared 1 "os" "os" "Getenv",
      { Function.declared 2 "a" "main" "main" with
        values := [
          ⟨"t0", "string", none, .const (.string "PAYMENTS")⟩,
          ⟨"t1", "string", none, .call ⟨.static 1, [0]⟩⟩,
          ⟨"t2", "", some ⟨"main.go", 4⟩, .call ⟨.static 0, [1]⟩⟩,
          ⟨"t3", "string", none, .const (.string "STOCK")⟩,
          ⟨"t4", "string", none, .call ⟨.static 1, [3]⟩⟩,
          ⟨"t5", "string", none, .const (.string "/items")⟩,
          ⟨"t6", "string", none, .binary .add 4 5⟩,
          ⟨"t7", "", some ⟨"main.go", 5⟩, .call ⟨.static 0, [6]⟩⟩]
        blocks := [⟨0, [1, 2, 4, 6, 7], []⟩] }] }

theorem orders_sameSearch (environment environment' : Environment) (verbose verbose' : Bool) :
    (orders environment verbose).SameSearch (orders environment' verbose') :=
  ⟨rfl, rfl, rfl, rfl, rfl, rfl, rfl⟩

/-- One variable of the service, and a variable of another one. -/
def fewVariables : Environment :=
  (Environment.set .empty "orders" "PAYMENTS" "http://payments/pay").set "stock" "STOCK" "no"

/-- One more variable of the service, and none of the other one. -/
def moreVariables : Environment :=
  (Environment.set .empty "orders" "PAYMENTS" "http://payments/pay").set "orders" "STOCK"
    "http://stock"

theorem fewVariables_known : (orders fewVariables false).KnownBy (orders moreVariables true) := by
  intro name value hvalue
  have hmem : (name, value) ∈ [("PAYMENTS", "http://payments/pay")] := Dict.get?_eq_some_iff.1 hvalue
  obtain ⟨rfl, rfl⟩ := Prod.mk.inj (List.mem_singleton.1 hmem)
  decide

/-- The second request is resolved only with both variables, and the first one is the same with one
of them. Without the variable of the other service nothing changes. -/
theorem orders_walk :
    ∃ few more, (orders fewVariables false).walk = some few ∧
      (orders moreVariables true).walk = some more ∧
      few.clients.map (·.requestLocation) = ["http://payments/pay", ""] ∧
      more.clients.map (·.requestLocation) = ["http://payments/pay", "http://stock/items"] ∧
      (∀ kind, List.Forall₂ CallTarget.RefinedBy (few.targets kind) (more.targets kind)) ∧
      (orders fewVariables false).walk =
        (orders (.set .empty "orders" "PAYMENTS" "http://payments/pay") true).walk := by
  have hmore : ∃ more, (orders moreVariables true).walk = some more ∧
      more.clients.map (·.requestLocation) = ["http://payments/pay", "http://stock/items"] :=
    ⟨_, rfl, by decide⟩
  obtain ⟨more, hwalk, hlocations⟩ := hmore
  obtain ⟨hrefined, -⟩ := (walk_variables _ _ (orders_sameSearch ..)).1 fewVariables_known
  obtain ⟨few, hfew, hall⟩ := hrefined more hwalk
  have hlocations' : (orders fewVariables false).walk.map (·.clients.map (·.requestLocation)) =
      some ["http://payments/pay", ""] := by decide
  rw [hfew] at hlocations'
  refine ⟨few, more, hfew, hwalk, Option.some.inj hlocations', hlocations, hall, ?_⟩
  exact (walk_variables _ _ (orders_sameSearch ..)).2 fun name => rfl

/-- Without the variable that it takes its format from the reporter has two requests. With a format
that takes an operand the walk does not return. -/
theorem reporting_knows_more :
    let few := reporting .empty "a"
    let more := reporting (Environment.set .empty "a" "FORMAT" "%s") "a"
    few.SameSearch more ∧ few.KnownBy more ∧
      few.walk.map (·.clients.map (·.trace)) =
        some [[⟨"main.go", 3⟩], [⟨"main.go", 4⟩, ⟨"report.go", 6⟩]] ∧
      more.walk = none := by
  refine ⟨⟨rfl, rfl, rfl, rfl, rfl, rfl, rfl⟩, ?_, by decide, walk_reporting _ _ rfl⟩
  intro name value hvalue
  cases hvalue

end Analysis

end ServiceGraph
