import ServiceGraph.Discovery
import ServiceGraph.Proofs.Program.Codec

namespace ServiceGraph

open Json (Written RoundTrips written_id written_list plain_optionMember)

section Findings

theorem CallTarget.written (t : CallTarget) : Written CallTarget.ofJson? t.toJson t := by
  have service := Json.orElse_str t.targetService
  have trace := written_list fun p (_ : p ∈ t.trace) => p.written
  constructor
  · simp only [toJson, Json.plain_obj_iff, List.forall_mem_append]
    exact ⟨⟨by simp, plain_optionMember fun s _ => .str s⟩, by simpa using trace.plain⟩
  · simp [toJson, ofJson?, service, trace.read_eq]

theorem BusRole.written (r : BusRole) : Written BusRole.ofJson? (.str r.name) r := by
  refine ⟨.str _, ?_⟩
  cases r <;> simp [ofJson?, Json.alternative?, name]

theorem BusCall.written (c : BusCall) : Written BusCall.ofJson? c.toJson c := by
  obtain ⟨line, hline, written⟩ := (written_id c.line).exists_eq
  rw [toJson, hline]
  constructor
  · simp [written.plain]
  · simp [ofJson?, written.read_eq, c.role.written.read_eq]

theorem Discovery.written (d : Discovery) : Written Discovery.ofJson? d.toJson d := by
  have clients := written_list fun t (_ : t ∈ d.clients) => t.written
  have endpoints := written_list fun t (_ : t ∈ d.endpoints) => t.written
  have busCalls := written_list fun c (_ : c ∈ d.busCalls) => c.written
  constructor
  · simp [toJson, clients.plain, endpoints.plain, busCalls.plain]
  · simp [toJson, ofJson?, clients.read_eq, endpoints.read_eq, busCalls.read_eq]

end Findings

section Defaults

open Json (memberNames names_optionMember listMember_eq isSome_nonempty?)

theorem Function.notMem_memberNames_iff (f : Function) :
    ("receiver" ∉ f.toJson.memberNames ↔ f.receiver = none) ∧
      ("pos" ∉ f.toJson.memberNames ↔ f.position = none) ∧
      ("free_vars" ∉ f.toJson.memberNames ↔ f.freeVars = []) := by
  simp [toJson, memberNames, listMember_eq, names_optionMember, isSome_nonempty?]

theorem Package.notMem_memberNames_iff (p : Package) :
    "errors" ∉ p.toJson.memberNames ↔ p.errors = [] := by
  simp [toJson, memberNames, listMember_eq, names_optionMember, isSome_nonempty?]

theorem Value.notMem_memberNames_iff (v : Value) :
    "pos" ∉ v.toJson.memberNames ↔ v.position = none := by
  have other := v.kind.notMem_names (by simp : "pos" ∈ ["name", "ty", "pos"])
  simp [toJson, memberNames, names_optionMember, other]

theorem Program.notMem_memberNames_iff (p : Program) :
    "method_sets" ∉ p.toJson.memberNames ↔ p.methodSets = .empty := by
  rw [← Dict.isEmpty_iff]
  cases hempty : p.methodSets.isEmpty with
  | true => simp [toJson, memberNames, hempty]
  | false => simp [toJson, memberNames, hempty]

theorem CallTarget.notMem_memberNames_iff (t : CallTarget) :
    "target_service" ∉ t.toJson.memberNames ↔ t.targetService = none := by
  simp [toJson, memberNames, names_optionMember]

end Defaults

/-- Programs without doubles and findings are read back from what is written. No member of a value
takes the name of another one, and a field is left out exactly when it has its default. -/
theorem toJson_roundTrips :
    (∀ p : Program, p.FloatFree → RoundTrips Program.toJson Program.ofJson? p) ∧
    (∀ d : Discovery, RoundTrips Discovery.toJson Discovery.ofJson? d) ∧
    (∀ v : Value, v.toJson.memberNames.Nodup ∧
      ("pos" ∉ v.toJson.memberNames ↔ v.position = none)) ∧
    (∀ f : Function, ("receiver" ∉ f.toJson.memberNames ↔ f.receiver = none) ∧
      ("pos" ∉ f.toJson.memberNames ↔ f.position = none) ∧
      ("free_vars" ∉ f.toJson.memberNames ↔ f.freeVars = [])) ∧
    (∀ k : Package, "errors" ∉ k.toJson.memberNames ↔ k.errors = []) ∧
    (∀ p : Program, "method_sets" ∉ p.toJson.memberNames ↔ p.methodSets = .empty) ∧
    (∀ t : CallTarget, "target_service" ∉ t.toJson.memberNames ↔ t.targetService = none) := by
  refine ⟨?_, ?_, ?_, ?_, ?_, ?_, ?_⟩
  · intro p h
    exact (Program.written h).roundTrips
  · intro d
    exact d.written.roundTrips
  · intro v
    exact ⟨v.nodup_memberNames, v.notMem_memberNames_iff⟩
  · exact Function.notMem_memberNames_iff
  · exact Package.notMem_memberNames_iff
  · exact Program.notMem_memberNames_iff
  · exact CallTarget.notMem_memberNames_iff

/-- A program with every kind of instruction, and fields of every kind present and absent. -/
def everyKind : Program where
  functions := [
    { id := 4294967295, name := "main", packagePath := "shop/main", packageName := "main"
      receiver := none, position := none, params := [⟨"x", 0⟩], freeVars := []
      values := [
        .const (.string "\"\\\n\u0000é"), .const (.int (-9223372036854775808)),
        .const (.int 9223372036854775807), .const (.bool true), .const .nil,
        .parameter 18446744073709551615, .freeVar 0, .function 1, .globalVar "pos",
        .call ⟨.static 1, [0, 4294967295]⟩, .go ⟨.dynamic 2, []⟩, .defer ⟨.invoke 3 "instr", [1]⟩,
        .makeInterface 1, .makeClosure 1 [2, 3], .convert 0, .phi [], .alloc, .indexAddr 0 1,
        .store 1 0, .slice 1, .jump, .branch 2, .ret [0], .other].map (⟨"name", "ty", none, ·⟩)
      blocks := [⟨0, [0, 1, 2], [1]⟩, ⟨1, [], []⟩] },
    { id := 1, name := "Send", packagePath := "shop/bus", packageName := "bus"
      receiver := some "*Bus", position := some ⟨"bus.go", 7⟩, params := []
      freeVars := [⟨"b", 0⟩]
      values := [.add, .sub, .mul, .div, .rem, .eq, .ne, .lt, .le, .gt, .ge, .other].map
        fun op => ⟨"", "", some ⟨"bus.go", 8⟩, .binary op 0 1⟩
      blocks := [] }]
  packages := [⟨"shop/main", "main", []⟩, ⟨"shop/bus", "bus", ["no such file"]⟩]
  methodSets := .ofList [("*Bus", .ofList [("Send", 1)]), ("Empty", .empty)]

theorem everyKind_roundTrips : everyKind.FloatFree ∧
    Program.parseBytes? (String.ofList everyKind.toJson.compact).toUTF8 = some everyKind ∧
    Program.parseBytes? (String.ofList (everyKind.toJson.pretty 0)).toUTF8 = some everyKind := by
  have free : everyKind.FloatFree := by decide
  have trip := toJson_roundTrips.1 everyKind free
  exact ⟨free, trip.bytes trip.compact_spells, trip.bytes trip.pretty_spells⟩

end ServiceGraph
