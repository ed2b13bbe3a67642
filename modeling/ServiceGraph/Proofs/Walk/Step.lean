import ServiceGraph.Proofs.Walk.Blocks

namespace ServiceGraph

namespace Function

/-- An instruction of a block that control can come to. -/
def Lists (f : Function) (id : ValueId) : Prop := ∃ i b, f.Reaches i b ∧ id ∈ b.instrs

end Function

namespace Frame

/-- The ids of the active functions, innermost first. -/
def ids (f : Frame) : List FunctionId := f.activations.map (·.function.id)

/-- The first blocks of the functions below a frame: the least that is visited when it is opened. -/
def entered (f : Frame) : Visited := f.below.map fun act => (act.function.id, 0)

theorem mem_ids_iff {f : Frame} {id : FunctionId} :
    id ∈ f.ids ↔ ∃ act ∈ f.activations, act.function.id = id := List.mem_map

theorem ids_of_below {f g : Frame} (h : g.below = f.activations) :
    g.ids = g.function.id :: f.ids := by
  rw [ids, activations, h]
  rfl

end Frame

/-- What the settings say about the functions that are called. -/
def CallKind.action : CallKind → Action
  | .client => .client
  | .endpoint => .endpoint

namespace Analysis

/-- What a call instruction of the active function enters. -/
structure Calls (a : Analysis) (frame : Frame) (id : ValueId) (call : Call) (callable : Callable)
    (callee : Function) : Prop where
  instruction : ∃ v, frame.function.value? id = some v ∧ v.call? = some call
  resolved : a.resolveCallee frame call = some callable
  exists_callee : a.program.function? callable.func = some callee

/-- A function may be entered from a frame. -/
structure Enterable (a : Analysis) (frame : Frame) (callee : Function) : Prop where
  body : callee.blocks ≠ []
  package : a.settings.isIgnored callee.packagePath = false
  depth : frame.depth < a.settings.maxRecursionDepth
  inactive : ∀ act ∈ frame.activations, act.function.id ≠ callee.id

section Callees

variable {a b : Analysis} (h : b.program = a.program)
include h

theorem typeWithin_congr (depth : Nat) (frame : Frame) (id : ValueId) :
    b.typeWithin depth frame id = a.typeWithin depth frame id := by
  induction depth generalizing frame id with
  | zero => rfl
  | succ depth ih =>
    have inner : b.typeWithin depth = a.typeWithin depth := by
      funext frame id
      exact ih frame id
    rw [typeWithin, typeWithin, inner, typeStep, typeStep, h]

theorem resolveMethod_congr (frame : Frame) (id : ValueId) (method : String) :
    b.resolveMethod frame id method = a.resolveMethod frame id method := by
  rw [resolveMethod, resolveMethod, concreteType, concreteType, typeWithin_congr h, h]

/-- Which function a call enters is a matter of the program alone. -/
theorem resolveCallee_congr (frame : Frame) (call : Call) :
    b.resolveCallee frame call = a.resolveCallee frame call := by
  unfold resolveCallee
  cases call.callee with
  | static func => rfl
  | dynamic value => rfl
  | invoke receiver method => exact resolveMethod_congr h frame receiver method

theorem resolveHandler_congr (frame : Frame) (id : ValueId) :
    b.resolveHandler frame id = a.resolveHandler frame id := by
  rw [resolveHandler, resolveHandler, resolveMethod_congr h]

theorem Calls.congr {frame : Frame} {id : ValueId} {call : Call} {callable : Callable}
    {callee : Function} (calls : a.Calls frame id call callable callee) :
    b.Calls frame id call callable callee where
  instruction := calls.instruction
  resolved := (resolveCallee_congr h frame call).trans calls.resolved
  exists_callee := by
    rw [h]
    exact calls.exists_callee

end Callees

/-- An instruction of a frame opens another frame: that of the function it calls, if that means
nothing by itself, or that of the handler which it registers. -/
inductive Opens (a : Analysis) (frame : Frame) (id : ValueId) : Frame → Prop where
  | call {call : Call} {callable : Callable} {callee : Function} :
      a.Calls frame id call callable callee →
      a.settings.classify callee.signature = none →
      a.Enterable frame callee →
      Opens a frame id (frame.descend (frame.function.callSite id) callee call callable)
  | handler {call : Call} {callable handler : Callable} {callee function : Function}
      {index : UInt64} {arg : ValueId} :
      a.Calls frame id call callable callee →
      a.settings.classify callee.signature = some (.endpoint, index) →
      call.arguments[(index + 1).toNat]? = some arg →
      a.resolveHandler frame arg = some handler →
      a.program.function? handler.func = some function →
      a.Enterable frame function →
      Opens a frame id (frame.handler (frame.function.callSite id) function handler)

/-- The call of interest that an instruction of a frame makes. -/
inductive Reports (a : Analysis) (frame : Frame) (id : ValueId) : Visit → Prop where
  | call {kind : CallKind} {call : Call} {callable : Callable} {callee : Function} {index : UInt64} :
      a.Calls frame id call callable callee →
      a.settings.classify callee.signature = some (kind.action, index) →
      Reports a frame id ⟨kind, frame, frame.function.callSite id, callee, call, index⟩

namespace Opens

variable {a : Analysis} {frame child : Frame} {id : ValueId}

theorem below_eq (h : a.Opens frame id child) : child.below = frame.activations := by
  cases h <;> rfl

theorem depth_eq (h : a.Opens frame id child) : child.depth = frame.depth + 1 := by
  cases h with
  | call => exact frame.depth_descend ..
  | handler => exact frame.depth_handler ..

theorem length_trace_le (h : a.Opens frame id child) :
    child.top.trace.length ≤ frame.top.trace.length + 1 := by
  cases h with
  | call => simp [Frame.descend]
  | handler => simp [Frame.handler]

theorem enterable (h : a.Opens frame id child) : a.Enterable frame child.function := by
  cases h with
  | call _ _ h => exact h
  | handler _ _ _ _ _ h => exact h

theorem depth_le (h : a.Opens frame id child) : child.depth ≤ a.settings.maxRecursionDepth := by
  have hroom := h.enterable.depth
  have hdepth := h.depth_eq
  omega

/-- The trace of a frame is not longer than its stack. That of a handler starts again. -/
theorem length_trace_le_depth (h : a.Opens frame id child)
    (hframe : frame.top.trace.length ≤ frame.depth) : child.top.trace.length ≤ child.depth := by
  have htrace := h.length_trace_le
  have hdepth := h.depth_eq
  omega

theorem mem_functions (h : a.Opens frame id child) : child.function ∈ a.program.functions := by
  cases h with
  | call h => exact List.mem_of_getElem? h.exists_callee
  | handler _ _ _ _ h => exact List.mem_of_getElem? h

theorem id_notMem (h : a.Opens frame id child) : child.function.id ∉ frame.ids := by
  intro hid
  obtain ⟨act, hact, heq⟩ := Frame.mem_ids_iff.1 hid
  exact h.enterable.inactive act hact heq

end Opens

/-- What is visited where the walk is in a frame: blocks of active functions, and the first block of
every function below. -/
structure OnPath (frame : Frame) (visited : Visited) : Prop where
  active : ∀ p ∈ visited, p.1 ∈ frame.ids
  below : ∀ act ∈ frame.below, (act.function.id, 0) ∈ visited

namespace OnPath

variable {frame child : Frame} {visited visited' : Visited}

theorem mono (h : OnPath frame visited) (hsub : visited ⊆ visited')
    (hnew : ∀ p ∈ visited', p ∈ visited ∨ p.1 = frame.function.id) : OnPath frame visited' where
  active p hp := by
    rcases hnew p hp with hp | hp
    · exact h.active p hp
    · rw [hp]
      exact List.mem_cons_self
  below act hact := hsub (h.below act hact)

theorem cons (h : OnPath frame visited) (i : BlockId) :
    OnPath frame ((frame.function.id, i) :: visited) := by
  refine h.mono (List.subset_cons_self _ _) fun p hp => ?_
  rcases List.mem_cons.1 hp with rfl | hp
  · exact .inr rfl
  · exact .inl hp

/-- Once the first block of a frame is visited, the entered functions are the active ones. -/
theorem entered_iff (h : OnPath frame visited) (h0 : (frame.function.id, 0) ∈ visited)
    (id : FunctionId) : (id, 0) ∈ visited ↔ id ∈ frame.ids := by
  constructor
  · exact fun hid => h.active _ hid
  · intro hid
    obtain ⟨act, hact, rfl⟩ := Frame.mem_ids_iff.1 hid
    rcases List.mem_cons.1 hact with rfl | hact
    · exact h0
    · exact h.below act hact

theorem opened (h : OnPath frame visited) (h0 : (frame.function.id, 0) ∈ visited)
    (hbelow : child.below = frame.activations) : OnPath child visited where
  active p hp := by
    rw [Frame.ids_of_below hbelow]
    exact List.mem_cons_of_mem _ (h.active p hp)
  below act hact := by
    rw [hbelow] at hact
    exact (h.entered_iff h0 _).2 (List.mem_map_of_mem hact)

end OnPath

theorem mayEnter_iff (a : Analysis) {frame : Frame} {visited : Visited} (h : OnPath frame visited)
    (h0 : (frame.function.id, 0) ∈ visited) (callee : Function) :
    a.mayEnter frame visited callee = true ↔ a.Enterable frame callee := by
  have inactive : (visited.contains (callee.id, 0) = false) ↔
      ∀ act ∈ frame.activations, act.function.id ≠ callee.id := by
    rw [← Bool.not_eq_true, List.contains_iff_mem, h.entered_iff h0, Frame.mem_ids_iff]
    constructor
    · exact fun hid act hact heq => hid ⟨act, hact, heq⟩
    · exact fun hid ⟨act, hact, heq⟩ => hid act hact heq
  unfold mayEnter Function.isExternal
  simp only [Bool.and_eq_true, Bool.not_eq_true', decide_eq_true_eq, inactive,
    List.isEmpty_eq_false_iff]
  constructor
  · rintro ⟨⟨⟨hb, hp⟩, hd⟩, hi⟩
    exact ⟨hb, hp, hd, hi⟩
  · rintro ⟨hb, hp, hd, hi⟩
    exact ⟨⟨⟨hb, hp⟩, hd⟩, hi⟩

/-- The call of an instruction, and the function that it enters. -/
def callee? (a : Analysis) (frame : Frame) (id : ValueId) : Option (Call × Callable × Function) := do
  let call ← (frame.function.value? id).bind (·.call?)
  let callable ← a.resolveCallee frame call
  return (call, callable, ← a.program.function? callable.func)

theorem callee?_eq_some_iff (a : Analysis) (frame : Frame) (id : ValueId) (call : Call)
    (callable : Callable) (callee : Function) :
    a.callee? frame id = some (call, callable, callee) ↔ a.Calls frame id call callable callee := by
  simp only [callee?, Option.bind_eq_bind, Option.bind_eq_some_iff, Option.pure_def,
    Option.some.injEq, Prod.mk.injEq]
  constructor
  · rintro ⟨_, hcall, _, hres, _, hfun, rfl, rfl, rfl⟩
    exact ⟨hcall, hres, hfun⟩
  · rintro ⟨hcall, hres, hfun⟩
    exact ⟨call, hcall, callable, hres, callee, hfun, rfl, rfl, rfl⟩

/-- The visit that an instruction reports. -/
def report? (a : Analysis) (frame : Frame) (id : ValueId) : Option Visit := do
  let (call, _, callee) ← a.callee? frame id
  match a.settings.classify callee.signature with
  | some (.client, index) =>
    some ⟨.client, frame, frame.function.callSite id, callee, call, index⟩
  | some (.endpoint, index) =>
    some ⟨.endpoint, frame, frame.function.callSite id, callee, call, index⟩
  | _ => none

/-- The frame that an instruction opens when some blocks are visited. -/
def child? (a : Analysis) (frame : Frame) (visited : Visited) (id : ValueId) : Option Frame := do
  let (call, callable, callee) ← a.callee? frame id
  match a.settings.classify callee.signature with
  | some (.endpoint, index) =>
    a.handlerFrame? frame visited (frame.function.callSite id) call (index + 1)
  | some (.client, _) | some (.substitute, _) => none
  | none =>
    if a.mayEnter frame visited callee then
      some (frame.descend (frame.function.callSite id) callee call callable)
    else none

/-- The visits at an instruction are what it reports, and then those of the frame that it opens. -/
theorem visitInstr_eq (a : Analysis) (enter : Frame → List Visit) (frame : Frame)
    (visited : Visited) (id : ValueId) :
    a.visitInstr enter frame visited id =
      (a.report? frame id).toList ++ ((a.child? frame visited id).map enter).getD [] := by
  unfold visitInstr report? child? callee?
  cases (frame.function.value? id).bind (·.call?) with
  | none => rfl
  | some call =>
    simp only [visitCall, Option.bind_eq_bind, Option.bind_some]
    cases a.resolveCallee frame call with
    | none => rfl
    | some callable =>
      simp only [Option.bind_some]
      cases a.program.function? callable.func with
      | none => rfl
      | some callee =>
        simp only [Option.bind_some, Option.pure_def]
        cases a.settings.classify callee.signature with
        | none => cases a.mayEnter frame visited callee <;> rfl
        | some found =>
          obtain ⟨action, index⟩ := found
          cases action <;> rfl

theorem report?_eq_some_iff (a : Analysis) (frame : Frame) (id : ValueId) (v : Visit) :
    a.report? frame id = some v ↔ a.Reports frame id v := by
  simp only [report?, Option.bind_eq_bind, Option.bind_eq_some_iff, Prod.exists]
  constructor
  · rintro ⟨call, callable, callee, hcall, h⟩
    have calls := (a.callee?_eq_some_iff ..).1 hcall
    split at h
    next hc =>
      cases h
      exact .call calls hc
    next hc =>
      cases h
      exact .call calls hc
    next => cases h
  · rintro (@⟨kind, call, callable, callee, index, calls, hc⟩)
    refine ⟨call, callable, callee, (a.callee?_eq_some_iff ..).2 calls, ?_⟩
    cases kind <;> rw [hc] <;> rfl

theorem handlerFrame?_eq_some_iff (a : Analysis) {frame : Frame} {visited : Visited}
    (h : OnPath frame visited) (h0 : (frame.function.id, 0) ∈ visited) (site : Position)
    (call : Call) (index : UInt64) (child : Frame) :
    a.handlerFrame? frame visited site call index = some child ↔
      ∃ arg handler function, call.arguments[index.toNat]? = some arg ∧
        a.resolveHandler frame arg = some handler ∧
        a.program.function? handler.func = some function ∧ a.Enterable frame function ∧
        frame.handler site function handler = child := by
  simp only [handlerFrame?, Option.bind_eq_bind, Option.bind_eq_some_iff, a.mayEnter_iff h h0,
    Option.ite_none_right_eq_some, Option.some.injEq]
  constructor
  · rintro ⟨arg, harg, handler, hres, function, hfun, hent, rfl⟩
    exact ⟨arg, handler, function, harg, hres, hfun, hent, rfl⟩
  · rintro ⟨arg, handler, function, harg, hres, hfun, hent, rfl⟩
    exact ⟨arg, harg, handler, hres, function, hfun, hent, rfl⟩

theorem child?_eq_some_iff (a : Analysis) {frame : Frame} {visited : Visited}
    (h : OnPath frame visited) (h0 : (frame.function.id, 0) ∈ visited) (id : ValueId)
    (child : Frame) : a.child? frame visited id = some child ↔ a.Opens frame id child := by
  simp only [child?, Option.bind_eq_bind, Option.bind_eq_some_iff, Prod.exists]
  constructor
  · rintro ⟨call, callable, callee, hcall, hchild⟩
    have calls := (a.callee?_eq_some_iff ..).1 hcall
    split at hchild
    next hc =>
      obtain ⟨arg, handler, function, harg, hres, hfun, hent, rfl⟩ :=
        (a.handlerFrame?_eq_some_iff h h0 ..).1 hchild
      exact .handler calls hc harg hres hfun hent
    next => cases hchild
    next => cases hchild
    next hc =>
      obtain ⟨hmay, hframe⟩ := Option.ite_none_right_eq_some.1 hchild
      cases hframe
      exact .call calls hc ((a.mayEnter_iff h h0 callee).1 hmay)
  · intro hopens
    cases hopens with
    | @call call callable callee calls hc hent =>
      refine ⟨call, callable, callee, (a.callee?_eq_some_iff ..).2 calls, ?_⟩
      rw [hc]
      exact if_pos ((a.mayEnter_iff h h0 callee).2 hent)
    | @handler call callable handler callee function _ arg calls hc harg hres hfun hent =>
      refine ⟨call, callable, callee, (a.callee?_eq_some_iff ..).2 calls, ?_⟩
      rw [hc]
      exact (a.handlerFrame?_eq_some_iff h h0 ..).2
        ⟨arg, handler, function, harg, hres, hfun, hent, rfl⟩

end Analysis

end ServiceGraph
