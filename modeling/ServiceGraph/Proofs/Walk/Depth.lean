import ServiceGraph.Proofs.Walk.Agreement

namespace ServiceGraph

/-- The same kind of value; the same branches may be listed in another way. -/
inductive ValueKind.Rebranched : ValueKind → ValueKind → Prop where
  | same (kind : ValueKind) : Rebranched kind kind
  | phi {edges edges' : List ValueId} :
      (∀ e, e ∈ edges ↔ e ∈ edges') → Rebranched (.phi edges) (.phi edges')

/-- The same function up to the lists of branches. -/
structure Function.Rebranched (f g : Function) : Prop where
  params : g.params = f.params
  freeVars : g.freeVars = f.freeVars
  values : List.Forall₂ (fun v w => w.type = v.type ∧ v.kind.Rebranched w.kind) f.values g.values

/-- The same activation up to the lists of branches in its function. -/
structure Activation.Rebranched (x y : Activation) : Prop where
  function : x.function.Rebranched y.function
  depth : y.depth = x.depth
  params : y.params = x.params
  freeVars : y.freeVars = x.freeVars

/-- The same frame up to the lists of branches in the active functions. -/
structure Frame.Rebranched (frame frame' : Frame) : Prop where
  top : frame.top.Rebranched frame'.top
  below : List.Forall₂ Activation.Rebranched frame.below frame'.below

namespace Frame.Rebranched

variable {frame frame' : Frame}

theorem atLevel (h : frame.Rebranched frame') (level : Nat) :
    (frame.atLevel level).Rebranched (frame'.atLevel level) := by
  obtain ⟨htop, hbelow⟩ := related_atLevel Activation.Rebranched.depth h.top h.below level
  exact ⟨htop, hbelow⟩

theorem param?_eq (h : frame.Rebranched frame') (index : UInt64) :
    frame'.param? index = frame.param? index := by
  rw [param?, param?, function, function, h.top.function.params, h.top.params]

theorem freeVar?_eq (h : frame.Rebranched frame') (index : UInt64) :
    frame'.freeVar? index = frame.freeVar? index := by
  rw [freeVar?, freeVar?, function, function, h.top.function.freeVars, h.top.freeVars]

theorem cases_value? (h : frame.Rebranched frame') (id : ValueId) :
    frame.function.value? id = none ∧ frame'.function.value? id = none ∨
      ∃ v w, frame.function.value? id = some v ∧ frame'.function.value? id = some w ∧
        w.type = v.type ∧ v.kind.Rebranched w.kind :=
  cases_getElem?_of_forall₂ h.top.function.values id.toNat

theorem type?_eq (h : frame.Rebranched frame') (id : ValueId) :
    (frame'.function.value? id).map (·.type) = (frame.function.value? id).map (·.type) := by
  rcases h.cases_value? id with ⟨hv, hw⟩ | ⟨v, w, hv, hw, htype, -⟩
  · rw [hv, hw]
  · rw [hv, hw, Option.map_some, Option.map_some, htype]

end Frame.Rebranched

namespace Analysis

variable {a b : Analysis} {inner inner' : Frame → ValueId → Option String} {frame frame' : Frame}
  {id : ValueId}

theorem typeStep_mono (h : ∀ frame id t, inner frame id = some t → inner' frame id = some t)
    {t : String} (ht : a.typeStep inner frame id = some t) :
    a.typeStep inner' frame id = some t := by
  obtain ⟨v, hv, hkinds⟩ := Option.bind_eq_some_iff.1 ht
  rw [typeStep, hv, Option.bind_eq_bind, Option.bind_some]
  cases hk : v.kind <;> simp only [hk] at hkinds ⊢
  case parameter index | freeVar index =>
    obtain ⟨b, hb, hx⟩ := Option.bind_eq_some_iff.1 hkinds
    rw [hb]
    exact h _ _ _ hx
  case phi edges =>
    obtain ⟨hne, hall⟩ := agreed?_eq_some_iff.1 hkinds
    exact agreed?_eq_some_iff.2 ⟨hne, fun e he => h _ _ _ (hall e he)⟩
  case convert x => exact h _ _ _ hkinds
  all_goals exact hkinds

/-- Following longer chains keeps the types that are found. -/
theorem typeWithin_mono {n m : Nat} (hnm : n ≤ m) {t : String}
    (ht : a.typeWithin n frame id = some t) : a.typeWithin m frame id = some t := by
  induction n generalizing m frame id t with
  | zero => cases ht
  | succ n ih =>
    cases m with
    | zero => omega
    | succ m => exact typeStep_mono (fun _ _ _ => ih (by omega)) ht

theorem typeStep_rebranched (hmethods : b.program.methodSets = a.program.methodSets)
    (hinner : ∀ {frame frame' : Frame}, frame.Rebranched frame' → ∀ id,
      inner' frame' id = inner frame id)
    (h : frame.Rebranched frame') (id : ValueId) :
    b.typeStep inner' frame' id = a.typeStep inner frame id := by
  have hbound (held : Option Bound) :
      (held.bind fun x => inner' (frame'.atLevel x.level) x.value) =
        held.bind fun x => inner (frame.atLevel x.level) x.value := by
    cases held with
    | none => rfl
    | some x => exact hinner (h.atLevel x.level) x.value
  have hsame : inner' frame' = inner frame := funext (hinner h)
  rw [typeStep, typeStep]
  rcases h.cases_value? id with ⟨hv, hw⟩ | ⟨v, w, hv, hw, htype, hvw⟩
  · rw [hv, hw]
    rfl
  · rw [hv, hw, Option.bind_eq_bind, Option.bind_some, Option.bind_eq_bind, Option.bind_some, htype,
      hmethods]
    generalize v.kind = kind at hvw ⊢
    generalize w.kind = kind' at hvw ⊢
    cases hvw with
    | phi hedges =>
      dsimp only
      rw [hsame, agreed?_eq_of_mem_iff hedges]
    | same kind =>
      cases kind with
      | phi edges =>
        dsimp only
        rw [hsame]
      | parameter index =>
        dsimp only
        rw [h.param?_eq]
        exact hbound _
      | freeVar index =>
        dsimp only
        rw [h.freeVar?_eq]
        exact hbound _
      | makeInterface x => exact h.type?_eq x
      | convert x => exact hinner h x
      | _ => rfl

theorem typeWithin_rebranched (hmethods : b.program.methodSets = a.program.methodSets) (n : Nat)
    (h : frame.Rebranched frame') (id : ValueId) :
    b.typeWithin n frame' id = a.typeWithin n frame id := by
  induction n generalizing frame frame' id with
  | zero => rfl
  | succ n ih => exact typeStep_rebranched hmethods (fun h id => ih h id) h id

/-- The function of a value that is come to over `depth` others. What `resolveFunction` looks at first
is at depth zero. -/
def functionAt (depth : Nat) : Frame → ValueId → Option Callable :=
  functionWithin (maxDepth - depth)

/-- The type behind a value that is come to over `depth` others. What `concreteType` looks at first is
at depth zero. -/
def typeAt (a : Analysis) (depth : Nat) : Frame → ValueId → Option String :=
  a.typeWithin (maxDepth - depth)

/-- Nothing is looked at beyond the limit; up to it, a value is looked at one deeper than the value
that leads to it. -/
theorem typeAt_eq (a : Analysis) (depth : Nat) (frame : Frame) (id : ValueId) :
    a.typeAt depth frame id =
      if depth < maxDepth then a.typeStep (a.typeAt (depth + 1)) frame id else none := by
  split
  case isTrue hlt =>
    have hrest : maxDepth - depth = maxDepth - (depth + 1) + 1 := by omega
    rw [typeAt, hrest]
    rfl
  case isFalse hge =>
    have hzero : maxDepth - depth = 0 := by omega
    rw [typeAt, hzero]
    rfl

theorem typeAt_phi_eq_some_iff {edges : List ValueId} {depth : Nat} {t : String}
    (hk : frame.function.kind? id = some (.phi edges)) :
    a.typeAt depth frame id = some t ↔
      depth < maxDepth ∧ edges ≠ [] ∧ ∀ e ∈ edges, a.typeAt (depth + 1) frame e = some t := by
  obtain ⟨v, hv, hkind⟩ := Function.kind?_eq_some_iff.1 hk
  have hstep (inner : Frame → ValueId → Option String) :
      a.typeStep inner frame id = agreed? (inner frame) edges := by
    rw [typeStep, hv, Option.bind_eq_bind, Option.bind_some, hkind]
  rw [typeAt_eq, hstep, Option.ite_none_right_eq_some, agreed?_eq_some_iff]

/-- The limit on the depth only withholds answers: what is found at some depth is found at every
smaller one. The type of a value that comes from branches is the one that all of them have, so it
depends on the set of branches alone, here and in all active functions. -/
theorem depth_only_withholds (a : Analysis) (frame : Frame) (id : ValueId) {d d' : Nat}
    (h : d' ≤ d) :
    (∀ c, functionAt d frame id = some c → functionAt d' frame id = some c) ∧
    (∀ t, a.typeAt d frame id = some t → a.typeAt d' frame id = some t) ∧
    (∀ edges, frame.function.kind? id = some (.phi edges) → ∀ t, a.typeAt d frame id = some t ↔
      d < maxDepth ∧ edges ≠ [] ∧ ∀ e ∈ edges, a.typeAt (d + 1) frame e = some t) ∧
    ∀ (b : Analysis) (frame' : Frame), b.program.methodSets = a.program.methodSets →
      frame.Rebranched frame' → b.typeAt d frame' id = a.typeAt d frame id := by
  have hle : maxDepth - d ≤ maxDepth - d' := Nat.sub_le_sub_left h maxDepth
  refine ⟨?_, ?_, ?_, ?_⟩
  · intro c hc
    exact functionWithin_mono hle hc
  · intro t ht
    exact typeWithin_mono hle ht
  · intro edges hk t
    exact typeAt_phi_eq_some_iff hk
  · intro b frame' hmethods hframe
    exact typeWithin_rebranched hmethods _ hframe id

/-- A value that comes from branches: a boxed handler, and a conversion of it. -/
def joined (edges : List ValueId) : Function :=
  { Function.declared 0 "example.com/svc/a" "main" "main" with
    values := [
      ⟨"t0", "*example.com/svc/a.Handler", none, .alloc⟩,
      ⟨"t1", "net/http.Handler", none, .makeInterface 0⟩,
      ⟨"t2", "any", none, .convert 1⟩,
      ⟨"t3", "any", none, .phi edges⟩]
    blocks := [⟨0, [0, 1, 2, 3], []⟩] }

def joinedOnly : Analysis where
  program := ⟨[joined [1, 2]], [], .empty⟩
  settings := .default
  service := "a"

theorem joined_rebranched :
    (Frame.entry (joined [1, 2])).Rebranched (.entry (joined [2, 1, 2])) where
  top := {
    function := {
      params := rfl
      freeVars := rfl
      values := by
        have hedges : ∀ e : ValueId, e ∈ [1, 2] ↔ e ∈ [2, 1, 2] := by
          intro e
          simp only [List.mem_cons, List.not_mem_nil, or_false]
          tauto
        exact .cons ⟨rfl, .same _⟩ (.cons ⟨rfl, .same _⟩ (.cons ⟨rfl, .same _⟩
          (.cons ⟨rfl, .phi hedges⟩ .nil))) }
    depth := rfl
    params := rfl
    freeVars := rfl }
  below := .nil

/-- The type is withheld where the conversion is too deep, and is the same everywhere else. -/
theorem joined_type :
    joinedOnly.typeAt 31 (.entry (joined [1, 2])) 3 = none ∧
      joinedOnly.typeAt 0 (.entry (joined [1, 2])) 3 = some "*example.com/svc/a.Handler" ∧
      joinedOnly.typeAt 30 (.entry (joined [2, 1, 2])) 3 = some "*example.com/svc/a.Handler" := by
  have hdeep : joinedOnly.typeAt 30 (.entry (joined [1, 2])) 3 =
      some "*example.com/svc/a.Handler" := by decide
  obtain ⟨-, htype, -, hbranches⟩ :=
    depth_only_withholds joinedOnly (.entry (joined [1, 2])) 3 (d := 30) (Nat.zero_le 30)
  exact ⟨by decide, htype _ hdeep, (hbranches joinedOnly _ rfl joined_rebranched).trans hdeep⟩

end Analysis

end ServiceGraph
