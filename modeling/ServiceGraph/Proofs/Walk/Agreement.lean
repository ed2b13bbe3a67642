import Mathlib.Data.List.Forall2
import ServiceGraph.Proofs.Walk.Variadic
import ServiceGraph.Walk.Callable

namespace ServiceGraph

namespace Analysis

section Agreement

variable {α β : Type} {f : α → Option β} {same : β → β → Bool} {xs : List α} {b : β}

theorem agreed?_eq_some_iff [DecidableEq β] :
    agreed? f xs = some b ↔ xs ≠ [] ∧ ∀ x ∈ xs, f x = some b := by
  cases xs with
  | nil => simp [agreed?]
  | cons x rest =>
    cases hx : f x with
    | none => simp [agreed?, hx]
    | some c =>
      simp only [agreed?, hx, Option.bind_eq_bind, Option.bind_some, List.all_eq_true,
        decide_eq_true_eq, Option.ite_none_right_eq_some, Option.some.injEq, List.forall_mem_cons]
      constructor
      · rintro ⟨hall, rfl⟩
        exact ⟨List.cons_ne_nil x rest, rfl, hall⟩
      · rintro ⟨-, rfl, hall⟩
        exact ⟨hall, rfl⟩

theorem firstAgreed?_eq_some_iff :
    firstAgreed? same f xs = some b ↔
      ∃ x rest, xs = x :: rest ∧ f x = some b ∧ ∀ y ∈ rest, ∃ c, f y = some c ∧ same b c = true := by
  cases xs with
  | nil => simp [firstAgreed?]
  | cons x rest =>
    cases hx : f x with
    | none => simp [firstAgreed?, hx]
    | some d =>
      simp only [firstAgreed?, hx, Option.bind_eq_bind, Option.bind_some, List.all_eq_true,
        Option.any_eq_true]
      constructor
      · intro h
        split at h
        case isTrue hall =>
          cases h
          exact ⟨x, rest, rfl, hx, hall⟩
        case isFalse => cases h
      · intro ⟨y, others, heq, hy, hall⟩
        cases heq
        rw [hx] at hy
        cases hy
        exact if_pos hall

/-- Forgetting everything but what has to agree, the first answer is as good as any other. -/
theorem map_firstAgreed? {γ : Type} [DecidableEq γ] (key : β → γ) (f : α → Option β) (xs : List α) :
    (firstAgreed? (fun b c => key b == key c) f xs).map key = agreed? (fun x => (f x).map key) xs := by
  ext k
  rw [Option.map_eq_some_iff, agreed?_eq_some_iff]
  constructor
  · intro ⟨b, hb, hk⟩
    obtain ⟨x, rest, rfl, hx, hall⟩ := firstAgreed?_eq_some_iff.1 hb
    refine ⟨List.cons_ne_nil x rest, ?_⟩
    intro y hy
    rcases List.mem_cons.1 hy with rfl | hy
    · rw [hx, Option.map_some, hk]
    · obtain ⟨c, hc, hsame⟩ := hall y hy
      rw [hc, Option.map_some, ← hk, eq_of_beq hsame]
  · intro ⟨hne, hall⟩
    obtain ⟨x, rest, rfl⟩ := List.exists_cons_of_ne_nil hne
    obtain ⟨b, hb, hk⟩ := Option.map_eq_some_iff.1 (hall x List.mem_cons_self)
    refine ⟨b, firstAgreed?_eq_some_iff.2 ⟨x, rest, rfl, hb, ?_⟩, hk⟩
    intro y hy
    obtain ⟨c, hc, hkc⟩ := Option.map_eq_some_iff.1 (hall y (List.mem_cons_of_mem x hy))
    exact ⟨c, hc, beq_iff_eq.2 (hk.trans hkc.symm)⟩

/-- Neither the order of elements nor how often they occur makes a difference. -/
theorem agreed?_eq_of_mem_iff [DecidableEq β] {xs ys : List α} (h : ∀ x, x ∈ xs ↔ x ∈ ys) :
    agreed? f xs = agreed? f ys := by
  ext b
  have hne : xs ≠ [] ↔ ys ≠ [] := by
    simp only [← List.isEmpty_eq_false_iff, List.isEmpty_eq_false_iff_exists_mem, h]
  rw [agreed?_eq_some_iff, agreed?_eq_some_iff, hne]
  apply and_congr Iff.rfl
  exact forall_congr' fun x => by rw [h x]

theorem agreed?_perm [DecidableEq β] {xs ys : List α} (h : xs.Perm ys) :
    agreed? f xs = agreed? f ys :=
  agreed?_eq_of_mem_iff fun _ => h.mem_iff

theorem map_firstAgreed?_perm {γ : Type} [DecidableEq γ] (key : β → γ) {f g : α → Option β}
    {xs ys : List α} (h : xs.Perm ys) (hkey : ∀ x, (g x).map key = (f x).map key) :
    (firstAgreed? (fun b c => key b == key c) g ys).map key =
      (firstAgreed? (fun b c => key b == key c) f xs).map key := by
  have hfun : (fun x => (g x).map key) = fun x => (f x).map key := funext hkey
  rw [map_firstAgreed?, map_firstAgreed?, hfun, agreed?_perm h]

end Agreement

section Depth

variable {inner inner' : Frame → ValueId → Option Callable} {frame : Frame} {id : ValueId}
  {c : Callable}

theorem functionStep_mono (h : ∀ frame id c, inner frame id = some c → inner' frame id = some c)
    (hc : functionStep inner frame id = some c) : functionStep inner' frame id = some c := by
  obtain ⟨v, hv, hkinds⟩ := Option.bind_eq_some_iff.1 hc
  rw [functionStep, hv, Option.bind_eq_bind, Option.bind_some]
  cases hk : v.kind <;> simp only [hk] at hkinds ⊢
  case parameter index | freeVar index =>
    obtain ⟨b, hb, hx⟩ := Option.bind_eq_some_iff.1 hkinds
    rw [hb]
    exact h _ _ _ hx
  case slice array =>
    obtain ⟨es, hes, hfirst⟩ := Option.bind_eq_some_iff.1 hkinds
    obtain ⟨e, he, hx⟩ := Option.bind_eq_some_iff.1 hfirst
    rw [hes, Option.bind_eq_bind, Option.bind_some, he]
    exact h _ _ _ hx
  case phi edges =>
    obtain ⟨x, rest, hedges, hx, hall⟩ := firstAgreed?_eq_some_iff.1 hkinds
    refine firstAgreed?_eq_some_iff.2 ⟨x, rest, hedges, h _ _ _ hx, ?_⟩
    intro y hy
    obtain ⟨d, hd, hsame⟩ := hall y hy
    exact ⟨d, h _ _ _ hd, hsame⟩
  case makeInterface x | convert x => exact h _ _ _ hkinds
  case function func | makeClosure func bindings => exact hkinds
  all_goals cases hkinds

/-- Following longer chains keeps the functions that are found. -/
theorem functionWithin_mono {n m : Nat} (hnm : n ≤ m) (hc : functionWithin n frame id = some c) :
    functionWithin m frame id = some c := by
  induction n generalizing m frame id c with
  | zero => cases hc
  | succ n ih =>
    cases m with
    | zero => omega
    | succ m => exact functionStep_mono (fun _ _ _ => ih (by omega)) hc

end Depth

end Analysis

theorem cases_getElem?_of_forall₂ {α β : Type} {R : α → β → Prop} {xs : List α} {ys : List β}
    (h : List.Forall₂ R xs ys) (k : Nat) :
    xs[k]? = none ∧ ys[k]? = none ∨ ∃ x y, xs[k]? = some x ∧ ys[k]? = some y ∧ R x y := by
  have hlength := h.length_eq
  by_cases hlt : k < xs.length
  · have hlt' : k < ys.length := hlength ▸ hlt
    exact .inr ⟨xs[k], ys[k], List.getElem?_eq_getElem hlt, List.getElem?_eq_getElem hlt',
      h.get hlt hlt'⟩
  · exact .inl ⟨List.getElem?_eq_none (by omega), List.getElem?_eq_none (by omega)⟩

/-- What relates activations of the same depth, and those of two frames, relates those at a level. -/
theorem Frame.related_atLevel {R : Activation → Activation → Prop} {frame frame' : Frame}
    (hR : ∀ {x y}, R x y → y.depth = x.depth)
    (htop : R frame.top frame'.top) (hbelow : List.Forall₂ R frame.below frame'.below)
    (level : Nat) :
    R (frame.atLevel level).top (frame'.atLevel level).top ∧
      List.Forall₂ R (frame.atLevel level).below (frame'.atLevel level).below := by
  have hall : List.Forall₂ R frame.activations frame'.activations := .cons htop hbelow
  have hdepth : frame'.depth = frame.depth := hR htop
  have hdrop := List.forall₂_drop (frame.depth - level) hall
  rw [Frame.atLevel, Frame.atLevel, hdepth]
  generalize frame.activations.drop (frame.depth - level) = l at hdrop ⊢
  generalize frame'.activations.drop (frame.depth - level) = l' at hdrop ⊢
  cases hdrop with
  | nil => exact ⟨htop, hbelow⟩
  | cons hx hrest => exact ⟨hx, hrest⟩

/-- The same kind of value; branches may come in another order. -/
inductive ValueKind.Permuted : ValueKind → ValueKind → Prop where
  | same (kind : ValueKind) : Permuted kind kind
  | phi {edges edges' : List ValueId} : edges.Perm edges' → Permuted (.phi edges) (.phi edges')

theorem ValueKind.Permuted.symm {kind kind' : ValueKind} (h : kind.Permuted kind') :
    kind'.Permuted kind := by
  cases h with
  | same => exact .same kind
  | phi hperm => exact .phi hperm.symm

theorem ValueKind.Permuted.eq_of_ne_phi {kind kind' : ValueKind} (h : kind.Permuted kind')
    (hne : ∀ edges, kind ≠ .phi edges) : kind' = kind := by
  cases h with
  | same => rfl
  | phi => exact absurd rfl (hne _)

namespace Function

variable {f g : Function} {id : ValueId}

/-- The same function up to the order of branches. -/
structure Permuted (f g : Function) : Prop where
  params : g.params = f.params
  freeVars : g.freeVars = f.freeVars
  values : List.Forall₂ (fun v w => v.kind.Permuted w.kind) f.values g.values

namespace Permuted

theorem symm (h : f.Permuted g) : g.Permuted f where
  params := h.params.symm
  freeVars := h.freeVars.symm
  values := (h.values.imp fun _ _ hvw => hvw.symm).flip

theorem cases_at (h : f.Permuted g) (k : Nat) :
    f.values[k]? = none ∧ g.values[k]? = none ∨
      ∃ v w, f.values[k]? = some v ∧ g.values[k]? = some w ∧ v.kind.Permuted w.kind :=
  cases_getElem?_of_forall₂ h.values k

/-- A value that does not come from branches is of the same kind in both functions. -/
theorem kind?_eq (h : f.Permuted g) {kind : ValueKind} (hne : ∀ edges, kind ≠ .phi edges)
    (hf : f.kind? id = some kind) : g.kind? id = some kind := by
  obtain ⟨v, hv, rfl⟩ := kind?_eq_some_iff.1 hf
  rcases h.cases_at id.toNat with ⟨hnone, -⟩ | ⟨v', w, hv', hw, hvw⟩
  · cases hv.symm.trans hnone
  · cases hv.symm.trans hv'
    exact kind?_eq_some_iff.2 ⟨w, hw, hvw.eq_of_ne_phi hne⟩

theorem storesAt (h : f.Permuted g) {array : ValueId} {k : Nat} {i : Int} {v : ValueId}
    (hf : f.StoresAt array k i v) : g.StoresAt array k i v := by
  obtain ⟨store, hk, index, n, ⟨addr, hkind, haddr⟩, hindex, hn⟩ := hf
  rcases h.cases_at k with ⟨hnone, -⟩ | ⟨v', w, hv', hw, hvw⟩
  · cases hk.symm.trans hnone
  · cases hk.symm.trans hv'
    have hkind' : w.kind = .store addr v := by
      rw [hvw.eq_of_ne_phi (by simp [hkind]), hkind]
    exact ⟨w, hw, index, n, ⟨addr, hkind', h.kind?_eq (by simp) haddr⟩,
      h.kind?_eq (by simp) hindex, hn⟩

theorem hasElements (h : f.Permuted g) {array : ValueId} {es : List ValueId}
    (hf : f.HasElements array es) : g.HasElements array es where
  stored k i v hg := hf.stored k i v (h.symm.storesAt hg)
  once := by
    intro j hj
    obtain ⟨k, hk⟩ := hf.once j hj
    refine ⟨k, ?_⟩
    intro k'
    rw [← hk k']
    exact ⟨fun ⟨v, hv⟩ => ⟨v, h.symm.storesAt hv⟩, fun ⟨v, hv⟩ => ⟨v, h.storesAt hv⟩⟩

theorem variadic?_of_eq_some (h : f.Permuted g) {slice : ValueId} {es : List ValueId}
    (hf : f.variadic? slice = some es) : g.variadic? slice = some es := by
  rw [variadic?_eq_some_iff] at hf ⊢
  rcases hf with ⟨array, hslice, hes⟩ | ⟨hnil, hes⟩
  · exact .inl ⟨array, h.kind?_eq (by simp) hslice, h.hasElements hes⟩
  · exact .inr ⟨h.kind?_eq (by simp) hnil, hes⟩

theorem variadic?_eq (h : f.Permuted g) (slice : ValueId) :
    g.variadic? slice = f.variadic? slice := by
  ext es
  exact ⟨h.symm.variadic?_of_eq_some, h.variadic?_of_eq_some⟩

end Permuted

end Function

/-- The same activation up to the order of branches in its function. -/
structure Activation.Permuted (x y : Activation) : Prop where
  function : x.function.Permuted y.function
  depth : y.depth = x.depth
  params : y.params = x.params
  freeVars : y.freeVars = x.freeVars

/-- The same frame up to the order of branches in the active functions. -/
structure Frame.Permuted (frame frame' : Frame) : Prop where
  top : frame.top.Permuted frame'.top
  below : List.Forall₂ Activation.Permuted frame.below frame'.below

namespace Frame.Permuted

variable {frame frame' : Frame}

theorem atLevel (h : frame.Permuted frame') (level : Nat) :
    (frame.atLevel level).Permuted (frame'.atLevel level) := by
  obtain ⟨htop, hbelow⟩ := related_atLevel Activation.Permuted.depth h.top h.below level
  exact ⟨htop, hbelow⟩

theorem param?_eq (h : frame.Permuted frame') (index : UInt64) :
    frame'.param? index = frame.param? index := by
  rw [param?, param?, function, function, h.top.function.params, h.top.params]

theorem freeVar?_eq (h : frame.Permuted frame') (index : UInt64) :
    frame'.freeVar? index = frame.freeVar? index := by
  rw [freeVar?, freeVar?, function, function, h.top.function.freeVars, h.top.freeVars]

end Frame.Permuted

namespace Analysis

section Order

variable {inner inner' : Frame → ValueId → Option Callable} {frame frame' : Frame}

theorem functionStep_permuted
    (hinner : ∀ {frame frame' : Frame}, frame.Permuted frame' → ∀ id,
      (inner' frame' id).map (·.func) = (inner frame id).map (·.func))
    (h : frame.Permuted frame') (id : ValueId) :
    (functionStep inner' frame' id).map (·.func) = (functionStep inner frame id).map (·.func) := by
  have hbound (held : Option Bound) :
      (held.bind fun b => inner' (frame'.atLevel b.level) b.value).map (·.func) =
        (held.bind fun b => inner (frame.atLevel b.level) b.value).map (·.func) := by
    cases held with
    | none => rfl
    | some b => exact hinner (h.atLevel b.level) b.value
  rw [functionStep, functionStep]
  rcases h.top.function.cases_at id.toNat with ⟨hv, hw⟩ | ⟨v, w, hv, hw, hvw⟩
  · rw [Function.value?, Function.value?, Frame.function, Frame.function, hv, hw]
    rfl
  · rw [Function.value?, Function.value?, Frame.function, Frame.function, hv, hw,
      Option.bind_eq_bind, Option.bind_some, Option.bind_eq_bind, Option.bind_some]
    generalize v.kind = kind at hvw ⊢
    generalize w.kind = kind' at hvw ⊢
    cases hvw with
    | phi hperm => exact map_firstAgreed?_perm Callable.func hperm (hinner h)
    | same kind =>
      cases kind with
      | phi edges => exact map_firstAgreed?_perm Callable.func (.refl edges) (hinner h)
      | parameter index =>
        dsimp only
        rw [h.param?_eq]
        exact hbound _
      | freeVar index =>
        dsimp only
        rw [h.freeVar?_eq]
        exact hbound _
      | slice array =>
        dsimp only
        rw [h.top.function.variadic?_eq]
        cases frame.top.function.variadic? id with
        | none => rfl
        | some es =>
          cases es with
          | nil => rfl
          | cons e rest => exact hinner h e
      | makeInterface x | convert x => exact hinner h x
      | _ => rfl

theorem functionWithin_permuted (n : Nat) (h : frame.Permuted frame') (id : ValueId) :
    (functionWithin n frame' id).map (·.func) = (functionWithin n frame id).map (·.func) := by
  induction n generalizing frame frame' id with
  | zero => rfl
  | succ n ih => exact functionStep_permuted (fun h id => ih h id) h id

end Order

theorem functionWithin_phi {n : Nat} {frame : Frame} {id : ValueId} {edges : List ValueId}
    (hk : frame.function.kind? id = some (.phi edges)) :
    functionWithin (n + 1) frame id =
      firstAgreed? (fun b c => b.func == c.func) (functionWithin n frame) edges := by
  obtain ⟨v, hv, hkind⟩ := Function.kind?_eq_some_iff.1 hk
  rw [functionWithin, functionStep, hv, Option.bind_eq_bind, Option.bind_some, hkind]

/-- Branches that lead to a function all lead to the same one. It is found whatever the order of
the branches, here and in all active functions. What it captured is what the first branch says. -/
theorem resolveFunction_phi (frame : Frame) (id : ValueId) (edges : List ValueId)
    (hk : frame.function.kind? id = some (.phi edges)) :
    (∀ c, resolveFunction frame id = some c ↔
      ∃ first rest, edges = first :: rest ∧ functionWithin 32 frame first = some c ∧
        ∀ e ∈ rest, ∃ d, functionWithin 32 frame e = some d ∧ c.func = d.func) ∧
    (∀ c, resolveFunction frame id = some c →
      ∀ e ∈ edges, ∃ d, resolveFunction frame e = some d ∧ c.func = d.func) ∧
    ∀ frame', frame.Permuted frame' →
      (resolveFunction frame' id).map (·.func) = (resolveFunction frame id).map (·.func) := by
  have exact_iff (c : Callable) : resolveFunction frame id = some c ↔
      ∃ first rest, edges = first :: rest ∧ functionWithin 32 frame first = some c ∧
        ∀ e ∈ rest, ∃ d, functionWithin 32 frame e = some d ∧ c.func = d.func := by
    rw [resolveFunction, maxDepth, functionWithin_phi hk, firstAgreed?_eq_some_iff]
    simp only [beq_iff_eq]
  refine ⟨exact_iff, ?_, ?_⟩
  · intro c hc e he
    obtain ⟨first, rest, rfl, hfirst, hrest⟩ := (exact_iff c).1 hc
    rcases List.mem_cons.1 he with rfl | he
    · exact ⟨c, functionWithin_mono (by decide) hfirst, rfl⟩
    · obtain ⟨d, hd, hfunc⟩ := hrest e he
      exact ⟨d, functionWithin_mono (by decide) hd, hfunc⟩
  · intro frame' h
    exact functionWithin_permuted maxDepth h id

/-- A function that makes a closure of one function in each of two branches, with different
locations, and calls what the branches lead to. -/
def twoClosures (edges : List ValueId) : Function :=
  { Function.declared 2 "example.com/svc/a" "main" "main" with
    values := [
      ⟨"c0", "string", none, .const (.string "http://b/")⟩,
      ⟨"c1", "string", none, .const (.string "http://c/")⟩,
      ⟨"flag", "*bool", none, .globalVar "flag"⟩,
      ⟨"", "", none, .branch 2⟩,
      ⟨"t0", "func()", none, .makeClosure 1 [0]⟩,
      ⟨"", "", none, .jump⟩,
      ⟨"t1", "func()", none, .makeClosure 1 [1]⟩,
      ⟨"", "", none, .jump⟩,
      ⟨"t2", "func()", none, .phi edges⟩,
      ⟨"t3", "", some ⟨"main.go", 9⟩, .call ⟨.dynamic 8, []⟩⟩,
      ⟨"", "", none, .ret []⟩]
    blocks := [⟨0, [3], [1, 2]⟩, ⟨1, [4, 5], [3]⟩, ⟨2, [6, 7], [3]⟩, ⟨3, [8, 9, 10], []⟩] }

theorem twoClosures_lead_to_function :
    (Frame.entry (twoClosures [4, 6])).function.kind? 8 = some (.phi [4, 6]) ∧
      ∀ e ∈ [4, 6], ∃ d, resolveFunction (.entry (twoClosures [4, 6])) e = some d ∧ 1 = d.func := by
  have hphi : (Frame.entry (twoClosures [4, 6])).function.kind? 8 = some (.phi [4, 6]) := rfl
  have hfirst : resolveFunction (.entry (twoClosures [4, 6])) 8 = some ⟨1, [⟨0, 0⟩]⟩ := by rfl
  exact ⟨hphi, (resolveFunction_phi _ 8 [4, 6] hphi).2.1 _ hfirst⟩

/-- The branches capture different locations, and the one that comes first is taken. -/
theorem twoClosures_disagree :
    resolveFunction (.entry (twoClosures [4, 6])) 4 = some ⟨1, [⟨0, 0⟩]⟩ ∧
      resolveFunction (.entry (twoClosures [4, 6])) 6 = some ⟨1, [⟨0, 1⟩]⟩ ∧
      resolveFunction (.entry (twoClosures [4, 6])) 8 = some ⟨1, [⟨0, 0⟩]⟩ ∧
      resolveFunction (.entry (twoClosures [6, 4])) 8 = some ⟨1, [⟨0, 1⟩]⟩ := by
  decide

end Analysis

end ServiceGraph
