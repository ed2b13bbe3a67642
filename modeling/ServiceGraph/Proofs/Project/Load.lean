import Mathlib.Data.List.Forall2
import ServiceGraph.Project.Load
import ServiceGraph.Proofs.Walk.Nesting
import ServiceGraph.Proofs.Walk.Repetition

namespace ServiceGraph

namespace Program

variable {p q : Program} {service : String}

/-- Some package of this path has errors. -/
def Errored (p : Program) (path : String) : Prop :=
  ∃ pkg ∈ p.packages, pkg.path = path ∧ pkg.errors ≠ []

/-- There are packages, and all of them have errors. -/
def NoneUsable (p : Program) : Prop := p.packages ≠ [] ∧ ∀ pkg ∈ p.packages, pkg.errors ≠ []

/-- What loading leaves of a function `f`. -/
structure Leaves (p : Program) (f g : Function) : Prop where
  id : g.id = f.id
  signature : g.signature = f.signature
  params : g.params = f.params
  freeVars : g.freeVars = f.freeVars
  position : g.position = f.position
  emptied : p.Errored f.packagePath → g.values = [] ∧ g.blocks = []
  unchanged : ¬ p.Errored f.packagePath → g.values = f.values ∧ g.blocks = f.blocks

/-- The program `q` is `p` without what belongs to packages with errors. The entry stands where it
stood, and is the same function. -/
structure Trims (p q : Program) : Prop where
  functions : List.Forall₂ p.Leaves p.functions q.functions
  packages : q.packages = p.packages.filter fun pkg => pkg.errors.isEmpty
  entry : ∃ i main, p.functions.findIdx? p.isEntry = some i ∧ p.main? = some main ∧
    p.functions[i]? = some main ∧ q.functions.findIdx? q.isEntry = some i ∧
    q.main? = some main ∧ q.functions[i]? = some main

theorem isErrored_iff {path : String} : p.isErrored path = true ↔ p.Errored path := by
  simp [isErrored, Errored]

theorem noneUsable_iff :
    (!p.packages.isEmpty && p.usablePackages.isEmpty) = true ↔ p.NoneUsable := by
  simp [NoneUsable, usablePackages, List.filter_eq_nil_iff]

/-- A function without its body if its package has errors. -/
def trim (p : Program) (f : Function) : Function :=
  if p.isErrored f.packagePath then { f with blocks := [], values := [] } else f

theorem functions_withoutErrors (p : Program) :
    p.withoutErrors.functions = p.functions.map p.trim := rfl

theorem leaves_trim (p : Program) (f : Function) : p.Leaves f (p.trim f) := by
  unfold trim
  split
  next h =>
    have herr := isErrored_iff.1 h
    exact ⟨rfl, rfl, rfl, rfl, rfl, fun _ => ⟨rfl, rfl⟩, fun hnot => absurd herr hnot⟩
  next h =>
    have hnot : ¬ p.Errored f.packagePath := fun herr => h (isErrored_iff.2 herr)
    exact ⟨rfl, rfl, rfl, rfl, rfl, fun herr => absurd herr hnot, fun _ => ⟨rfl, rfl⟩⟩

theorem isErrored_withoutErrors (p : Program) (path : String) :
    p.withoutErrors.isErrored path = false := by
  rw [← Bool.not_eq_true, isErrored_iff]
  intro ⟨pkg, hpkg, _, herrors⟩
  have hempty := (List.mem_filter.1 hpkg).2
  exact herrors (List.isEmpty_iff.1 hempty)

/-- Only functions of packages without errors keep a body. -/
theorem not_errored_of_trim {f : Function} (h : (p.trim f).blocks ≠ []) :
    ¬ p.Errored (p.trim f).packagePath ∧ p.trim f = f := by
  unfold trim at h ⊢
  split at h
  next => exact absurd rfl h
  next hnot =>
    rw [if_neg hnot]
    exact ⟨fun herr => hnot (isErrored_iff.2 herr), rfl⟩

theorem isEntry_trim (p : Program) (f : Function) :
    p.withoutErrors.isEntry (p.trim f) = p.isEntry f := by
  rw [isEntry, isEntry, p.isErrored_withoutErrors, trim]
  cases herr : p.isErrored f.packagePath with
  | true => simp [Function.isExternal]
  | false => simp

theorem findIdx?_isEntry_withoutErrors (p : Program) :
    p.withoutErrors.functions.findIdx? p.withoutErrors.isEntry =
      p.functions.findIdx? p.isEntry := by
  rw [functions_withoutErrors, List.findIdx?_map]
  exact congrArg (List.findIdx? · p.functions) (funext p.isEntry_trim)

/-- The entry is a function that keeps its body. -/
theorem trim_entry {main : Function} (h : p.isEntry main = true) : p.trim main = main := by
  have herr : p.isErrored main.packagePath = false := by
    simp only [isEntry, Bool.and_eq_true, Bool.not_eq_true'] at h
    exact h.2
  rw [trim, if_neg (by simp [herr])]

theorem main?_withoutErrors (p : Program) : p.withoutErrors.main? = p.main? := by
  have hfind : p.withoutErrors.main? = p.main?.map p.trim := by
    rw [main?, main?, functions_withoutErrors, List.find?_map]
    exact congrArg (fun entry => (p.functions.find? entry).map p.trim) (funext p.isEntry_trim)
  rw [hfind]
  cases hmain : p.main? with
  | none => rfl
  | some main => rw [Option.map_some, trim_entry (List.find?_some hmain)]

theorem withoutErrors_withoutErrors (p : Program) :
    p.withoutErrors.withoutErrors = p.withoutErrors := by
  have hpackages : p.withoutErrors.usablePackages = p.withoutErrors.packages :=
    List.filter_filter.trans (List.filter_congr fun _ _ => Bool.and_self _)
  have hfunctions : p.withoutErrors.functions.map p.withoutErrors.trim =
      p.withoutErrors.functions := by
    apply List.map_id''
    intro f
    rw [trim, if_neg (by simp [p.isErrored_withoutErrors])]
  rw [withoutErrors]
  exact congrArg₂ (fun packages functions => Program.mk functions packages p.methodSets)
    hpackages hfunctions

theorem exists_position_of_main? {main : Function} (h : p.main? = some main) :
    ∃ i, p.functions.findIdx? p.isEntry = some i ∧ p.functions[i]? = some main := by
  rw [main?, List.find?_eq_bind_findIdx?_getElem?] at h
  exact Option.bind_eq_some_iff.1 h

theorem trims_withoutErrors {main : Function} (h : p.main? = some main) :
    p.Trims p.withoutErrors where
  functions := by
    rw [functions_withoutErrors, List.forall₂_map_right_iff, List.forall₂_same]
    intro f _
    exact p.leaves_trim f
  packages := rfl
  entry := by
    have hmain : p.withoutErrors.main? = some main := p.main?_withoutErrors.trans h
    obtain ⟨i, hi, hget⟩ := exists_position_of_main? h
    obtain ⟨j, hj, hget'⟩ := exists_position_of_main? hmain
    rw [findIdx?_isEntry_withoutErrors, hi, Option.some.injEq] at hj
    subst hj
    exact ⟨i, main, hi, h, hget, p.findIdx?_isEntry_withoutErrors.trans hi, hmain, hget'⟩

/-- The three ways in which loading can end. -/
theorem usable_cases (p : Program) (service : String) :
    (p.NoneUsable ∧ p.usable service = .error (.noUsablePackages service)) ∨
    (¬ p.NoneUsable ∧ p.main? = none ∧
      ∃ package, p.usable service = .error (.noEntryPoint package)) ∨
    (¬ p.NoneUsable ∧ ∃ main, p.main? = some main ∧
      p.usable service = .ok p.withoutErrors) := by
  by_cases hnone : p.NoneUsable
  · left
    exact ⟨hnone, by rw [usable, if_pos (noneUsable_iff.2 hnone)]⟩
  · right
    have hsome := mt noneUsable_iff.1 hnone
    cases hmain : p.main? with
    | none =>
      left
      refine ⟨hnone, rfl, (p.usablePackages.head?.map (·.path)).getD service, ?_⟩
      rw [usable, if_neg hsome, hmain]
      rfl
    | some main =>
      right
      refine ⟨hnone, main, rfl, ?_⟩
      rw [usable, if_neg hsome, hmain]
      rfl

theorem usable_eq_noUsablePackages_iff :
    p.usable service = .error (.noUsablePackages service) ↔ p.NoneUsable := by
  obtain ⟨hnone, h⟩ | ⟨hsome, _, package, h⟩ | ⟨hsome, _, _, h⟩ := p.usable_cases service
  · simp [h, hnone]
  · simp [h, hsome]
  · simp [h, hsome]

theorem usable_eq_noEntryPoint_iff :
    (∃ package, p.usable service = .error (.noEntryPoint package)) ↔
      ¬ p.NoneUsable ∧ p.main? = none := by
  obtain ⟨hnone, h⟩ | ⟨hsome, hmain, package, h⟩ | ⟨hsome, main, hmain, h⟩ := p.usable_cases service
  · simp [h, hnone]
  · simp [h, hsome, hmain]
  · simp [h, hmain]

theorem exists_usable_iff :
    (∃ q, p.usable service = .ok q) ↔ ¬ p.NoneUsable ∧ p.main? ≠ none := by
  obtain ⟨hnone, h⟩ | ⟨_, hmain, package, h⟩ | ⟨hsome, main, hmain, h⟩ := p.usable_cases service
  · simp [h, hnone]
  · simp [h, hmain]
  · simp [h, hsome, hmain]

theorem usable_eq_ok (h : p.usable service = .ok q) :
    (∃ main, p.main? = some main) ∧ q = p.withoutErrors := by
  obtain ⟨_, h'⟩ | ⟨_, _, package, h'⟩ | ⟨_, main, hmain, h'⟩ := p.usable_cases service
  · rw [h] at h'
    cases h'
  · rw [h] at h'
    cases h'
  · rw [h] at h'
    cases h'
    exact ⟨⟨main, hmain⟩, rfl⟩

/-- Loading what was loaded changes nothing. -/
theorem usable_withoutErrors {main : Function} (hmain : p.main? = some main) (service : String) :
    p.withoutErrors.usable service = .ok p.withoutErrors := by
  have hsome : ¬ p.withoutErrors.NoneUsable := by
    intro ⟨hne, hall⟩
    obtain ⟨pkg, hpkg⟩ := List.exists_mem_of_ne_nil _ hne
    have hempty := (List.mem_filter.1 hpkg).2
    exact hall pkg hpkg (List.isEmpty_iff.1 hempty)
  have hmain' := p.main?_withoutErrors.trans hmain
  obtain ⟨hnone, _⟩ | ⟨_, hno, _⟩ | ⟨_, _, _, h⟩ := p.withoutErrors.usable_cases service
  · exact absurd hnone hsome
  · rw [hmain'] at hno
    cases hno
  · rw [h, withoutErrors_withoutErrors]

end Program

namespace Analysis

/-- The walk only comes to functions with a body. -/
theorem Reached.blocks_ne_nil {a : Analysis} {point : Point} (h : a.Reached point) :
    ∀ frame ∈ point.frames, frame.function.blocks ≠ [] := by
  induction h with
  | entry hmain =>
    intro frame hframe
    rw [List.mem_singleton.1 hframe]
    have hentry := List.find?_some hmain
    simp only [Program.isEntry, Function.isExternal, Bool.and_eq_true, Bool.not_eq_true',
      List.isEmpty_eq_false_iff] at hentry
    exact hentry.1.2
  | @invoked point _ hreached hinvokes ih =>
    have hnested := hreached.nested
    cases hinvokes with
    | child _ _ _ hchild =>
      have hpath := hnested.onPath.cons point.block
      have hfirst := first_mem_cons hnested.first
      have hopens := (a.child?_eq_some_iff hpath hfirst _ _).1 hchild
      intro frame hframe
      rcases List.mem_cons.1 hframe with heq | hbelow
      · rw [heq]
        exact hopens.enterable.body
      · exact ih frame hbelow
    | succ => exact ih

end Analysis

namespace Program

theorem not_errored_of_mem {p : Program} {f : Function} (hf : f ∈ p.withoutErrors.functions)
    (hbody : f.blocks ≠ []) : ¬ p.Errored f.packagePath := by
  rw [functions_withoutErrors] at hf
  obtain ⟨g, _, hg⟩ := List.mem_map.1 hf
  subst hg
  exact (not_errored_of_trim hbody).1

/-- Where an instruction is listed there is a body. -/
theorem not_errored_of_lists {p : Program} {f : Function} (hf : f ∈ p.withoutErrors.functions)
    {id : ValueId} (h : f.Lists id) : ¬ p.Errored f.packagePath := by
  apply not_errored_of_mem hf
  obtain ⟨i, b, hb, _⟩ := h
  exact List.ne_nil_of_mem (List.mem_of_getElem? hb.block?_eq)

/-- A program that can be used is trimmed, loading it again changes nothing, and no walk comes to a
function of a package that had errors, so nothing is found there. A program cannot be used exactly if
all of its packages have errors, or else if it has no entry, and can be used otherwise. -/
theorem usable_trims (p : Program) (service : String) :
    (∀ q, p.usable service = .ok q →
      p.Trims q ∧ (∀ other, q.usable other = .ok q) ∧
      ∀ settings walked,
        (∀ point, Analysis.Reached ⟨q, settings, walked⟩ point →
          ∀ frame ∈ point.frames, ¬ p.Errored frame.function.packagePath) ∧
        ∀ found, Analysis.walk ⟨q, settings, walked⟩ = some found →
          ∀ kind, ∀ t ∈ found.targets kind, ∃ frame id v,
            Analysis.Active ⟨q, settings, walked⟩ frame ∧ frame.function.Lists id ∧
            Analysis.Reports ⟨q, settings, walked⟩ frame id v ∧
            Analysis.finding? ⟨q, settings, walked⟩ v = some ⟨kind, t⟩ ∧
            ¬ p.Errored frame.function.packagePath) ∧
    (p.usable service = .error (.noUsablePackages service) ↔
      p.packages ≠ [] ∧ ∀ pkg ∈ p.packages, pkg.errors ≠ []) ∧
    ((∃ package, p.usable service = .error (.noEntryPoint package)) ↔
      ¬ (p.packages ≠ [] ∧ ∀ pkg ∈ p.packages, pkg.errors ≠ []) ∧ p.main? = none) ∧
    ((∃ q, p.usable service = .ok q) ↔
      ¬ (p.packages ≠ [] ∧ ∀ pkg ∈ p.packages, pkg.errors ≠ []) ∧ p.main? ≠ none) := by
  refine ⟨?_, usable_eq_noUsablePackages_iff, usable_eq_noEntryPoint_iff, exists_usable_iff⟩
  intro q hq
  obtain ⟨⟨main, hmain⟩, heq⟩ := usable_eq_ok hq
  subst heq
  refine ⟨trims_withoutErrors hmain, usable_withoutErrors hmain, ?_⟩
  intro settings walked
  constructor
  · intro point hpoint frame hframe
    have hf := hpoint.nested.mem_functions frame hframe
    exact not_errored_of_mem hf (hpoint.blocks_ne_nil frame hframe)
  · intro found hfound kind t ht
    obtain ⟨v, hv, hfinding⟩ := Analysis.exists_visit_of_mem hfound ht
    obtain ⟨frame, id, hactive, hlists, hrep⟩ := (Analysis.mem_visits_iff _ v).1 hv
    have herrored := not_errored_of_lists hactive.fresh.mem_functions hlists
    exact ⟨frame, id, v, hactive, hlists, hrep, hfinding, herrored⟩

end Program

end ServiceGraph
