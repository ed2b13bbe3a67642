import ServiceGraph.Program.Build
import ServiceGraph.Proofs.Program.Filling

namespace ServiceGraph

/-- A function that can be put into its place among `count` functions. -/
structure Function.FitsAt (f : Function) (func : FunctionId) (count : Nat) : Prop where
  id_eq : f.id = func
  inRange : func.toNat < count
  body : f.blocks ≠ []
  wellBuilt : f.WellBuilt

theorem Function.FitsAt.changes {f g : Function} {func : FunctionId} {count : Nat}
    (h : f.FitsAt func count) (hg : Relation.ReflTransGen Change f g) : g.FitsAt func count := by
  induction hg with
  | refl => exact h
  | tail _ hchange ih =>
    exact ⟨hchange.id_eq.trans ih.id_eq, ih.inRange, hchange.blocks_ne_nil ih.body,
      ih.wellBuilt.change hchange⟩

/-- What holds of every program that is built step by step. -/
structure Program.WellBuilt (p : Program) : Prop where
  id_eq : ∀ (i : Nat) (f : Function), p.functions[i]? = some f → f.id.toNat = i
  paths : (p.packages.map (·.path)).Nodup
  functions : ∀ f ∈ p.functions, f.WellBuilt

/-- A function of the program has a body. -/
def Program.HasBody (p : Program) (func : FunctionId) : Prop :=
  ∃ f, p.function? func = some f ∧ f.blocks ≠ []

section Bodies

variable {p q : Program} {f : Function}

theorem Program.hasBody_append_iff (hq : q.functions = p.functions ++ [f]) (hf : f.blocks = [])
    (func : FunctionId) : q.HasBody func ↔ p.HasBody func := by
  simp only [HasBody, function?, hq, getElem?_append_singleton_eq_some_iff]
  constructor
  · rintro ⟨g, hg | ⟨-, rfl⟩, hbody⟩
    · exact ⟨g, hg, hbody⟩
    · exact absurd hf hbody
  · exact fun ⟨g, hg, hbody⟩ => ⟨g, .inl hg, hbody⟩

theorem Program.hasBody_set_iff {i : FunctionId} (hq : q.functions = p.functions.set i.toNat f)
    (hi : i.toNat < p.functions.length) (hf : f.blocks ≠ []) (func : FunctionId) :
    q.HasBody func ↔ p.HasBody func ∨ i = func := by
  simp only [HasBody, function?, hq]
  by_cases heq : i = func
  · subst heq
    simp [hi, hf]
  · have hne : i.toNat ≠ func.toNat := fun h => heq (UInt32.toNat_inj.1 h)
    simp [heq, List.getElem?_set_ne hne]

end Bodies

namespace Build

variable {b b' : Build} {f : Function} {func : FunctionId}

/-- What holds at every point of a construction. -/
structure Sound (b : Build) : Prop where
  program : b.program.WellBuilt
  drafts : ∀ e ∈ b.drafts, e.2.function.FitsAt e.1 b.program.functions.length

/-- A function that is declared or external: it has neither values nor blocks. -/
structure Bodiless (f : Function) : Prop where
  params : f.params = []
  freeVars : f.freeVars = []
  values : f.values = []
  blocks : f.blocks = []

theorem Bodiless.wellBuilt (h : Bodiless f) : f.WellBuilt := by
  have hlists (j : Nat) (id : ValueId) : ¬ f.ListsAt j id := by simp [Function.ListsAt, h.blocks]
  refine ⟨⟨fun j id hid => absurd hid (hlists j id), fun i _ id hid => absurd hid (hlists i id),
    ?_⟩, ?_, ?_, ⟨?_, ?_⟩, ⟨?_, ?_⟩⟩
  · simp [Function.value?, h.values]
  · simp [h.blocks]
  · simp [h.blocks]
  · simp [h.params]
  · simp [h.params]
  · simp [h.freeVars]
  · simp [h.freeVars]

/-- The function that a draft starts from. -/
theorem Bodiless.fitsAt_ofFunction (h : Bodiless f) {count : Nat} (hcount : f.id.toNat < count)
    (receiver : Option String) :
    (Draft.ofFunction { f with receiver }).function.FitsAt f.id count where
  id_eq := rfl
  inRange := hcount
  body := by simp [Draft.ofFunction]
  wellBuilt := by
    have hbodiless : Bodiless { f with receiver } := ⟨h.params, h.freeVars, h.values, h.blocks⟩
    exact hbodiless.wellBuilt.block (by simp [h.blocks])

theorem addFunction_eq_ok {package packageName name : String} {receiver : Option String}
    (h : b.addFunction package packageName name receiver = .ok (b', f)) :
    f.id.toNat = b.program.functions.length ∧ Bodiless f ∧
      b' = { b with program := { b.program with functions := b.program.functions ++ [f] } } := by
  obtain ⟨id, hid, hb⟩ := bind_eq_ok h
  cases hb
  exact ⟨toNat_freshId hid, ⟨rfl, rfl, rfl, rfl⟩, rfl⟩

theorem functions_registerPackage (b : Build) (path name : String) :
    (b.registerPackage path name).program.functions = b.program.functions := by
  unfold registerPackage
  split <;> rfl

theorem drafts_registerPackage (b : Build) (path name : String) :
    (b.registerPackage path name).drafts = b.drafts := by
  unfold registerPackage
  split <;> rfl

theorem nodup_registerPackage {path name : String} (h : (b.program.packages.map (·.path)).Nodup) :
    ((b.registerPackage path name).program.packages.map (·.path)).Nodup := by
  unfold registerPackage
  split
  case isTrue => exact h
  case isFalse hnew =>
    rw [List.map_append]
    refine List.nodup_append.2 ⟨h, List.pairwise_singleton _ _, ?_⟩
    rintro _ hp _ hpath rfl
    obtain ⟨p, hp, heq⟩ := List.mem_map.1 hp
    have hsame : p.path = path := heq.trans (List.mem_singleton.1 hpath)
    exact hnew (List.any_eq_true.2 ⟨p, hp, beq_iff_eq.2 hsame⟩)

theorem paths_setErrors (packages : List Package) (path : String) (errors : List String) :
    (setErrors packages path errors).map (·.path) = packages.map (·.path) := by
  induction packages with
  | nil => rfl
  | cons p rest ih =>
    rw [setErrors]
    split
    · rfl
    · rw [List.map_cons, ih, List.map_cons]

theorem Sound.addFunction (h : b.Sound) (hid : f.id.toNat = b.program.functions.length)
    (hf : Bodiless f) :
    Sound { b with program := { b.program with functions := b.program.functions ++ [f] } } where
  program := {
    id_eq i g hg := by
      rcases getElem?_append_singleton_eq_some_iff.1 hg with hg | ⟨rfl, rfl⟩
      · exact h.program.id_eq i g hg
      · exact hid
    paths := h.program.paths
    functions g hg := by
      rcases List.mem_append.1 hg with hg | hg
      · exact h.program.functions g hg
      · rw [List.mem_singleton.1 hg]
        exact hf.wellBuilt }
  drafts e he := by
    have hfits := h.drafts e he
    exact { hfits with inRange := Nat.lt_of_lt_of_le hfits.inRange (by simp) }

theorem Sound.registerPackage (h : b.Sound) (path name : String) :
    (b.registerPackage path name).Sound where
  program := {
    id_eq := by
      rw [functions_registerPackage]
      exact h.program.id_eq
    paths := nodup_registerPackage h.program.paths
    functions := by
      rw [functions_registerPackage]
      exact h.program.functions }
  drafts := by
    rw [functions_registerPackage, drafts_registerPackage]
    exact h.drafts

theorem Sound.declare (h : b.Sound) {package packageName name : String} {receiver : Option String}
    (hb : b.declare package packageName name receiver = .ok (b', func)) : b'.Sound := by
  obtain ⟨⟨b₁, f⟩, hadd, hrest⟩ := bind_eq_ok hb
  cases hrest
  obtain ⟨hid, hf, rfl⟩ := addFunction_eq_ok hadd
  have hregistered := (h.addFunction hid hf).registerPackage package packageName
  refine ⟨hregistered.program, fun e he => ?_⟩
  rcases List.mem_cons.1 he with rfl | he
  · apply hf.fitsAt_ofFunction
    rw [functions_registerPackage, hid]
    simp
  · exact hregistered.drafts e he

theorem functions_declare {package packageName name : String} {receiver : Option String}
    (hb : b.declare package packageName name receiver = .ok (b', func)) :
    ∃ f, Bodiless f ∧ b'.program.functions = b.program.functions ++ [f] := by
  obtain ⟨⟨b₁, f⟩, hadd, hrest⟩ := bind_eq_ok hb
  cases hrest
  obtain ⟨-, hf, rfl⟩ := addFunction_eq_ok hadd
  exact ⟨f, hf, functions_registerPackage _ _ _⟩

theorem draft?_eq_ok {d : Draft} (h : b.draft? func = .ok d) : (func, d) ∈ b.drafts := by
  unfold draft? at h
  cases hlookup : b.drafts.lookup func with
  | none =>
    rw [hlookup] at h
    cases h
  | some e =>
    rw [hlookup] at h
    cases h
    obtain ⟨l, l', heq, -⟩ := List.lookup_eq_some_iff.1 hlookup
    rw [heq]
    exact List.mem_append_right _ List.mem_cons_self

theorem define_eq_ok (h : b.define func = .ok b') :
    ∃ d, (func, d) ∈ b.drafts ∧ b' = {
      program := { b.program with functions := b.program.functions.set func.toNat d.function }
      drafts := b.drafts.filter (·.1 != func) } := by
  obtain ⟨d, hd, hb⟩ := bind_eq_ok h
  cases hb
  exact ⟨d, draft?_eq_ok hd, rfl⟩

theorem Sound.define (h : b.Sound) (hb : b.define func = .ok b') : b'.Sound := by
  obtain ⟨d, hd, rfl⟩ := define_eq_ok hb
  have hfits := h.drafts _ hd
  refine ⟨⟨fun i f hf => ?_, h.program.paths, fun f hf => ?_⟩, fun e he => ?_⟩
  · rw [List.getElem?_set] at hf
    split at hf
    case isTrue heq =>
      rw [if_pos hfits.inRange] at hf
      cases hf
      rw [hfits.id_eq, heq]
    case isFalse => exact h.program.id_eq i f hf
  · rcases List.mem_or_eq_of_mem_set hf with hf | rfl
    · exact h.program.functions f hf
    · exact hfits.wellBuilt
  · have hfits := h.drafts e (List.mem_filter.1 he).1
    exact { hfits with inRange := by simpa using hfits.inRange }

theorem Sound.fill (h : b.Sound) {d d' : Draft} (hd : b.draft? func = .ok d)
    (hchanges : d.Changes d') :
    Sound { b with drafts := b.drafts.map fun e => if e.1 == func then (func, d') else e } where
  program := h.program
  drafts e' he' := by
    obtain ⟨e, he, rfl⟩ := List.mem_map.1 he'
    split
    · exact (h.drafts _ (draft?_eq_ok hd)).changes hchanges
    · exact h.drafts e he

theorem Sound.step (h : b.Sound) {s : BuildStep} {made : Option UInt32}
    (hb : b.step s = .ok (b', made)) : b'.Sound := by
  cases s with
  | external package name | externalMethod receiver package name =>
    obtain ⟨⟨b₁, f⟩, hadd, hrest⟩ := bind_eq_ok hb
    cases hrest
    obtain ⟨hid, hf, rfl⟩ := addFunction_eq_ok hadd
    exact h.addFunction hid hf
  | declare package packageName name | declareMethod receiver package packageName name =>
    obtain ⟨⟨b₁, id⟩, hdeclare, hrest⟩ := bind_eq_ok hb
    cases hrest
    exact h.declare hdeclare
  | define func =>
    obtain ⟨b₁, hdefine, hrest⟩ := bind_eq_ok hb
    cases hrest
    exact h.define hdefine
  | addMethod type method func =>
    cases hb
    exact ⟨⟨h.program.id_eq, h.program.paths, h.program.functions⟩, h.drafts⟩
  | packageErrors package errors =>
    cases hb
    have hregistered := h.registerPackage package (lastSegment package)
    refine ⟨⟨hregistered.program.id_eq, ?_, hregistered.program.functions⟩, hregistered.drafts⟩
    rw [paths_setErrors]
    exact hregistered.program.paths
  | fill func step =>
    obtain ⟨d, hd, hstep⟩ := bind_eq_ok hb
    obtain ⟨⟨d', m⟩, hstep, hrest⟩ := bind_eq_ok hstep
    cases hrest
    exact h.fill hd (Draft.changes_step hstep)

/-- A function has a body once it is defined, and not before. -/
theorem Sound.hasBody_step_iff (h : b.Sound) {s : BuildStep} {made : Option UInt32}
    (hb : b.step s = .ok (b', made)) (func : FunctionId) :
    b'.program.HasBody func ↔ b.program.HasBody func ∨ s = .define func := by
  cases s with
  | external package name | externalMethod receiver package name =>
    obtain ⟨⟨b₁, f⟩, hadd, hrest⟩ := bind_eq_ok hb
    cases hrest
    obtain ⟨-, hf, rfl⟩ := addFunction_eq_ok hadd
    simpa using Program.hasBody_append_iff rfl hf.blocks func
  | declare package packageName name | declareMethod receiver package packageName name =>
    obtain ⟨⟨b₁, id⟩, hdeclare, hrest⟩ := bind_eq_ok hb
    cases hrest
    obtain ⟨f, hf, hfunctions⟩ := functions_declare hdeclare
    simpa using Program.hasBody_append_iff hfunctions hf.blocks func
  | define func' =>
    obtain ⟨b₁, hdefine, hrest⟩ := bind_eq_ok hb
    cases hrest
    obtain ⟨d, hd, rfl⟩ := define_eq_ok hdefine
    have hfits := h.drafts _ hd
    simpa using Program.hasBody_set_iff rfl hfits.inRange hfits.body func
  | addMethod type method func' =>
    cases hb
    simp [Program.HasBody, Program.function?]
  | packageErrors package errors =>
    cases hb
    simp [Program.HasBody, Program.function?, functions_registerPackage]
  | fill func' step =>
    obtain ⟨d, hd, hstep⟩ := bind_eq_ok hb
    obtain ⟨⟨d', m⟩, hstep, hrest⟩ := bind_eq_ok hstep
    cases hrest
    simp

theorem run_cons_eq_ok {s : BuildStep} {rest : List BuildStep} {made : List (Option UInt32)}
    (h : b.run (s :: rest) = .ok (b', made)) :
    ∃ b₁ m more, b.step s = .ok (b₁, m) ∧ b₁.run rest = .ok (b', more) := by
  obtain ⟨⟨b₁, m⟩, hstep, hrest⟩ := bind_eq_ok h
  obtain ⟨⟨b₂, more⟩, hrun, hb⟩ := bind_eq_ok hrest
  cases hb
  exact ⟨b₁, m, more, hstep, hrun⟩

theorem Sound.run (h : b.Sound) {steps : List BuildStep} {made : List (Option UInt32)}
    (hb : b.run steps = .ok (b', made)) :
    b'.Sound ∧ ∀ func, b'.program.HasBody func ↔ b.program.HasBody func ∨ .define func ∈ steps := by
  induction steps generalizing b made with
  | nil =>
    cases hb
    exact ⟨h, fun func => by simp⟩
  | cons s rest ih =>
    obtain ⟨b₁, m, more, hstep, hrest⟩ := run_cons_eq_ok hb
    obtain ⟨hsound, hbodies⟩ := ih (h.step hstep) hrest
    refine ⟨hsound, fun func => ?_⟩
    rw [hbodies, h.hasBody_step_iff hstep, List.mem_cons, or_assoc, eq_comm (a := s)]

theorem sound_empty : empty.Sound where
  program := ⟨by simp [empty], by simp [empty], by simp [empty]⟩
  drafts := by simp [empty]

/-- Whatever the steps are and however they are interleaved, the program that they build is well
built. The functions with a body are those that were defined. -/
theorem run_wellBuilt {steps : List BuildStep} {made : List (Option UInt32)}
    (h : empty.run steps = .ok (b, made)) :
    b.program.WellBuilt ∧ ∀ func, b.program.HasBody func ↔ .define func ∈ steps := by
  obtain ⟨hsound, hbodies⟩ := sound_empty.run h
  refine ⟨hsound.program, fun func => (hbodies func).trans ?_⟩
  simp [Program.HasBody, Program.function?, empty]

/-- Two functions that are filled in alternately, of which the caller is defined first, and a method
that is never defined. -/
def interleaved : List BuildStep := [
  .external "net/http" "Get",
  .declare "example.com/svc/a" "main" "main",
  .declare "example.com/svc/a" "main" "fetch",
  .declareMethod "*Caller" "example.com/svc/b" "b" "Call",
  .fill 2 (.param "url" "string"),
  .fill 1 (.constStr "http://b/"),
  .fill 2 .newBlock,
  .fill 1 (.variadic [0]),
  .fill 2 (.jump 1),
  .fill 1 (.call 2 [0] 5),
  .fill 2 (.switchTo 1),
  .fill 1 .ret,
  .define 1,
  .fill 2 (.call 0 [0] 21),
  .fill 3 (.freeVar "host" "string"),
  .fill 2 .ret,
  .define 2]

theorem interleaved_wellBuilt :
    ∃ b made, empty.run interleaved = .ok (b, made) ∧ b.program.functions.length = 4 ∧
      b.program.WellBuilt ∧ b.program.HasBody 2 ∧ ¬ b.program.HasBody 3 := by
  obtain ⟨b, made, h, hlength⟩ : ∃ b made, empty.run interleaved = .ok (b, made) ∧
      b.program.functions.length = 4 := ⟨_, _, rfl, rfl⟩
  obtain ⟨hbuilt, hbodies⟩ := run_wellBuilt h
  exact ⟨b, made, h, hlength, hbuilt, (hbodies 2).2 (by decide), mt (hbodies 3).1 (by decide)⟩

/-- A function with a parameter that has no name. -/
def unnamedSlot : List BuildStep := [
  .declare "example.com/svc/a" "main" "main",
  .fill 0 (.param "" "string"),
  .fill 0 .ret,
  .define 0]

/-- The value of a slot without a name does not have the name of the slot. -/
theorem unnamedSlot_differs :
    ∃ b made, empty.run unnamedSlot = .ok (b, made) ∧ ∃ f p v, b.program.function? 0 = some f ∧
      f.params[0]? = some p ∧ f.value? p.value = some v ∧ v.name ≠ p.name := by
  exact ⟨_, _, rfl, _, _, _, rfl, rfl, rfl, by decide⟩

end Build

end ServiceGraph
