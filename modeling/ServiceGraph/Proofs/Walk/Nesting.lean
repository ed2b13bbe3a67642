import Mathlib.Data.List.Dedup
import Mathlib.Data.List.Perm.Subperm
import ServiceGraph.Proofs.Walk.Run

namespace ServiceGraph.Analysis

/-- Goes on to a successor, where `self` tells what comes of a walk from a block. -/
def walkOn (self : Frame → Visited → BlockId → List Visit × Visited) (frame : Frame)
    (done : List Visit × Visited) (next : BlockId) : List Visit × Visited :=
  let (more, visited) := self frame done.2 next
  (done.1 ++ more, visited)

/-- The walk from a block on, where `self` tells what comes of the walks that it leads to. -/
def walkStep (a : Analysis) (self : Frame → Visited → BlockId → List Visit × Visited)
    (frame : Frame) (visited : Visited) (block : BlockId) : List Visit × Visited :=
  if visited.contains (frame.function.id, block) then ([], visited)
  else
    let visited := (frame.function.id, block) :: visited
    match frame.function.block? block with
    | none => ([], visited)
    | some b =>
      let enter (child : Frame) : List Visit := (self child visited 0).1
      b.succs.foldl (walkOn self frame)
        (b.instrs.flatMap (a.visitInstr enter frame visited), visited)

theorem walkBlock_succ (a : Analysis) (fuel : Nat) (frame : Frame) (visited : Visited)
    (block : BlockId) :
    a.walkBlock (fuel + 1) frame visited block =
      a.walkStep (a.walkBlock fuel) frame visited block := rfl

theorem walkStep_enter (a : Analysis) (self : Frame → Visited → BlockId → List Visit × Visited)
    {frame : Frame} {visited : Visited} {block : BlockId} {b : Block}
    (h : (frame.function.id, block) ∉ visited) (hb : frame.function.block? block = some b) :
    let visited' := (frame.function.id, block) :: visited
    a.walkStep self frame visited block =
      b.succs.foldl (walkOn self frame)
        (b.instrs.flatMap (a.visitInstr (fun child => (self child visited' 0).1) frame visited'),
          visited') := by
  intro visited'
  rw [walkStep, if_neg (fun hc => h (List.contains_iff_mem.1 hc)), hb]

/-- Where the walk goes on from a block: the frame of the block, the frames that led there, innermost
first, and what is visited. -/
structure Point where
  frame : Frame
  parents : List Frame
  visited : Visited
  block : BlockId

namespace Point

def here (p : Point) : FunctionId × BlockId := (p.frame.function.id, p.block)

def frames (p : Point) : List Frame := p.frame :: p.parents

end Point

/-- The walk from one point leads to the walk from another: into a frame that is opened, or on to a
successor after those before it. -/
inductive Invokes (a : Analysis) (p : Point) : Point → Prop where
  | child {b : Block} {id : ValueId} {child : Frame} :
      p.here ∉ p.visited → p.frame.function.block? p.block = some b → id ∈ b.instrs →
      a.child? p.frame (p.here :: p.visited) id = some child →
      Invokes a p ⟨child, p.frames, p.here :: p.visited, 0⟩
  | succ {b : Block} {before after order : List BlockId} {next : BlockId} {visited : Visited} :
      p.here ∉ p.visited → p.frame.function.block? p.block = some b →
      b.succs = before ++ next :: after →
      p.frame.function.Traverses (p.here :: p.visited) before order visited →
      Invokes a p ⟨p.frame, p.parents, visited, next⟩

/-- The points that the walk of a program comes to. -/
inductive Reached (a : Analysis) : Point → Prop where
  | entry {main : Function} : a.program.main? = some main → Reached a ⟨.entry main, [], [], 0⟩
  | invoked {p q : Point} : Reached a p → a.Invokes p q → Reached a q

/-- What holds wherever the walk comes to. -/
structure Nested (a : Analysis) (p : Point) : Prop where
  mem_functions : ∀ f ∈ p.frames, f.function ∈ a.program.functions
  below_eq : p.frame.below = p.parents.map (·.top)
  nodup : (p.frames.map (·.function.id)).Nodup
  depth_eq : p.frame.depth = p.parents.length
  depth_le : p.frame.depth ≤ a.settings.maxRecursionDepth
  trace_le : p.frame.top.trace.length ≤ p.frame.depth
  onPath : OnPath p.frame p.visited
  first : p.block = 0 ∨ (p.frame.function.id, 0) ∈ p.visited

namespace Nested

variable {a : Analysis} {p q : Point}

theorem entry {main : Function} (h : a.program.main? = some main) :
    a.Nested ⟨.entry main, [], [], 0⟩ where
  mem_functions f hf := by
    rw [List.mem_singleton.1 hf]
    exact List.mem_of_find?_eq_some h
  below_eq := rfl
  nodup := List.nodup_singleton _
  depth_eq := rfl
  depth_le := Nat.zero_le _
  trace_le := Nat.le_refl _
  onPath := onPath_entered (.entry main)
  first := .inl rfl

theorem ids_eq (h : a.Nested p) : p.frame.ids = p.frames.map (·.function.id) := by
  rw [Frame.ids, Frame.activations, h.below_eq, Point.frames, List.map_cons, List.map_cons,
    List.map_map]
  rfl

theorem opened (h : a.Nested p) {id : ValueId} {child : Frame} (hopens : a.Opens p.frame id child) :
    a.Nested ⟨child, p.frames, p.here :: p.visited, 0⟩ where
  mem_functions f hf := by
    rcases List.mem_cons.1 hf with rfl | hf
    · exact hopens.mem_functions
    · exact h.mem_functions f hf
  below_eq := by
    rw [hopens.below_eq, Frame.activations, h.below_eq]
    rfl
  nodup := by
    -- a frame is opened only for a function that is not active
    have hnew := hopens.id_notMem
    rw [h.ids_eq] at hnew
    exact List.nodup_cons.2 ⟨hnew, h.nodup⟩
  depth_eq := by rw [hopens.depth_eq, h.depth_eq, Point.frames, List.length_cons]
  depth_le := hopens.depth_le
  trace_le := hopens.length_trace_le_depth h.trace_le
  onPath := (h.onPath.cons p.block).opened (first_mem_cons h.first) hopens.below_eq
  first := .inl rfl

theorem moved (h : a.Nested p) {blocks order : List BlockId} {visited : Visited}
    (htrav : p.frame.function.Traverses (p.here :: p.visited) blocks order visited)
    (next : BlockId) : a.Nested ⟨p.frame, p.parents, visited, next⟩ where
  mem_functions := h.mem_functions
  below_eq := h.below_eq
  nodup := h.nodup
  depth_eq := h.depth_eq
  depth_le := h.depth_le
  trace_le := h.trace_le
  onPath := (h.onPath.cons p.block).mono htrav.subset fun _ hq => htrav.own hq
  first := .inr (htrav.subset (first_mem_cons h.first))

theorem step (h : a.Nested p) (hpq : a.Invokes p q) : a.Nested q := by
  cases hpq with
  | child _ _ _ hchild =>
    have hpath := h.onPath.cons p.block
    have hfirst := first_mem_cons h.first
    exact h.opened ((a.child?_eq_some_iff hpath hfirst _ _).1 hchild)
  | succ _ _ _ htrav => exact h.moved htrav _

/-- Every step of the walk leaves fewer blocks to visit. -/
theorem remaining_lt (h : a.Nested p) (hpq : a.Invokes p q) :
    remaining a.program q.visited < remaining a.program p.visited := by
  have hf : p.frame.function ∈ a.program.functions := h.mem_functions _ List.mem_cons_self
  cases hpq with
  | child hnew hb => exact remaining_cons_lt (mem_blockKeys hf hb) hnew
  | succ hnew hb _ htrav =>
    have hless := remaining_cons_lt (mem_blockKeys hf hb) hnew
    exact Nat.lt_of_le_of_lt (remaining_mono _ htrav.subset) hless

theorem depth_lt (h : a.Nested p) :
    p.frame.depth < (a.program.functions.map (·.id)).dedup.length := by
  -- the frames of a point have different ids, and all of them are ids of the program
  have hsub : p.frames.map (·.function.id) ⊆ (a.program.functions.map (·.id)).dedup := by
    intro id hid
    obtain ⟨f, hf, rfl⟩ := List.mem_map.1 hid
    exact List.mem_dedup.2 (List.mem_map_of_mem (h.mem_functions f hf))
  have hlen := (h.nodup.subperm hsub).length_le
  rw [List.length_map, Point.frames, List.length_cons] at hlen
  have hdepth := h.depth_eq
  omega

end Nested

theorem Reached.nested {a : Analysis} {p : Point} (h : a.Reached p) : a.Nested p := by
  induction h with
  | entry hmain => exact .entry hmain
  | invoked _ hpq ih => exact ih.step hpq

/-- A bound of the recursion that covers the blocks which are left makes no difference. -/
theorem walkBlock_fuel (a : Analysis) {fuel fuel' : Nat} {frame : Frame} {visited : Visited}
    {block : BlockId} (hf : frame.function ∈ a.program.functions)
    (hfuel : remaining a.program visited < fuel) (hfuel' : remaining a.program visited < fuel')
    (h : OnPath frame visited) (h0 : block = 0 ∨ (frame.function.id, 0) ∈ visited) :
    a.walkBlock fuel frame visited block = a.walkBlock fuel' frame visited block := by
  have visits := (a.walkBlock_congr hf hfuel hfuel' ⟨h, h, fun _ => Iff.rfl⟩ h0).1
  obtain ⟨order, htrav, -⟩ := a.walkBlock_follows hf hfuel h h0
  obtain ⟨order', htrav', -⟩ := a.walkBlock_follows hf hfuel' h h0
  exact Prod.ext visits (htrav.unique htrav').2

/-- The walk with a bound that covers all blocks of the program. -/
def walked (a : Analysis) : Frame → Visited → BlockId → List Visit × Visited :=
  a.walkBlock (blockCount a.program + 1)

/-- The visits from a point on, and what is visited then. -/
def walkAt (a : Analysis) (p : Point) : List Visit × Visited :=
  a.walked p.frame p.visited p.block

theorem Nested.walkAt_eq {a : Analysis} {p : Point} (h : a.Nested p) :
    a.walkAt p = a.walkStep a.walked p.frame p.visited p.block := by
  have hf : p.frame.function ∈ a.program.functions := h.mem_functions _ List.mem_cons_self
  have hrest := remaining_le a.program p.visited
  rw [walked, ← walkBlock_succ]
  exact a.walkBlock_fuel hf (by omega) (by omega) h.onPath h.first

/-- The visits at the instructions of a block. -/
def instrVisits (a : Analysis) (self : Frame → Visited → BlockId → List Visit × Visited) (p : Point)
    (b : Block) : List Visit :=
  b.instrs.flatMap (a.visitInstr (fun child => (self child (p.here :: p.visited) 0).1) p.frame
    (p.here :: p.visited))

section Recursion

variable {a : Analysis} {p : Point} {self : Frame → Visited → BlockId → List Visit × Visited}
  (hself : ∀ q, a.Invokes p q → self q.frame q.visited q.block = a.walkAt q)
include hself

theorem instrVisits_eq {b : Block} (hnew : p.here ∉ p.visited)
    (hb : p.frame.function.block? p.block = some b) :
    a.instrVisits self p b = a.instrVisits a.walked p b := by
  apply List.flatMap_congr
  intro id hid
  rw [visitInstr_eq, visitInstr_eq]
  cases hchild : a.child? p.frame (p.here :: p.visited) id with
  | none => rfl
  | some child =>
    have heq := hself _ (.child hnew hb hid hchild)
    rw [Option.map_some, Option.map_some, heq]
    rfl

theorem Nested.foldl_walkOn_eq (h : a.Nested p) {b : Block} (hnew : p.here ∉ p.visited)
    (hb : p.frame.function.block? p.block = some b) {before rest order : List BlockId}
    {visited : Visited} (hsuccs : b.succs = before ++ rest)
    (htrav : p.frame.function.Traverses (p.here :: p.visited) before order visited)
    (visits : List Visit) :
    rest.foldl (walkOn self p.frame) (visits, visited) =
      rest.foldl (walkOn a.walked p.frame) (visits, visited) := by
  -- the induction is on the successors that are left, and `htrav` tells what those before visited
  induction rest generalizing before order visited visits with
  | nil => rfl
  | cons next rest ih =>
    have heq : self p.frame visited next = a.walked p.frame visited next :=
      hself _ (.succ hnew hb hsuccs htrav)
    have hthere := h.moved htrav next
    have hf : p.frame.function ∈ a.program.functions := h.mem_functions _ List.mem_cons_self
    have hrest := Nat.lt_succ_of_le (remaining_le a.program visited)
    obtain ⟨order', htrav', -⟩ := a.walkBlock_follows hf hrest hthere.onPath hthere.first
    rw [List.foldl_cons, List.foldl_cons, walkOn, walkOn, heq]
    refine ih ?_ (htrav.append htrav') _
    rw [hsuccs, List.append_assoc, List.singleton_append]

/-- What comes of the walk from a point depends on the walks that it leads to, and on nothing else. -/
theorem Nested.walkStep_eq (h : a.Nested p) :
    a.walkStep self p.frame p.visited p.block = a.walkAt p := by
  rw [h.walkAt_eq]
  by_cases hv : p.here ∈ p.visited
  · have hc : p.visited.contains (p.frame.function.id, p.block) = true :=
      List.contains_iff_mem.2 hv
    rw [walkStep, walkStep, if_pos hc, if_pos hc]
  · cases hb : p.frame.function.block? p.block with
    | none => rw [walkStep, walkStep, hb]
    | some b =>
      calc a.walkStep self p.frame p.visited p.block
        _ = b.succs.foldl (walkOn self p.frame) (a.instrVisits self p b, p.here :: p.visited) :=
          a.walkStep_enter self hv hb
        _ = b.succs.foldl (walkOn self p.frame)
            (a.instrVisits a.walked p b, p.here :: p.visited) := by
          rw [instrVisits_eq hself hv hb]
        _ = b.succs.foldl (walkOn a.walked p.frame)
            (a.instrVisits a.walked p b, p.here :: p.visited) :=
          h.foldl_walkOn_eq hself hv hb rfl (.nil _) _
        _ = a.walkStep a.walked p.frame p.visited p.block := (a.walkStep_enter a.walked hv hb).symm

end Recursion

/-- The recursion of the walk is well founded, and the walk does what the recursion says. Wherever it
comes to, the functions of the frames on top of each other have different ids; their number is within
the limit and below the number of ids; and no trace is longer than the stack of frames below. -/
theorem walk_nesting_bounded (a : Analysis) :
    (WellFounded fun q p : { p // a.Reached p } => a.Invokes p.1 q.1) ∧
    (∀ main, a.program.main? = some main →
      a.visits = (a.walkAt ⟨.entry main, [], [], 0⟩).1) ∧
    (∀ p, a.Reached p → ∀ self : Frame → Visited → BlockId → List Visit × Visited,
      (∀ q, a.Invokes p q → self q.frame q.visited q.block = a.walkAt q) →
      a.walkStep self p.frame p.visited p.block = a.walkAt p) ∧
    ∀ p, a.Reached p →
      ((p.frame :: p.parents).map (·.function.id)).Nodup ∧
      p.frame.depth = p.parents.length ∧
      p.frame.depth ≤ a.settings.maxRecursionDepth ∧
      p.frame.depth < (a.program.functions.map (·.id)).dedup.length ∧
      p.frame.top.trace.length ≤ p.frame.depth := by
  refine ⟨?_, ?_, ?_, ?_⟩
  -- not the depth, whose limit may be of any size, but the blocks left to visit decrease
  · apply Subrelation.wf _ (measure fun p : { p // a.Reached p } =>
      remaining a.program p.1.visited).wf
    intro q p hpq
    exact p.2.nested.remaining_lt hpq
  · intro main hmain
    rw [visits, hmain]
    rfl
  · intro p hp self hself
    exact hp.nested.walkStep_eq hself
  · intro p hp
    have h := hp.nested
    exact ⟨h.nodup, h.depth_eq, h.depth_le, h.depth_lt, h.trace_le⟩

end ServiceGraph.Analysis
