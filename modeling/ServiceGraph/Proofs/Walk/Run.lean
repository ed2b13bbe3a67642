import Mathlib.Data.List.Basic
import ServiceGraph.Proofs.Walk.Step

namespace ServiceGraph.Analysis

/-- The names of all blocks of a program. -/
def blockKeys (p : Program) : Visited :=
  p.functions.flatMap fun f => (List.range f.blocks.length).map fun i => (f.id, UInt32.ofNat i)

/-- The number of blocks that are not visited. -/
def remaining (p : Program) (visited : Visited) : Nat :=
  ((blockKeys p).filter fun key => !visited.contains key).length

theorem length_blockKeys (p : Program) : (blockKeys p).length = blockCount p := by
  unfold blockKeys blockCount
  induction p.functions with
  | nil => rfl
  | cons f rest ih =>
    rw [List.flatMap_cons, List.length_append, List.length_map, List.length_range, ih,
      List.foldr_cons]

theorem mem_blockKeys {p : Program} {f : Function} (hf : f ∈ p.functions) {i : BlockId} {b : Block}
    (hb : f.block? i = some b) : (f.id, i) ∈ blockKeys p := by
  obtain ⟨hlt, -⟩ := List.getElem?_eq_some_iff.1 hb
  refine List.mem_flatMap.2 ⟨f, hf, List.mem_map.2 ⟨i.toNat, List.mem_range.2 hlt, ?_⟩⟩
  rw [UInt32.ofNat_toNat]

theorem remaining_le (p : Program) (visited : Visited) : remaining p visited ≤ blockCount p := by
  rw [← length_blockKeys]
  exact List.length_filter_le _ _

theorem remaining_mono (p : Program) {visited visited' : Visited} (h : visited ⊆ visited') :
    remaining p visited' ≤ remaining p visited := by
  unfold remaining
  rw [← List.countP_eq_length_filter, ← List.countP_eq_length_filter]
  refine List.countP_mono_left fun key _ hkey => ?_
  rw [Bool.not_eq_true', ← Bool.not_eq_true, List.contains_iff_mem] at hkey ⊢
  exact fun hmem => hkey (h hmem)

theorem remaining_cons_lt {p : Program} {visited : Visited} {key : FunctionId × BlockId}
    (hkey : key ∈ blockKeys p) (hnew : key ∉ visited) :
    remaining p (key :: visited) < remaining p visited := by
  have hfilter : ((blockKeys p).filter fun k => !(key :: visited).contains k) =
      ((blockKeys p).filter fun k => !visited.contains k).filter fun k => !(k == key) := by
    rw [List.filter_filter]
    refine List.filter_congr fun k _ => ?_
    rw [List.contains_cons, Bool.not_or]
  unfold remaining
  rw [hfilter]
  refine List.length_filter_lt_length_iff_exists.2 ⟨key, List.mem_filter.2 ⟨hkey, ?_⟩, by simp⟩
  rw [Bool.not_eq_true', ← Bool.not_eq_true, List.contains_iff_mem]
  exact hnew

/-- The visits from several blocks on, one after the other. -/
def walkAll (a : Analysis) (fuel : Nat) (frame : Frame) (visited : Visited) :
    List BlockId → List Visit × Visited
  | [] => ([], visited)
  | block :: rest =>
    let first := a.walkBlock fuel frame visited block
    let others := a.walkAll fuel frame first.2 rest
    (first.1 ++ others.1, others.2)

theorem foldl_walkBlock (a : Analysis) (fuel : Nat) (frame : Frame) (visits : List Visit)
    (visited : Visited) (blocks : List BlockId) :
    blocks.foldl (fun (visits, visited) block =>
        let (more, visited) := a.walkBlock fuel frame visited block
        (visits ++ more, visited)) (visits, visited) =
      (visits ++ (a.walkAll fuel frame visited blocks).1,
        (a.walkAll fuel frame visited blocks).2) := by
  induction blocks generalizing visits visited with
  | nil => simp [walkAll]
  | cons block rest ih =>
    rw [List.foldl_cons]
    refine (ih _ _).trans ?_
    simp [walkAll]

section Unfolding

variable (a : Analysis) (fuel : Nat) (frame : Frame) {visited : Visited} {block : BlockId}

theorem walkBlock_again (h : (frame.function.id, block) ∈ visited) :
    a.walkBlock fuel frame visited block = ([], visited) := by
  cases fuel with
  | zero => rfl
  | succ fuel =>
    rw [walkBlock, if_pos (List.contains_iff_mem.2 h)]

theorem walkBlock_missing (h : (frame.function.id, block) ∉ visited)
    (hb : frame.function.block? block = none) :
    a.walkBlock (fuel + 1) frame visited block =
      ([], (frame.function.id, block) :: visited) := by
  rw [walkBlock, if_neg (fun hc => h (List.contains_iff_mem.1 hc)), hb]

theorem walkBlock_enter {b : Block} (h : (frame.function.id, block) ∉ visited)
    (hb : frame.function.block? block = some b) :
    let visited' := (frame.function.id, block) :: visited
    a.walkBlock (fuel + 1) frame visited block =
      (b.instrs.flatMap (a.visitInstr (fun child => (a.walkBlock fuel child visited' 0).1) frame
          visited') ++ (a.walkAll fuel frame visited' b.succs).1,
        (a.walkAll fuel frame visited' b.succs).2) := by
  intro visited'
  rw [walkBlock, if_neg (fun hc => h (List.contains_iff_mem.1 hc)), hb]
  exact a.foldl_walkBlock fuel frame _ _ _

end Unfolding

/-- The first block of a function is visited before any other. -/
theorem first_mem_cons {visited : Visited} {id : FunctionId} {block : BlockId}
    (h : block = 0 ∨ (id, 0) ∈ visited) : (id, 0) ∈ (id, block) :: visited := by
  rcases h with rfl | h
  · exact List.mem_cons_self
  · exact List.mem_cons_of_mem _ h

/-- A walk from blocks of a frame only adds blocks of that frame to what is visited. -/
structure Extends (frame : Frame) (visited visited' : Visited) : Prop where
  subset : visited ⊆ visited'
  own : ∀ p ∈ visited', p ∈ visited ∨ p.1 = frame.function.id

namespace Extends

variable {frame : Frame} {visited inner visited' : Visited}

theorem refl (frame : Frame) (visited : Visited) : Extends frame visited visited :=
  ⟨List.Subset.refl _, fun _ hp => .inl hp⟩

theorem trans (h : Extends frame visited inner) (h' : Extends frame inner visited') :
    Extends frame visited visited' where
  subset := List.Subset.trans h.subset h'.subset
  own p hp := by
    rcases h'.own p hp with hp | hp
    · exact h.own p hp
    · exact .inr hp

theorem cons (frame : Frame) (visited : Visited) (i : BlockId) :
    Extends frame visited ((frame.function.id, i) :: visited) where
  subset := List.subset_cons_self _ _
  own p hp := by
    rcases List.mem_cons.1 hp with rfl | hp
    · exact .inr rfl
    · exact .inl hp

theorem onPath (h : Extends frame visited visited') (hp : OnPath frame visited) :
    OnPath frame visited' := hp.mono h.subset h.own

end Extends

theorem walkAll_extends (a : Analysis) (fuel : Nat) (frame : Frame)
    (step : ∀ visited block, Extends frame visited (a.walkBlock fuel frame visited block).2)
    (visited : Visited) (blocks : List BlockId) :
    Extends frame visited (a.walkAll fuel frame visited blocks).2 := by
  induction blocks generalizing visited with
  | nil => exact .refl frame visited
  | cons block rest ih => exact (step visited block).trans (ih _)

theorem walkBlock_extends (a : Analysis) (fuel : Nat) (frame : Frame) (visited : Visited)
    (block : BlockId) : Extends frame visited (a.walkBlock fuel frame visited block).2 := by
  induction fuel generalizing visited block with
  | zero => exact .refl frame visited
  | succ fuel ih =>
    by_cases hv : (frame.function.id, block) ∈ visited
    · rw [a.walkBlock_again _ frame hv]
      exact .refl frame visited
    · cases hb : frame.function.block? block with
      | none =>
        rw [a.walkBlock_missing fuel frame hv hb]
        exact .cons frame visited block
      | some b =>
        rw [a.walkBlock_enter fuel frame hv hb]
        exact (Extends.cons frame visited block).trans (a.walkAll_extends fuel frame ih _ _)

/-- Two sets of visited blocks that the walk cannot tell apart in a frame. -/
structure Alike (frame : Frame) (visited visited' : Visited) : Prop where
  left : OnPath frame visited
  right : OnPath frame visited'
  blocks : ∀ i, (frame.function.id, i) ∈ visited ↔ (frame.function.id, i) ∈ visited'

namespace Alike

variable {frame : Frame} {visited visited' : Visited}

theorem cons (h : Alike frame visited visited') (i : BlockId) :
    Alike frame ((frame.function.id, i) :: visited) ((frame.function.id, i) :: visited') where
  left := h.left.cons i
  right := h.right.cons i
  blocks j := by rw [List.mem_cons, List.mem_cons, h.blocks j]

/-- A frame that is opened has no visited blocks yet, so all callers look alike to it. -/
theorem opened {a : Analysis} {child : Frame} {id : ValueId} (hopens : a.Opens frame id child)
    (h : OnPath frame visited) (h0 : (frame.function.id, 0) ∈ visited)
    (h' : OnPath frame visited') (h0' : (frame.function.id, 0) ∈ visited') :
    Alike child visited visited' where
  left := h.opened h0 hopens.below_eq
  right := h'.opened h0' hopens.below_eq
  blocks _ :=
    ⟨fun hi => absurd (h.active _ hi) hopens.id_notMem,
      fun hi => absurd (h'.active _ hi) hopens.id_notMem⟩

end Alike

theorem child?_congr (a : Analysis) {frame : Frame} {visited visited' : Visited}
    (h : OnPath frame visited) (h0 : (frame.function.id, 0) ∈ visited)
    (h' : OnPath frame visited') (h0' : (frame.function.id, 0) ∈ visited') (id : ValueId) :
    a.child? frame visited id = a.child? frame visited' id := by
  apply Option.ext
  intro child
  rw [a.child?_eq_some_iff h h0, a.child?_eq_some_iff h' h0']

theorem visitInstr_congr (a : Analysis) {frame : Frame} {visited visited' : Visited}
    {enter enter' : Frame → List Visit} (h : OnPath frame visited)
    (h0 : (frame.function.id, 0) ∈ visited) (h' : OnPath frame visited')
    (h0' : (frame.function.id, 0) ∈ visited') (id : ValueId)
    (henter : ∀ child, a.Opens frame id child → enter child = enter' child) :
    a.visitInstr enter frame visited id = a.visitInstr enter' frame visited' id := by
  rw [visitInstr_eq, visitInstr_eq, a.child?_congr h h0 h' h0' id]
  cases hc : a.child? frame visited' id with
  | none => rfl
  | some child =>
    have hopens := (a.child?_eq_some_iff h' h0' id child).1 hc
    rw [Option.map_some, Option.map_some, henter child hopens]

/-- Two walks from a block of a frame go the same way. -/
def SameWalk (frame : Frame) (r r' : List Visit × Visited) : Prop :=
  r.1 = r'.1 ∧ Alike frame r.2 r'.2

theorem walkAll_congr (a : Analysis) {fuel fuel' : Nat} {frame : Frame}
    (step : ∀ visited visited' block, remaining a.program visited < fuel →
      remaining a.program visited' < fuel' → Alike frame visited visited' →
      (frame.function.id, 0) ∈ visited →
      SameWalk frame (a.walkBlock fuel frame visited block)
        (a.walkBlock fuel' frame visited' block))
    {visited visited' : Visited} (hfuel : remaining a.program visited < fuel)
    (hfuel' : remaining a.program visited' < fuel') (h : Alike frame visited visited')
    (h0 : (frame.function.id, 0) ∈ visited) (blocks : List BlockId) :
    SameWalk frame (a.walkAll fuel frame visited blocks)
      (a.walkAll fuel' frame visited' blocks) := by
  induction blocks generalizing visited visited' with
  | nil => exact ⟨rfl, h⟩
  | cons block rest ih =>
    have first := step visited visited' block hfuel hfuel' h h0
    have left := (a.walkBlock_extends fuel frame visited block).subset
    have right := (a.walkBlock_extends fuel' frame visited' block).subset
    have others := ih (Nat.lt_of_le_of_lt (remaining_mono a.program left) hfuel)
      (Nat.lt_of_le_of_lt (remaining_mono a.program right) hfuel') first.2 (left h0)
    refine ⟨?_, others.2⟩
    rw [walkAll, walkAll, first.1, others.1]

/-- Neither the bound of the recursion nor what callers visited makes a difference. -/
theorem walkBlock_congr (a : Analysis) {fuel fuel' : Nat} {frame : Frame}
    {visited visited' : Visited} {block : BlockId} (hf : frame.function ∈ a.program.functions)
    (hfuel : remaining a.program visited < fuel) (hfuel' : remaining a.program visited' < fuel')
    (h : Alike frame visited visited') (h0 : block = 0 ∨ (frame.function.id, 0) ∈ visited) :
    SameWalk frame (a.walkBlock fuel frame visited block)
      (a.walkBlock fuel' frame visited' block) := by
  induction fuel generalizing fuel' frame visited visited' block with
  | zero => exact absurd hfuel (Nat.not_lt_zero _)
  | succ fuel ih =>
    cases fuel' with
    | zero => exact absurd hfuel' (Nat.not_lt_zero _)
    | succ fuel' =>
      by_cases hv : (frame.function.id, block) ∈ visited
      · rw [a.walkBlock_again _ frame hv, a.walkBlock_again _ frame ((h.blocks block).1 hv)]
        exact ⟨rfl, h⟩
      have hv' : (frame.function.id, block) ∉ visited' := fun hmem => hv ((h.blocks block).2 hmem)
      cases hb : frame.function.block? block with
      | none =>
        rw [a.walkBlock_missing fuel frame hv hb, a.walkBlock_missing fuel' frame hv' hb]
        exact ⟨rfl, h.cons block⟩
      | some b =>
        have key := mem_blockKeys hf hb
        have less := Nat.lt_of_lt_of_le (remaining_cons_lt key hv) (Nat.le_of_lt_succ hfuel)
        have less' := Nat.lt_of_lt_of_le (remaining_cons_lt key hv') (Nat.le_of_lt_succ hfuel')
        have alike := h.cons block
        have start := first_mem_cons h0
        have start' := (alike.blocks 0).1 start
        -- The hypothesis is used twice: in this frame for the successors, and below for the frames
        -- that the instructions of the block open.
        have rest := a.walkAll_congr (fun _ _ _ hn hn' hal hz => ih hf hn hn' hal (.inr hz))
          less less' alike start b.succs
        rw [a.walkBlock_enter fuel frame hv hb, a.walkBlock_enter fuel' frame hv' hb]
        refine ⟨congrArg₂ _ (List.flatMap_congr fun id _ => ?_) rest.1, rest.2⟩
        refine a.visitInstr_congr alike.left start alike.right start' id fun child hopens => ?_
        exact (ih hopens.mem_functions less less'
          (.opened hopens alike.left start alike.right start') (.inl rfl)).1

/-- The visits of a frame. -/
def visitsFrom (a : Analysis) (frame : Frame) : List Visit :=
  (a.walkBlock (blockCount a.program + 1) frame frame.entered 0).1

/-- The visits of a block of a frame. -/
def blockVisits (a : Analysis) (frame : Frame) (block : BlockId) : List Visit :=
  match frame.function.block? block with
  | none => []
  | some b =>
    b.instrs.flatMap (a.visitInstr a.visitsFrom frame
      ((frame.function.id, 0) :: frame.entered))

/-- A frame that opening can give: its function is one of the program, and is active only once. -/
structure Fresh (a : Analysis) (frame : Frame) : Prop where
  mem_functions : frame.function ∈ a.program.functions
  inactive : ∀ act ∈ frame.below, act.function.id ≠ frame.function.id

theorem Opens.fresh {a : Analysis} {frame child : Frame} {id : ValueId}
    (h : a.Opens frame id child) : a.Fresh child where
  mem_functions := h.mem_functions
  inactive := by
    rw [h.below_eq]
    exact h.enterable.inactive

theorem onPath_entered (frame : Frame) : OnPath frame frame.entered where
  active p hp := by
    obtain ⟨act, hact, rfl⟩ := List.mem_map.1 hp
    exact List.mem_map_of_mem (List.mem_cons_of_mem _ hact)
  below act hact := List.mem_map_of_mem hact

/-- What a frame visits after it was opened does not depend on where the walk stood. -/
theorem walkBlock_opened (a : Analysis) {fuel : Nat} {frame child : Frame} {visited : Visited}
    {id : ValueId} (hopens : a.Opens frame id child)
    (hfuel : remaining a.program visited < fuel) (h : OnPath frame visited)
    (h0 : (frame.function.id, 0) ∈ visited) :
    (a.walkBlock fuel child visited 0).1 = a.visitsFrom child := by
  have entered : child.entered = (frame.function.id, 0) :: frame.entered := by
    rw [Frame.entered, hopens.below_eq]
    rfl
  have alike : Alike child visited child.entered := by
    rw [entered]
    exact .opened hopens h h0 ((onPath_entered frame).cons 0) List.mem_cons_self
  exact (a.walkBlock_congr hopens.mem_functions hfuel
    (Nat.lt_succ_of_le (remaining_le _ _)) alike (.inl rfl)).1

theorem flatMap_visitInstr (a : Analysis) {fuel : Nat} {frame : Frame} {visited : Visited}
    {block : BlockId} {b : Block} (hb : frame.function.block? block = some b)
    (hfuel : remaining a.program visited < fuel) (h : OnPath frame visited)
    (h0 : (frame.function.id, 0) ∈ visited) :
    b.instrs.flatMap (a.visitInstr (fun child => (a.walkBlock fuel child visited 0).1) frame
      visited) = a.blockVisits frame block := by
  rw [blockVisits, hb]
  apply List.flatMap_congr
  intro id _
  exact a.visitInstr_congr h h0 ((onPath_entered frame).cons 0) List.mem_cons_self id
    fun child hopens => a.walkBlock_opened hopens hfuel h h0

/-- From a list of blocks on, a frame has the visits of the blocks that are gone through. -/
def Follows (a : Analysis) (frame : Frame) (visited : Visited) (blocks : List BlockId)
    (r : List Visit × Visited) : Prop :=
  ∃ order, frame.function.Traverses visited blocks order r.2 ∧
    r.1 = order.flatMap (a.blockVisits frame)

theorem walkAll_follows (a : Analysis) {fuel : Nat} {frame : Frame}
    (step : ∀ visited block, remaining a.program visited < fuel → OnPath frame visited →
      (frame.function.id, 0) ∈ visited →
      a.Follows frame visited [block] (a.walkBlock fuel frame visited block))
    {visited : Visited} (hfuel : remaining a.program visited < fuel) (h : OnPath frame visited)
    (h0 : (frame.function.id, 0) ∈ visited) (blocks : List BlockId) :
    a.Follows frame visited blocks (a.walkAll fuel frame visited blocks) := by
  induction blocks generalizing visited with
  | nil => exact ⟨[], .nil visited, rfl⟩
  | cons block rest ih =>
    obtain ⟨order, htrav, hvisits⟩ := step visited block hfuel h h0
    have ext := a.walkBlock_extends fuel frame visited block
    obtain ⟨order', htrav', hvisits'⟩ := ih
      (Nat.lt_of_le_of_lt (remaining_mono a.program ext.subset) hfuel) (ext.onPath h)
      (ext.subset h0)
    refine ⟨order ++ order', htrav.append htrav', ?_⟩
    rw [walkAll, List.flatMap_append, hvisits, hvisits']

theorem walkBlock_follows (a : Analysis) {fuel : Nat} {frame : Frame} {visited : Visited}
    {block : BlockId} (hf : frame.function ∈ a.program.functions)
    (hfuel : remaining a.program visited < fuel) (h : OnPath frame visited)
    (h0 : block = 0 ∨ (frame.function.id, 0) ∈ visited) :
    a.Follows frame visited [block] (a.walkBlock fuel frame visited block) := by
  induction fuel generalizing visited block with
  | zero => exact absurd hfuel (Nat.not_lt_zero _)
  | succ fuel ih =>
    by_cases hv : (frame.function.id, block) ∈ visited
    · rw [a.walkBlock_again _ frame hv]
      exact ⟨[], .again hv (.nil _), rfl⟩
    cases hb : frame.function.block? block with
    | none =>
      rw [a.walkBlock_missing fuel frame hv hb]
      exact ⟨[], .missing hv hb (.nil _), rfl⟩
    | some b =>
      have less := Nat.lt_of_lt_of_le (remaining_cons_lt (mem_blockKeys hf hb) hv)
        (Nat.le_of_lt_succ hfuel)
      have start := first_mem_cons h0
      obtain ⟨order, htrav, hvisits⟩ := a.walkAll_follows
        (fun _ _ hn hp hz => ih hn hp (.inr hz)) less (h.cons block) start b.succs
      rw [a.walkBlock_enter fuel frame hv hb]
      refine ⟨block :: order ++ [], .enter hv hb htrav (.nil _), ?_⟩
      rw [List.append_nil, List.flatMap_cons, hvisits,
        a.flatMap_visitInstr hb less (h.cons block) start]

/-- The visits of a frame are those of the blocks that control can come to, each block once and in
depth-first order. -/
theorem visitsFrom_eq (a : Analysis) {frame : Frame} (h : a.Fresh frame) :
    ∃ order visited, frame.function.Traverses frame.entered [0] order visited ∧
      a.visitsFrom frame = order.flatMap (a.blockVisits frame) := by
  obtain ⟨order, htrav, hvisits⟩ := a.walkBlock_follows h.mem_functions
    (Nat.lt_succ_of_le (remaining_le _ _)) (onPath_entered frame) (.inl rfl)
  exact ⟨order, _, htrav, hvisits⟩

/-- A visit at an instruction is what it reports, or one of a frame that it opens. -/
theorem mem_visitInstr_iff (a : Analysis) (frame : Frame) (id : ValueId) (v : Visit) :
    v ∈ a.visitInstr a.visitsFrom frame ((frame.function.id, 0) :: frame.entered) id ↔
      a.Reports frame id v ∨ ∃ child, a.Opens frame id child ∧ v ∈ a.visitsFrom child := by
  have opens := a.child?_eq_some_iff ((onPath_entered frame).cons 0) List.mem_cons_self id
  rw [visitInstr_eq, List.mem_append, Option.mem_toList, a.report?_eq_some_iff frame id v]
  refine or_congr_right ?_
  cases hc : a.child? frame ((frame.function.id, 0) :: frame.entered) id with
  | none =>
    constructor
    · intro hv
      cases hv
    · rintro ⟨child, hopens, -⟩
      rw [(opens child).2 hopens] at hc
      cases hc
  | some child =>
    constructor
    · exact fun hv => ⟨child, (opens child).1 hc, hv⟩
    · rintro ⟨child', hopens, hv⟩
      rw [(opens child').2 hopens] at hc
      cases hc
      exact hv

/-- A visit of a frame is reported by one of its instructions, or is a visit of a frame that one of
them opens. -/
theorem mem_visitsFrom_iff (a : Analysis) {frame : Frame} (h : a.Fresh frame) (v : Visit) :
    v ∈ a.visitsFrom frame ↔ ∃ id, frame.function.Lists id ∧
      (a.Reports frame id v ∨ ∃ child, a.Opens frame id child ∧ v ∈ a.visitsFrom child) := by
  obtain ⟨order, visited, htrav, hvisits⟩ := a.visitsFrom_eq h
  have fresh (i : BlockId) : (frame.function.id, i) ∉ frame.entered := by
    intro hi
    obtain ⟨act, hact, heq⟩ := List.mem_map.1 hi
    exact h.inactive act hact (Prod.mk.inj heq).1
  rw [hvisits, List.mem_flatMap]
  constructor
  · rintro ⟨i, hi, hv⟩
    obtain ⟨b, hb⟩ := (htrav.mem_order_iff fresh i).1 hi
    rw [blockVisits, hb.block?_eq] at hv
    obtain ⟨id, hid, hv⟩ := List.mem_flatMap.1 hv
    exact ⟨id, ⟨i, b, hb, hid⟩, (a.mem_visitInstr_iff frame id v).1 hv⟩
  · rintro ⟨id, ⟨i, b, hb, hid⟩, hv⟩
    refine ⟨i, (htrav.mem_order_iff fresh i).2 ⟨b, hb⟩, ?_⟩
    rw [blockVisits, hb.block?_eq]
    exact List.mem_flatMap.2 ⟨id, hid, (a.mem_visitInstr_iff frame id v).2 hv⟩

end ServiceGraph.Analysis
