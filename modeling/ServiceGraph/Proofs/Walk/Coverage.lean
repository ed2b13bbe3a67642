import ServiceGraph.Proofs.Walk.DepthFirst
import ServiceGraph.Proofs.Walk.Log
import ServiceGraph.Proofs.Walk.Nesting

namespace ServiceGraph

namespace Analysis

def Deed.isWork : Deed → Bool
  | .enters _ | .runs _ => true
  | _ => false

/-- A move between the opening and the closing of a frame: one of the frame, or of a frame on top of
it. -/
def Move.Within (frame : Frame) (m : Move) : Prop :=
  (m.frame = frame ∧ m.deed ≠ .opens ∧ m.deed ≠ .closes) ∨ frame.depth < m.frame.depth

/-- The blocks and instructions that are gone through at a level of the stack. -/
def workAt (depth : Nat) (log : List Move) : List Deed :=
  (log.filter fun m => m.frame.depth = depth ∧ m.deed.isWork).map (·.deed)

end Analysis

/-- What there is to go through in a block. -/
def Function.work (f : Function) (i : BlockId) : List Analysis.Deed :=
  match f.block? i with
  | none => []
  | some b => .enters i :: b.instrs.map .runs

namespace Analysis

/-- A frame that is opened when some blocks are visited covers its own blocks with some moves. -/
structure Covers (a : Analysis) (frame : Frame) (visited : Visited) (moves : List Move)
    (visited' : Visited) : Prop where
  /-- No block of the function is visited yet. -/
  fresh : ∀ i, (frame.function.id, i) ∉ visited
  within : ∀ m ∈ moves, m.Within frame
  /-- The blocks that are gone through are those that control can come to, in depth-first order. -/
  blocks : ∃ order, workAt frame.depth moves = order.flatMap frame.function.work ∧ order.Nodup ∧
    (∀ i, i ∈ order ↔ ∃ b, frame.function.Reaches i b) ∧ frame.function.DepthFirst order
  /-- The moves are those of the walk from the first block. -/
  walked : a.walked frame visited 0 = (a.reports moves, visited')

/-- A frame goes on with what is visited. -/
def Resumes (frame : Frame) (visited : Visited) (log : List Move) : Prop :=
  ∃ deed rest, log = ⟨frame, visited, deed⟩ :: rest

theorem Resumes.append {frame : Frame} {visited : Visited} {log : List Move}
    (h : Resumes frame visited log) (more : List Move) : Resumes frame visited (log ++ more) := by
  obtain ⟨deed, rest, rfl⟩ := h
  exact ⟨deed, rest ++ more, rfl⟩

/-- A frame is opened by an instruction of another frame, covers its blocks and is closed, and the
other frame goes on as before. -/
def Returns (a : Analysis) (before : List Move) (frame : Frame) (visited : Visited)
    (rest : List Move) : Prop :=
  ∃ parent id earlier moves visited' after,
    before = earlier ++ [⟨parent, visited, .runs id⟩] ∧ a.Opens parent id frame ∧
    rest = moves ++ ⟨frame, visited', .closes⟩ :: after ∧ a.Covers frame visited moves visited' ∧
    Resumes parent visited after

theorem Returns.extend {a : Analysis} {before rest : List Move} {frame : Frame} {visited : Visited}
    (h : a.Returns before frame visited rest) (l r : List Move) :
    a.Returns (l ++ before) frame visited (rest ++ r) := by
  obtain ⟨parent, id, earlier, moves, visited', after, rfl, hopens, rfl, hcovers, hresumes⟩ := h
  refine ⟨parent, id, l ++ earlier, moves, visited', after ++ r, ?_, hopens, ?_, hcovers,
    hresumes.append r⟩
  · rw [List.append_assoc]
  · rw [List.append_assoc, List.cons_append]

/-- Every frame that is opened in a log returns there, or in what comes next. -/
def Covered (a : Analysis) (log next : List Move) : Prop :=
  ∀ before frame visited rest, log = before ++ ⟨frame, visited, .opens⟩ :: rest →
    a.Returns before frame visited (rest ++ next)

namespace Covered

variable {a : Analysis} {l r next : List Move}

theorem nil : a.Covered [] next := by
  intro before frame visited rest hsplit
  simp at hsplit

theorem single {m : Move} (h : m.deed ≠ .opens) : a.Covered [m] next := by
  intro before frame visited rest hsplit
  have hm : ⟨frame, visited, .opens⟩ ∈ [m] := by simp [hsplit]
  rw [← List.mem_singleton.1 hm] at h
  exact absurd rfl h

theorem closes (frame : Frame) (visited : Visited) :
    a.Covered [⟨frame, visited, .closes⟩] next := single (by simp)

theorem append (hl : a.Covered l (r ++ next)) (hr : a.Covered r next) :
    a.Covered (l ++ r) next := by
  intro before frame visited rest hsplit
  rcases append_eq_append_cons hsplit with ⟨mid, hmid, rfl⟩ | ⟨mid, rfl, hmid⟩
  · rw [List.append_assoc]
    exact hl before frame visited mid hmid
  · have inner := (hr mid frame visited rest hmid).extend l []
    rw [List.append_nil] at inner
    exact inner

/-- The log of a frame that an instruction opens. -/
theorem framed {parent child : Frame} {visited : Visited} {id : ValueId}
    {r : List Move × Visited} (hopens : a.Opens parent id child)
    (hcovers : a.Covers child visited r.1 r.2)
    (hinner : a.Covered r.1 (⟨child, r.2, .closes⟩ :: next)) (hnext : Resumes parent visited next) :
    a.Covered (⟨parent, visited, .runs id⟩ :: Analysis.framed child visited r) next := by
  intro before frame visited₀ rest hsplit
  rcases before with _ | ⟨first, _ | ⟨second, before⟩⟩
  · cases hsplit
  · cases hsplit
    refine ⟨parent, id, [], r.1, r.2, next, rfl, hopens, ?_, hcovers, hnext⟩
    rw [List.append_assoc]
    rfl
  · obtain ⟨rfl, hframed⟩ := List.cons.inj hsplit
    obtain ⟨rfl, hmoves⟩ := List.cons.inj hframed
    have inside := hinner.append (.closes child r.2)
    have found := (inside before frame visited₀ rest hmoves).extend
      [⟨parent, visited, .runs id⟩, ⟨child, visited, .opens⟩] []
    rw [List.append_nil] at found
    exact found

end Covered

theorem workAt_append (depth : Nat) (l r : List Move) :
    workAt depth (l ++ r) = workAt depth l ++ workAt depth r := by
  rw [workAt, List.filter_append, List.map_append]
  rfl

/-- What is done on top of a level is no work at that level. -/
theorem workAt_eq_nil {depth : Nat} {log : List Move} (h : ∀ m ∈ log, depth < m.frame.depth) :
    workAt depth log = [] := by
  rw [workAt, List.filter_eq_nil_iff.2, List.map_nil]
  intro m hm hwork
  have deeper := h m hm
  have level := (of_decide_eq_true hwork).1
  omega

/-- A piece of the log of a frame, from what is visited before it to what is visited after it, and
the work of the frame in it. -/
structure Piece (a : Analysis) (frame : Frame) (visited : Visited) (work : List Deed)
    (log : List Move) (visited' : Visited) : Prop where
  work_eq : workAt frame.depth log = work
  within : ∀ m ∈ log, m.Within frame
  covered : ∀ next, Resumes frame visited' next → a.Covered log next
  resumes : ∀ next, Resumes frame visited' next → Resumes frame visited (log ++ next)

namespace Piece

variable {a : Analysis} {frame : Frame} {visited inner visited' : Visited}

theorem nil : a.Piece frame visited [] [] visited where
  work_eq := rfl
  within _ hm := absurd hm List.not_mem_nil
  covered _ _ := .nil
  resumes _ h := h

theorem append {work work' : List Deed} {l r : List Move} (hl : a.Piece frame visited work l inner)
    (hr : a.Piece frame inner work' r visited') :
    a.Piece frame visited (work ++ work') (l ++ r) visited' where
  work_eq := by rw [workAt_append, hl.work_eq, hr.work_eq]
  within m hm := by
    rcases List.mem_append.1 hm with hm | hm
    · exact hl.within m hm
    · exact hr.within m hm
  covered next h := (hl.covered _ (hr.resumes next h)).append (hr.covered next h)
  resumes next h := by
    rw [List.append_assoc]
    exact hl.resumes _ (hr.resumes next h)

/-- A move of the frame itself. What is visited may change with it. -/
theorem own (deed : Deed) (hopens : deed ≠ .opens) (hcloses : deed ≠ .closes) :
    a.Piece frame visited ([deed].filter Deed.isWork) [⟨frame, visited, deed⟩] visited' where
  work_eq := by cases h : deed.isWork <;> simp [workAt, h]
  within m hm := by
    rw [List.mem_singleton.1 hm]
    exact .inl ⟨rfl, hopens, hcloses⟩
  covered next _ := .single hopens
  resumes next _ := ⟨deed, next, rfl⟩

end Piece

/-- From a list of blocks on, the log of a frame goes through the blocks of a traversal. -/
def Logs (a : Analysis) (frame : Frame) (visited : Visited) (blocks : List BlockId)
    (r : List Move × Visited) : Prop :=
  ∃ order, frame.function.Traverses visited blocks order r.2 ∧
    a.Piece frame visited (order.flatMap frame.function.work) r.1 r.2

theorem Logs.covers {a : Analysis} {fuel : Nat} {frame : Frame} {visited : Visited}
    (h : a.Logs frame visited [0] (a.logBlock fuel frame visited 0))
    (hf : frame.function ∈ a.program.functions) (hfuel : remaining a.program visited < fuel)
    (hpath : OnPath frame visited) (fresh : ∀ i, (frame.function.id, i) ∉ visited) :
    a.Covers frame visited (a.logBlock fuel frame visited 0).1
      (a.logBlock fuel frame visited 0).2 := by
  obtain ⟨order, htrav, hpiece⟩ := h
  have depthFirst := htrav.depthFirst fresh
  refine ⟨fresh, hpiece.within, ⟨order, hpiece.work_eq, depthFirst.nodup,
    htrav.mem_order_iff fresh, depthFirst⟩, ?_⟩
  rw [← a.walkBlock_eq_logBlock]
  exact a.walkBlock_fuel hf (Nat.lt_succ_of_le (remaining_le _ _)) hfuel hpath (.inl rfl)

/-- The moves of a frame that is opened are on top of the frame that opens it. -/
theorem Covers.depth_lt {a : Analysis} {parent child : Frame} {visited : Visited} {id : ValueId}
    {r : List Move × Visited} (h : a.Covers child visited r.1 r.2)
    (hopens : a.Opens parent id child) {m : Move} (hm : m ∈ framed child visited r) :
    parent.depth < m.frame.depth := by
  have hdepth := hopens.depth_eq
  rcases List.mem_cons.1 hm with rfl | hm
  · exact Nat.lt_of_lt_of_eq (Nat.lt_succ_self _) hdepth.symm
  rcases List.mem_append.1 hm with hm | hm
  · rcases h.within m hm with ⟨hframe, -⟩ | hlt
    · rw [hframe]
      omega
    · omega
  · rw [List.mem_singleton.1 hm]
    exact Nat.lt_of_lt_of_eq (Nat.lt_succ_self _) hdepth.symm

/-- An instruction is run, and the frame that it opens, if any, is closed before the next move. -/
theorem piece_logInstr (a : Analysis) {frame : Frame} {visited : Visited} {id : ValueId}
    {enter : Frame → List Move × Visited}
    (children : ∀ child, a.child? frame visited id = some child → a.Opens frame id child ∧
      a.Logs child visited [0] (enter child) ∧
      a.Covers child visited (enter child).1 (enter child).2) :
    a.Piece frame visited [.runs id] (a.logInstr enter frame visited id) visited := by
  have run : a.Piece frame visited [.runs id] [⟨frame, visited, .runs id⟩] visited :=
    .own (.runs id) nofun nofun
  rw [logInstr]
  cases hchild : a.child? frame visited id with
  | none => exact run
  | some child =>
    obtain ⟨hopens, ⟨_, -, hpiece⟩, hcovers⟩ := children child hchild
    show a.Piece frame visited [.runs id]
      ([⟨frame, visited, .runs id⟩] ++ framed child visited (enter child)) visited
    refine ⟨?_, fun m hm => ?_, fun next hnext => ?_, fun next _ => ⟨_, _, rfl⟩⟩
    · rw [workAt_append, run.work_eq, workAt_eq_nil fun m hm => hcovers.depth_lt hopens hm]
      rfl
    · rcases List.mem_append.1 hm with hm | hm
      · exact run.within m hm
      · exact .inr (hcovers.depth_lt hopens hm)
    · exact .framed hopens hcovers (hpiece.covered _ ⟨_, _, rfl⟩) hnext

theorem piece_instrs (a : Analysis) {fuel : Nat} {frame : Frame} {visited : Visited}
    (hfuel : remaining a.program visited < fuel) (h : OnPath frame visited)
    (h0 : (frame.function.id, 0) ∈ visited)
    (step : ∀ id child, a.Opens frame id child →
      a.Logs child visited [0] (a.logBlock fuel child visited 0)) (ids : List ValueId) :
    a.Piece frame visited (ids.map .runs)
      (ids.flatMap (a.logInstr (fun child => a.logBlock fuel child visited 0) frame visited))
      visited := by
  induction ids with
  | nil => exact .nil
  | cons id rest ih =>
    rw [List.flatMap_cons]
    refine Piece.append (a.piece_logInstr fun child hchild => ?_) ih
    have hopens := (a.child?_eq_some_iff h h0 id child).1 hchild
    have logs := step id child hopens
    have covers := logs.covers hopens.mem_functions hfuel (h.opened h0 hopens.below_eq)
      fun i hi => hopens.id_notMem (h.active _ hi)
    exact ⟨hopens, logs, covers⟩

theorem logAll_logs (a : Analysis) {fuel : Nat} {frame : Frame}
    (step : ∀ visited block, remaining a.program visited < fuel → OnPath frame visited →
      (frame.function.id, 0) ∈ visited →
      a.Logs frame visited [block] (a.logBlock fuel frame visited block))
    {visited : Visited} (hfuel : remaining a.program visited < fuel) (h : OnPath frame visited)
    (h0 : (frame.function.id, 0) ∈ visited) (blocks : List BlockId) :
    a.Logs frame visited blocks (logAll (a.logBlock fuel frame) visited blocks) := by
  induction blocks generalizing visited with
  | nil => exact ⟨[], .nil visited, .nil⟩
  | cons block rest ih =>
    obtain ⟨order, htrav, hpiece⟩ := step visited block hfuel h h0
    obtain ⟨order', htrav', hpiece'⟩ := ih
      (Nat.lt_of_le_of_lt (remaining_mono a.program htrav.subset) hfuel)
      (h.mono htrav.subset fun _ hp => htrav.own hp) (htrav.subset h0)
    refine ⟨order ++ order', htrav.append htrav', ?_⟩
    rw [List.flatMap_append]
    exact hpiece.append hpiece'

theorem logBlock_logs (a : Analysis) {fuel : Nat} {frame : Frame} {visited : Visited}
    {block : BlockId} (hf : frame.function ∈ a.program.functions)
    (hfuel : remaining a.program visited < fuel) (h : OnPath frame visited)
    (h0 : block = 0 ∨ (frame.function.id, 0) ∈ visited) :
    a.Logs frame visited [block] (a.logBlock fuel frame visited block) := by
  induction fuel generalizing frame visited block with
  | zero => exact absurd hfuel (Nat.not_lt_zero _)
  | succ fuel ih =>
    have tried (visited' : Visited) :
        a.Piece frame visited [] [⟨frame, visited, .tries block⟩] visited' :=
      .own (.tries block) nofun nofun
    by_cases hv : (frame.function.id, block) ∈ visited
    · rw [a.logBlock_again fuel frame hv]
      exact ⟨[], .again hv (.nil _), tried _⟩
    cases hb : frame.function.block? block with
    | none =>
      rw [a.logBlock_missing fuel frame hv hb]
      exact ⟨[], .missing hv hb (.nil _), tried _⟩
    | some b =>
      have less := Nat.lt_of_lt_of_le (remaining_cons_lt (mem_blockKeys hf hb) hv)
        (Nat.le_of_lt_succ hfuel)
      have path := h.cons block
      have start := first_mem_cons h0
      obtain ⟨order, htrav, hsuccs⟩ := a.logAll_logs
        (fun _ _ hn hp hz => ih hf hn hp (.inr hz)) less path start b.succs
      have entered : a.Piece frame ((frame.function.id, block) :: visited) [.enters block]
          [⟨frame, (frame.function.id, block) :: visited, .enters block⟩]
          ((frame.function.id, block) :: visited) := .own (.enters block) nofun nofun
      have instrs := a.piece_instrs less path start (fun _ _ hopens =>
        ih hopens.mem_functions less (path.opened start hopens.below_eq) (.inl rfl)) b.instrs
      rw [a.logBlock_enter fuel frame hv hb]
      refine ⟨block :: order ++ [], .enter hv hb htrav (.nil _), ?_⟩
      have all := (tried _).append (entered.append (instrs.append hsuccs))
      rw [List.append_nil, List.flatMap_cons, Function.work, hb]
      exact all

/-- The walk gives what the moves of its log report. Whenever a frame is opened in the log, none of its
blocks is visited; before the frame is closed its blocks are covered; and the frame that opened it, if
any, then goes on with what was visited when it did. -/
theorem frames_cover_blocks (a : Analysis) :
    a.visits = a.reports a.log ∧
    ∀ before frame visited rest, a.log = before ++ ⟨frame, visited, .opens⟩ :: rest →
      ∃ moves visited' after, rest = moves ++ ⟨frame, visited', .closes⟩ :: after ∧
        a.Covers frame visited moves visited' ∧
        ((before = [] ∧ after = []) ∨ ∃ parent id earlier,
          before = earlier ++ [⟨parent, visited, .runs id⟩] ∧ a.Opens parent id frame ∧
          Resumes parent visited after) := by
  refine ⟨a.visits_eq_reports, fun before frame visited rest hsplit => ?_⟩
  cases hmain : a.program.main? with
  | none =>
    rw [log, hmain] at hsplit
    simp at hsplit
  | some main =>
    rw [log, hmain] at hsplit
    have hf : (Frame.entry main).function ∈ a.program.functions := List.mem_of_find?_eq_some hmain
    have hfuel := Nat.lt_succ_of_le (remaining_le a.program [])
    have hpath : OnPath (.entry main) [] := onPath_entered (.entry main)
    have logs := a.logBlock_logs hf hfuel hpath (.inl rfl)
    have covers := logs.covers hf hfuel hpath fun _ => List.not_mem_nil
    cases before with
    | nil =>
      cases hsplit
      exact ⟨_, _, [], rfl, covers, .inl ⟨rfl, rfl⟩⟩
    | cons first before =>
      obtain ⟨rfl, hmoves⟩ := List.cons.inj hsplit
      obtain ⟨_, -, hpiece⟩ := logs
      have inside := (hpiece.covered [_] ⟨.closes, [], rfl⟩).append (.closes _ _)
      obtain ⟨parent, id, earlier, moves, visited', after, rfl, hopens, hrest, hcovers, hresumes⟩ :=
        inside before frame visited rest hmoves
      rw [List.append_nil] at hrest
      exact ⟨moves, visited', after, hrest, hcovers, .inr ⟨parent, id, _ :: earlier, rfl, hopens,
        hresumes⟩⟩

/-- A program with loops and with a successor that does not exist. A function is called from two
blocks, and calls the entry function in turn. -/
def looped : Analysis where
  service := "a"
  settings := .default
  program := {
    packages := []
    methodSets := .empty
    functions := [
      { Function.declared 0 "a" "main" "main" with
        values := [
          ⟨"t0", "", some ⟨"main.go", 5⟩, .call ⟨.static 1, []⟩⟩,
          ⟨"t1", "", some ⟨"main.go", 6⟩, .call ⟨.static 1, []⟩⟩]
        blocks := [⟨0, [], [2, 1, 9]⟩, ⟨1, [1], [0]⟩, ⟨2, [0], [1]⟩] },
      { Function.declared 1 "a" "main" "step" with
        values := [⟨"t0", "", some ⟨"main.go", 12⟩, .call ⟨.static 0, []⟩⟩]
        blocks := [⟨0, [], [1, 0]⟩, ⟨1, [0], [0]⟩] }] }

/-- The function is covered again when it is opened from the second block, after three blocks of the
entry function were visited in depth-first order. -/
theorem looped_covered :
    workAt 0 looped.log = [.enters 0, .enters 2, .runs 0, .enters 1, .runs 1] ∧
    ∃ before frame rest, frame.function.id = 1 ∧
      looped.log = before ++ ⟨frame, [(0, 1), (0, 2), (0, 0)], .opens⟩ :: rest ∧
      ∃ moves visited' after, rest = moves ++ ⟨frame, visited', .closes⟩ :: after ∧
        looped.Covers frame [(0, 1), (0, 2), (0, 0)] moves visited' := by
  have opened : ∃ m ∈ looped.log, m.frame.function.id = 1 ∧
      m.visited = [(0, 1), (0, 2), (0, 0)] ∧ m.deed = .opens := by decide
  obtain ⟨⟨frame, _, _⟩, hm, hid, rfl, rfl⟩ := opened
  obtain ⟨before, rest, hsplit⟩ := List.append_of_mem hm
  obtain ⟨moves, visited', after, hrest, hcovers, -⟩ :=
    (frames_cover_blocks looped).2 before frame _ rest hsplit
  exact ⟨by decide, before, frame, rest, hid, hsplit, moves, visited', after, hrest, hcovers⟩

end Analysis

end ServiceGraph
