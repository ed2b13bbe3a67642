import ServiceGraph.Proofs.Walk.Run

namespace ServiceGraph.Analysis

/-- What the walk does in a frame. It tries a block when it comes to it, and enters the block if that
exists and is not visited yet. -/
inductive Deed where
  | opens
  | tries (block : BlockId)
  | enters (block : BlockId)
  | runs (instr : ValueId)
  | closes
  deriving DecidableEq

structure Move where
  frame : Frame
  visited : Visited
  deed : Deed
  deriving DecidableEq

/-- The moves of a frame that is opened when some blocks are visited, from the moves in between and
what is visited after them. -/
def framed (frame : Frame) (visited : Visited) (r : List Move × Visited) : List Move :=
  ⟨frame, visited, .opens⟩ :: (r.1 ++ [⟨frame, r.2, .closes⟩])

/-- The moves at an instruction, where `enter` gives those of a frame that it opens. -/
def logInstr (a : Analysis) (enter : Frame → List Move × Visited) (frame : Frame)
    (visited : Visited) (id : ValueId) : List Move :=
  ⟨frame, visited, .runs id⟩ ::
    ((a.child? frame visited id).map fun child => framed child visited (enter child)).getD []

/-- The moves from several blocks on, one after the other. -/
def logAll (next : Visited → BlockId → List Move × Visited) (visited : Visited) :
    List BlockId → List Move × Visited
  | [] => ([], visited)
  | block :: rest =>
    let first := next visited block
    let others := logAll next first.2 rest
    (first.1 ++ others.1, others.2)

/-- The moves from a block on, and what is visited by then. -/
def logBlock (a : Analysis) : (fuel : Nat) → Frame → Visited → BlockId → List Move × Visited
  | 0, _, visited, _ => ([], visited)
  | fuel + 1, frame, visited, block =>
    let tried : Move := ⟨frame, visited, .tries block⟩
    if visited.contains (frame.function.id, block) then ([tried], visited)
    else
      let visited := (frame.function.id, block) :: visited
      match frame.function.block? block with
      | none => ([tried], visited)
      | some b =>
        let enter (child : Frame) : List Move × Visited := a.logBlock fuel child visited 0
        let instrs := b.instrs.flatMap (a.logInstr enter frame visited)
        let rest := logAll (a.logBlock fuel frame) visited b.succs
        (tried :: ⟨frame, visited, .enters block⟩ :: (instrs ++ rest.1), rest.2)

/-- All moves from the entry of the program. -/
def log (a : Analysis) : List Move :=
  match a.program.main? with
  | none => []
  | some main =>
    framed (.entry main) [] (a.logBlock (blockCount a.program + 1) (.entry main) [] 0)

/-- The visits that are reported at a move. -/
def reportAt (a : Analysis) (m : Move) : List Visit :=
  match m.deed with
  | .runs id => (a.report? m.frame id).toList
  | _ => []

def reports (a : Analysis) (log : List Move) : List Visit := log.flatMap a.reportAt

section Unfolding

variable (a : Analysis) (fuel : Nat) (frame : Frame) {visited : Visited} {block : BlockId}

theorem logBlock_again (h : (frame.function.id, block) ∈ visited) :
    a.logBlock (fuel + 1) frame visited block = ([⟨frame, visited, .tries block⟩], visited) := by
  rw [logBlock, if_pos (List.contains_iff_mem.2 h)]

theorem logBlock_missing (h : (frame.function.id, block) ∉ visited)
    (hb : frame.function.block? block = none) :
    a.logBlock (fuel + 1) frame visited block =
      ([⟨frame, visited, .tries block⟩], (frame.function.id, block) :: visited) := by
  rw [logBlock, if_neg (fun hc => h (List.contains_iff_mem.1 hc)), hb]

theorem logBlock_enter {b : Block} (h : (frame.function.id, block) ∉ visited)
    (hb : frame.function.block? block = some b) :
    let visited' := (frame.function.id, block) :: visited
    a.logBlock (fuel + 1) frame visited block =
      (⟨frame, visited, .tries block⟩ :: ⟨frame, visited', .enters block⟩ ::
        (b.instrs.flatMap (a.logInstr (fun child => a.logBlock fuel child visited' 0) frame visited')
          ++ (logAll (a.logBlock fuel frame) visited' b.succs).1),
        (logAll (a.logBlock fuel frame) visited' b.succs).2) := by
  intro visited'
  rw [logBlock, if_neg (fun hc => h (List.contains_iff_mem.1 hc)), hb]

end Unfolding

theorem reports_append (a : Analysis) (l r : List Move) :
    a.reports (l ++ r) = a.reports l ++ a.reports r := List.flatMap_append

theorem reports_framed (a : Analysis) (frame : Frame) (visited : Visited)
    (r : List Move × Visited) : a.reports (framed frame visited r) = a.reports r.1 := by
  show [] ++ a.reports (r.1 ++ [_]) = _
  rw [reports_append]
  exact List.append_nil _

theorem reports_logInstr (a : Analysis) (enter : Frame → List Move × Visited) (frame : Frame)
    (visited : Visited) (id : ValueId) :
    a.reports (a.logInstr enter frame visited id) =
      a.visitInstr (fun child => a.reports (enter child).1) frame visited id := by
  rw [visitInstr_eq]
  refine congrArg ((a.report? frame id).toList ++ ·) ?_
  cases a.child? frame visited id with
  | none => rfl
  | some child => exact a.reports_framed child visited (enter child)

theorem reports_instrs (a : Analysis) {enter : Frame → List Visit}
    {enter' : Frame → List Move × Visited} (h : ∀ child, enter child = a.reports (enter' child).1)
    (frame : Frame) (visited : Visited) (ids : List ValueId) :
    a.reports (ids.flatMap (a.logInstr enter' frame visited)) =
      ids.flatMap (a.visitInstr enter frame visited) := by
  rw [reports, List.flatMap_assoc, funext h]
  apply List.flatMap_congr
  intro id _
  exact a.reports_logInstr enter' frame visited id

theorem walkAll_eq_logAll (a : Analysis) {fuel : Nat} {frame : Frame}
    (step : ∀ visited block, a.walkBlock fuel frame visited block =
      (a.reports (a.logBlock fuel frame visited block).1, (a.logBlock fuel frame visited block).2))
    (visited : Visited) (blocks : List BlockId) :
    a.walkAll fuel frame visited blocks =
      (a.reports (logAll (a.logBlock fuel frame) visited blocks).1,
        (logAll (a.logBlock fuel frame) visited blocks).2) := by
  induction blocks generalizing visited with
  | nil => rfl
  | cons block rest ih =>
    rw [walkAll, step, ih, logAll, reports_append]

/-- The walk from a block on gives what its moves report. -/
theorem walkBlock_eq_logBlock (a : Analysis) (fuel : Nat) (frame : Frame) (visited : Visited)
    (block : BlockId) :
    a.walkBlock fuel frame visited block =
      (a.reports (a.logBlock fuel frame visited block).1,
        (a.logBlock fuel frame visited block).2) := by
  induction fuel generalizing frame visited block with
  | zero => rfl
  | succ fuel ih =>
    by_cases hv : (frame.function.id, block) ∈ visited
    · rw [a.walkBlock_again _ frame hv, a.logBlock_again fuel frame hv]
      rfl
    cases hb : frame.function.block? block with
    | none =>
      rw [a.walkBlock_missing fuel frame hv hb, a.logBlock_missing fuel frame hv hb]
      rfl
    | some b =>
      rw [a.walkBlock_enter fuel frame hv hb, a.logBlock_enter fuel frame hv hb,
        a.walkAll_eq_logAll (ih frame)]
      refine Prod.ext ?_ rfl
      show _ = a.reports (_ ++ _)
      rw [reports_append, a.reports_instrs fun child => congrArg Prod.fst (ih child _ 0)]

theorem visits_eq_reports (a : Analysis) : a.visits = a.reports a.log := by
  rw [visits, log]
  cases a.program.main? with
  | none => rfl
  | some main =>
    refine (congrArg Prod.fst (a.walkBlock_eq_logBlock _ _ _ _)).trans ?_
    exact (a.reports_framed _ _ _).symm

end ServiceGraph.Analysis
