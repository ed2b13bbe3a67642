import ServiceGraph.Source.Comment

namespace ServiceGraph

variable {α : Type}

/-- The subtree at the end of a path, which tells by their positions which children to go to. -/
def Tree.at? : List Nat → Tree α → Option (Tree α)
  | [], t => some t
  | i :: path, t => t.children[i]?.bind (Tree.at? path)

namespace Cursor

/-- The positions of the children through which the way from the root goes. -/
def way (above : List (Crumb α)) : List Nat := (above.map (·.left.length)).reverse

/-- The path from the root to a place. -/
def path (c : Cursor α) : List Nat := way c.above

theorem way_cons (crumb : Crumb α) (above : List (Crumb α)) (path : List Nat) :
    way (crumb :: above) ++ path = way above ++ crumb.left.length :: path := by
  rw [way, List.map_cons, List.reverse_cons, List.append_assoc]
  rfl

/-- From a place on, a scan comes to these places and then ends. -/
inductive Runs : Option (Cursor α) → List (Cursor α) → Prop where
  | done : Runs none []
  | place {c : Cursor α} {rest : List (Cursor α)} : Runs c.next? rest → Runs (some c) (c :: rest)

theorem scan_eq {β : Type} (found? : Tree α → Option β) (c : Cursor α) :
    c.scan found? = (found? c.focus).toList ++ (c.next?.map (scan found?)).getD [] := by
  rw [scan]
  split <;> simp [*]

theorem Runs.scan_eq_filterMap {β : Type} (found? : Tree α → Option β)
    {start : Option (Cursor α)} {places : List (Cursor α)} (h : Runs start places) :
    (start.map (scan found?)).getD [] = places.filterMap fun c => found? c.focus := by
  induction h with
  | done => rfl
  | @place c rest _ ih =>
    show c.scan found? = _
    rw [scan_eq, ih]
    cases hc : found? c.focus <;> simp [hc]

/-! The places in a subtree, in order, and that a scan comes to them one after the other. -/

mutual

/-- The places in a subtree below a way. -/
def within (above : List (Crumb α)) : Tree α → List (Cursor α)
  | .node l children => ⟨.node l children, above⟩ :: withinAll above l [] children

/-- The places in some children of a node, right of the others. -/
def withinAll (above : List (Crumb α)) (l : α) (left : List (Tree α)) :
    List (Tree α) → List (Cursor α)
  | [] => []
  | t :: right => within (⟨l, left, right⟩ :: above) t ++ withinAll above l (t :: left) right

end

mutual

/-- After the places in a subtree, a scan goes on where a climb from its root leads. -/
theorem runs_within (above : List (Crumb α)) (t : Tree α) {rest : List (Cursor α)}
    (h : Runs (climb? ⟨t, above⟩) rest) : Runs (some ⟨t, above⟩) (within above t ++ rest) :=
  match t with
  | .node l [] => by
    rw [within, withinAll]
    exact .place h
  | .node l (child :: right) => by
    rw [within, withinAll, List.cons_append, List.append_assoc]
    exact .place (runs_within _ child (runs_siblings above l [] child right h))

/-- After a child of a node come those right of it, and then what follows the node. -/
theorem runs_siblings (above : List (Crumb α)) (l : α) (left : List (Tree α)) (t : Tree α)
    (right : List (Tree α)) {rest : List (Cursor α)}
    (h : Runs (climb? ⟨.node l (left.reverse ++ t :: right), above⟩) rest) :
    Runs (climb? ⟨t, ⟨l, left, right⟩ :: above⟩) (withinAll above l (t :: left) right ++ rest) :=
  match right with
  | [] => by
    rw [climb?_last, withinAll]
    exact h
  | next :: right => by
    rw [climb?_sibling, withinAll, List.append_assoc]
    refine runs_within _ next (runs_siblings above l (t :: left) next right ?_)
    rw [List.reverse_cons, List.append_assoc]
    exact h

end

theorem runs_ofTree (t : Tree α) : Runs (some (ofTree t)) (within [] t) := by
  rw [← List.append_nil (within [] t)]
  refine runs_within [] t ?_
  rw [climb?_root]
  exact .done

mutual

theorem map_focus_within (above : List (Crumb α)) (t : Tree α) :
    (within above t).map focus = t.preorder :=
  match t with
  | .node l children => by
    rw [within, List.map_cons, map_focus_withinAll above l [] children, Tree.preorder]

theorem map_focus_withinAll (above : List (Crumb α)) (l : α) (left children : List (Tree α)) :
    (withinAll above l left children).map focus = Tree.preorderAll children :=
  match children with
  | [] => rfl
  | t :: right => by
    rw [withinAll, List.map_append, map_focus_within _ t,
      map_focus_withinAll above l (t :: left) right, Tree.preorderAll]

end

/-- A scan finds what is found in the subtrees in preorder. -/
theorem scan_ofTree {β : Type} (found? : Tree α → Option β) (t : Tree α) :
    (ofTree t).scan found? = t.preorder.filterMap found? := by
  have run : (ofTree t).scan found? = (within [] t).filterMap fun c => found? c.focus :=
    (runs_ofTree t).scan_eq_filterMap found?
  rw [run, ← map_focus_within [], List.filterMap_map]
  rfl

/-! The paths to the places in a subtree. -/

mutual

theorem path_of_mem_within {above : List (Crumb α)} {t : Tree α} {c : Cursor α}
    (h : c ∈ within above t) : ∃ p, c.path = way above ++ p ∧ t.at? p = some c.focus :=
  match t with
  | .node l children => by
    rw [within] at h
    rcases List.mem_cons.1 h with rfl | h
    · exact ⟨[], (List.append_nil _).symm, rfl⟩
    · obtain ⟨i, p, hpath, u, hu, hp⟩ := path_of_mem_withinAll h
      refine ⟨i :: p, ?_, Option.bind_eq_some_iff.2 ⟨u, hu, hp⟩⟩
      rw [hpath, List.length_nil, Nat.zero_add]

theorem path_of_mem_withinAll {above : List (Crumb α)} {l : α} {left children : List (Tree α)}
    {c : Cursor α} (h : c ∈ withinAll above l left children) :
    ∃ i p, c.path = way above ++ (left.length + i) :: p ∧
      ∃ u, children[i]? = some u ∧ u.at? p = some c.focus :=
  match children with
  | [] => absurd h List.not_mem_nil
  | t :: right => by
    rw [withinAll] at h
    rcases List.mem_append.1 h with h | h
    · obtain ⟨p, hpath, hp⟩ := path_of_mem_within h
      exact ⟨0, p, by rw [hpath, way_cons]; rfl, t, rfl, hp⟩
    · obtain ⟨i, p, hpath, u, hu, hp⟩ := path_of_mem_withinAll h
      refine ⟨i + 1, p, ?_, u, hu, hp⟩
      rw [hpath, List.length_cons, Nat.add_assoc, Nat.add_comm 1 i]

end

theorem within_subset_withinAll {children : List (Tree α)} {i : Nat} {u : Tree α}
    (h : children[i]? = some u) (above : List (Crumb α)) (l : α) (left : List (Tree α)) :
    ∃ crumb : Crumb α, crumb.left.length = left.length + i ∧
      within (crumb :: above) u ⊆ withinAll above l left children := by
  induction children generalizing i left with
  | nil => cases h
  | cons t right ih =>
    rw [withinAll]
    cases i with
    | zero =>
      cases h
      exact ⟨⟨l, left, right⟩, rfl, List.subset_append_left _ _⟩
    | succ i =>
      obtain ⟨crumb, hlength, hsubset⟩ := ih h (t :: left)
      refine ⟨crumb, ?_, List.subset_append_of_subset_right _ hsubset⟩
      rw [hlength, List.length_cons, Nat.add_assoc, Nat.add_comm 1 i]

theorem mem_within_of_at? {t s : Tree α} {p : List Nat} (h : t.at? p = some s)
    (above : List (Crumb α)) : ∃ c ∈ within above t, c.path = way above ++ p ∧ c.focus = s := by
  induction p generalizing t above with
  | nil =>
    cases h
    obtain ⟨l, children⟩ := s
    rw [within]
    exact ⟨_, List.mem_cons_self, (List.append_nil _).symm, rfl⟩
  | cons i p ih =>
    obtain ⟨l, children⟩ := t
    obtain ⟨u, hu, hs⟩ := Option.bind_eq_some_iff.1 h
    obtain ⟨crumb, hlength, hsubset⟩ := within_subset_withinAll hu above l []
    obtain ⟨c, hc, hpath, hfocus⟩ := ih hs (crumb :: above)
    rw [within]
    refine ⟨c, List.mem_cons_of_mem _ (hsubset hc), ?_, hfocus⟩
    rw [hpath, way_cons, hlength, List.length_nil, Nat.zero_add]

/-- There is a place for each path that leads to a subtree, and no other. -/
theorem mem_within_iff (above : List (Crumb α)) (t s : Tree α) (path : List Nat) :
    (∃ c ∈ within above t, c.path = path ∧ c.focus = s) ↔
      ∃ p, path = way above ++ p ∧ t.at? p = some s := by
  constructor
  · rintro ⟨c, hc, rfl, rfl⟩
    exact path_of_mem_within hc
  · rintro ⟨p, rfl, hp⟩
    exact mem_within_of_at? hp above

mutual

theorem pairwise_within (above : List (Crumb α)) (t : Tree α) :
    (within above t).Pairwise fun c d => c.path < d.path :=
  match t with
  | .node l children => by
    rw [within]
    refine List.pairwise_cons.2 ⟨fun d hd => ?_, pairwise_withinAll above l [] children⟩
    obtain ⟨i, p, hpath, _⟩ := path_of_mem_withinAll hd
    have longer : way above ++ [] < way above ++ (0 + i) :: p :=
      List.append_left_lt (List.nil_lt_cons _ _)
    rw [List.append_nil] at longer
    rw [hpath]
    exact longer

theorem pairwise_withinAll (above : List (Crumb α)) (l : α) (left children : List (Tree α)) :
    (withinAll above l left children).Pairwise fun c d => c.path < d.path :=
  match children with
  | [] => List.Pairwise.nil
  | t :: right => by
    rw [withinAll]
    refine List.pairwise_append.2 ⟨pairwise_within _ t, pairwise_withinAll _ l (t :: left) right,
      fun c hc d hd => ?_⟩
    obtain ⟨p, hp, _⟩ := path_of_mem_within hc
    obtain ⟨i, q, hq, _⟩ := path_of_mem_withinAll hd
    rw [hp, hq, way_cons]
    refine List.append_left_lt (List.cons_lt_cons_iff.2 (.inl ?_))
    show left.length < left.length + 1 + i
    omega

end

end Cursor

namespace Source

/-- Both scans of a syntax tree go to the next place until there is none. The places that they come
to on the way are those of the subtrees of the tree, once each and in the order of their paths, and
what they give is what they find there. -/
theorem scans_exhaustive (t : Node) : ∃ places : List (Cursor Label),
    Cursor.Runs (some (.ofTree t)) places ∧
      (places.map Cursor.path).Pairwise (· < ·) ∧
      (∀ path s, (∃ c ∈ places, c.path = path ∧ c.focus = s) ↔ t.at? path = some s) ∧
      places.map Cursor.focus = t.preorder ∧
      t.hints = places.filterMap (fun c => hint? c.focus) ∧
      ∀ service file,
        t.busCalls service file = places.filterMap fun c => Node.busCall? service file c.focus := by
  have run := Cursor.runs_ofTree t
  refine ⟨Cursor.within [] t, run, List.pairwise_map.2 (Cursor.pairwise_within [] t),
    fun path s => ?_, Cursor.map_focus_within [] t, run.scan_eq_filterMap hint?,
    fun service file => run.scan_eq_filterMap (Node.busCall? service file)⟩
  rw [Cursor.mem_within_iff]
  constructor
  · rintro ⟨p, rfl, hp⟩
    exact hp
  · exact fun hp => ⟨path, rfl, hp⟩

end Source

end ServiceGraph
