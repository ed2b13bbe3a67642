namespace ServiceGraph

inductive Tree (α : Type) where
  | node (label : α) (children : List (Tree α))

namespace Tree

variable {α : Type}

def label : Tree α → α
  | node l _ => l

def children : Tree α → List (Tree α)
  | node _ cs => cs

def leaf (l : α) : Tree α := node l []

mutual

/-- The number of nodes. -/
def size : Tree α → Nat
  | node _ cs => 1 + sizeAll cs

def sizeAll : List (Tree α) → Nat
  | [] => 0
  | t :: rest => t.size + sizeAll rest

end

mutual

/-- All subtrees, each before those in it, from left to right. -/
def preorder : Tree α → List (Tree α)
  | node l cs => node l cs :: preorderAll cs

def preorderAll : List (Tree α) → List (Tree α)
  | [] => []
  | t :: rest => t.preorder ++ preorderAll rest

end

end Tree

/-- A node on the way from the root to a place: its label, and its children left and right of the
one that the way goes through, the nearest first. -/
structure Crumb (α : Type) where
  label : α
  left : List (Tree α)
  right : List (Tree α)

/-- A place in a tree: the subtree there, and the way up to the root. -/
structure Cursor (α : Type) where
  focus : Tree α
  above : List (Crumb α)

namespace Cursor

variable {α : Type}

def ofTree (t : Tree α) : Cursor α := ⟨t, []⟩

def firstChild? (c : Cursor α) : Option (Cursor α) :=
  match c.focus with
  | .node _ [] => none
  | .node l (t :: rest) => some ⟨t, ⟨l, [], rest⟩ :: c.above⟩

def nextSibling? (c : Cursor α) : Option (Cursor α) :=
  match c.above with
  | ⟨l, left, t :: right⟩ :: above => some ⟨t, ⟨l, c.focus :: left, right⟩ :: above⟩
  | _ => none

def parent? (c : Cursor α) : Option (Cursor α) :=
  match c.above with
  | [] => none
  | ⟨l, left, right⟩ :: above => some ⟨.node l (left.reverse ++ c.focus :: right), above⟩

theorem length_above_of_parent? {c d : Cursor α} (h : c.parent? = some d) :
    d.above.length < c.above.length := by
  obtain ⟨focus, _ | ⟨crumb, above⟩⟩ := c
  · cases h
  · cases h
    exact Nat.lt_succ_self _

/-- The next sibling, or that of the nearest ancestor that has one. -/
def climb? (c : Cursor α) : Option (Cursor α) :=
  match c.nextSibling? with
  | some next => some next
  | none =>
    match _h : c.parent? with
    | some parent => parent.climb?
    | none => none
termination_by c.above.length
decreasing_by exact length_above_of_parent? ‹_›

theorem climb?_root (t : Tree α) : climb? ⟨t, []⟩ = none := by
  rw [climb?]
  rfl

theorem climb?_sibling (t next : Tree α) (l : α) (left right : List (Tree α))
    (above : List (Crumb α)) : climb? ⟨t, ⟨l, left, next :: right⟩ :: above⟩ =
      some ⟨next, ⟨l, t :: left, right⟩ :: above⟩ := by
  rw [climb?]
  rfl

theorem climb?_last (t : Tree α) (l : α) (left : List (Tree α)) (above : List (Crumb α)) :
    climb? ⟨t, ⟨l, left, []⟩ :: above⟩ = climb? ⟨.node l (left.reverse ++ [t]), above⟩ := by
  rw [climb?]
  rfl

/-- The place that follows. -/
def next? (c : Cursor α) : Option (Cursor α) :=
  match c.firstChild? with
  | some child => some child
  | none => c.climb?

/-- The number of nodes to the right of the way. -/
def behind : List (Crumb α) → Nat
  | [] => 0
  | crumb :: above => Tree.sizeAll crumb.right + behind above

/-- The number of nodes at this place and at those that follow. -/
def pending (c : Cursor α) : Nat := c.focus.size + behind c.above

/-- A climb leads to what is right of the way. -/
theorem pending_of_climb? {t : Tree α} {above : List (Crumb α)} {d : Cursor α}
    (h : climb? ⟨t, above⟩ = some d) : d.pending = behind above := by
  induction above generalizing t with
  | nil =>
    rw [climb?_root] at h
    cases h
  | cons crumb above ih =>
    obtain ⟨l, left, _ | ⟨next, right⟩⟩ := crumb
    · rw [climb?_last] at h
      rw [ih h, behind, Tree.sizeAll, Nat.zero_add]
    · rw [climb?_sibling] at h
      cases h
      rw [pending, behind, behind, Tree.sizeAll, Nat.add_assoc]

theorem pending_of_next? {c d : Cursor α} (h : c.next? = some d) : d.pending < c.pending := by
  obtain ⟨⟨l, _ | ⟨child, rest⟩⟩, above⟩ := c
  · have climbed : d.pending = behind above := pending_of_climb? h
    rw [climbed]
    simp only [pending, Tree.size]
    omega
  · cases h
    simp only [pending, behind, Tree.size, Tree.sizeAll]
    omega

/-- What is found at this place and at those that follow, in order. -/
def scan {β : Type} (found? : Tree α → Option β) (c : Cursor α) : List β :=
  (found? c.focus).toList ++
    match _h : c.next? with
    | some next => next.scan found?
    | none => []
termination_by c.pending
decreasing_by exact pending_of_next? ‹_›

end Cursor

end ServiceGraph
