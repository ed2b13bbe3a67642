import ServiceGraph.Proofs.Walk.Blocks

namespace ServiceGraph

/-- An element of a list made of two parts stands in one of them. -/
theorem append_eq_append_cons {α : Type} {l r before after : List α} {x : α}
    (h : l ++ r = before ++ x :: after) :
    (∃ mid, l = before ++ x :: mid ∧ after = mid ++ r) ∨
      ∃ mid, before = l ++ mid ∧ r = mid ++ x :: after := by
  rcases List.append_eq_append_iff.1 h with ⟨mid, hbefore, hr⟩ | ⟨mid, hl, hafter⟩
  · exact .inr ⟨mid, hbefore, hr⟩
  · cases mid with
    | nil =>
      rw [List.append_nil] at hl
      exact .inr ⟨[], by rw [hl, List.append_nil], hafter.symm⟩
    | cons y mid =>
      cases hafter
      exact .inl ⟨mid, hl, rfl⟩

theorem nodup_of_split {α : Type} {l : List α}
    (h : ∀ before x after, l = before ++ x :: after → x ∉ before) : l.Nodup := by
  induction l with
  | nil => exact List.nodup_nil
  | cons y l ih =>
    refine List.nodup_cons.2 ⟨fun hy => ?_, ih fun before x after hl hx => ?_⟩
    · obtain ⟨before, after, rfl⟩ := List.append_of_mem hy
      exact h (y :: before) y after rfl List.mem_cons_self
    · exact h (y :: before) x after (by rw [hl, List.cons_append]) (List.mem_cons_of_mem _ hx)

namespace Function

def succsOf (f : Function) (i : BlockId) : List BlockId := ((f.block? i).map (·.succs)).getD []

/-- The first block of some that exists and is not listed. -/
def fresh? (f : Function) (listed blocks : List BlockId) : Option BlockId :=
  blocks.find? fun i => (f.block? i).isSome ∧ i ∉ listed

/-- The first successor that is not listed of the latest block that has one, or else the first such
block of those to start with. -/
def choice? (f : Function) (listed latest start : List BlockId) : Option BlockId :=
  (latest.reverse.findSome? fun i => f.fresh? listed (f.succsOf i)).or (f.fresh? listed start)

/-- The block that comes after those listed in depth-first order. -/
def next? (f : Function) (listed : List BlockId) : Option BlockId := f.choice? listed listed [0]

/-- The depth-first order of the blocks of a function. -/
structure DepthFirst (f : Function) (order : List BlockId) : Prop where
  next : ∀ before i after, order = before ++ i :: after → f.next? before = some i
  complete : f.next? order = none

variable {f : Function} {listed listed' blocks start : List BlockId}

theorem notMem_of_fresh? {i : BlockId} (h : f.fresh? listed blocks = some i) : i ∉ listed := by
  have found := List.find?_some h
  exact (of_decide_eq_true found).2

theorem fresh?_cons_skip {i : BlockId} (h : ∀ b, f.block? i = some b → i ∈ listed) :
    f.fresh? listed (i :: blocks) = f.fresh? listed blocks := by
  refine List.find?_cons_of_neg fun hfresh => ?_
  obtain ⟨hsome, hnew⟩ := of_decide_eq_true hfresh
  obtain ⟨b, hb⟩ := Option.isSome_iff_exists.1 hsome
  exact hnew (h b hb)

theorem fresh?_cons_take {i : BlockId} {b : Block} (hb : f.block? i = some b) (hi : i ∉ listed) :
    f.fresh? listed (i :: blocks) = some i := by
  refine List.find?_cons_of_pos (decide_eq_true ⟨?_, hi⟩)
  rw [hb]
  rfl

theorem fresh?_eq_none_mono (h : f.fresh? listed blocks = none) (hsub : listed ⊆ listed') :
    f.fresh? listed' blocks = none := by
  rw [fresh?, List.find?_eq_none] at h ⊢
  intro i hi hfresh
  obtain ⟨hsome, hnew⟩ := of_decide_eq_true hfresh
  exact h i hi (decide_eq_true ⟨hsome, fun hmem => hnew (hsub hmem)⟩)

theorem choice?_cons {i : BlockId} {latest : List BlockId} :
    f.choice? listed (i :: latest) start =
      (f.choice? listed latest (f.succsOf i)).or (f.fresh? listed start) := by
  rw [choice?, choice?, List.reverse_cons, List.findSome?_append, List.findSome?_singleton]

theorem choice?_start_skip {i : BlockId} {latest : List BlockId}
    (h : ∀ b, f.block? i = some b → i ∈ listed) :
    f.choice? listed latest (i :: start) = f.choice? listed latest start := by
  rw [choice?, fresh?_cons_skip h]
  rfl

/-- Blocks behind which nothing is left make no difference. -/
theorem choice?_skip {done latest : List BlockId} (h : f.choice? listed done [] = none) :
    f.choice? listed (done ++ latest) start = f.choice? listed latest start := by
  have nothing := (Option.or_eq_none_iff.1 h).1
  rw [choice?, List.reverse_append, List.findSome?_append, nothing, Option.or_none]
  rfl

theorem choice?_eq_none_mono {latest : List BlockId} (h : f.choice? listed latest start = none)
    (hsub : listed ⊆ listed') : f.choice? listed' latest start = none := by
  obtain ⟨hlatest, hstart⟩ := Option.or_eq_none_iff.1 h
  refine Option.or_eq_none_iff.2 ⟨?_, fresh?_eq_none_mono hstart hsub⟩
  rw [List.findSome?_eq_none_iff] at hlatest ⊢
  exact fun i hi => fresh?_eq_none_mono (hlatest i hi) hsub

theorem notMem_of_next? {i : BlockId} (h : f.next? listed = some i) : i ∉ listed := by
  rcases Option.or_eq_some_iff.1 h with h | ⟨-, h⟩
  · obtain ⟨k, -, hk⟩ := List.exists_of_findSome?_eq_some h
    exact notMem_of_fresh? hk
  · exact notMem_of_fresh? h

theorem DepthFirst.nodup {order : List BlockId} (h : f.DepthFirst order) : order.Nodup :=
  nodup_of_split fun before i after hsplit => notMem_of_next? (h.next before i after hsplit)

variable {visited visited' : Visited} {before order : List BlockId}

/-- The blocks of an order are chosen one after the other, until there is none to choose. -/
structure Chooses (f : Function) (before start order : List BlockId) : Prop where
  next : ∀ earlier i later, order = earlier ++ i :: later →
    f.choice? (before ++ earlier) earlier start = some i
  complete : f.choice? (before ++ order) order start = none

theorem Chooses.skip (h : Chooses f before start order) {i : BlockId}
    (hi : ∀ b, f.block? i = some b → i ∈ before) : Chooses f before (i :: start) order where
  next earlier j later hsplit := by
    rw [choice?_start_skip fun b hb => List.mem_append_left _ (hi b hb)]
    exact h.next earlier j later hsplit
  complete := by
    rw [choice?_start_skip fun b hb => List.mem_append_left _ (hi b hb)]
    exact h.complete

theorem Chooses.enter {i : BlockId} {b : Block} {order' : List BlockId}
    (hb : f.block? i = some b) (hi : i ∉ before) (inner : Chooses f (before ++ [i]) b.succs order)
    (outer : Chooses f (before ++ [i] ++ order) start order') :
    Chooses f before (i :: start) (i :: order ++ order') := by
  have hsuccs : f.succsOf i = b.succs := by rw [succsOf, hb]; rfl
  have shape (more : List BlockId) :
      before ++ (i :: order ++ more) = before ++ [i] ++ order ++ more := by simp
  -- once the successors of the block are gone through, nothing is left behind it
  have done (more : List BlockId) :
      f.choice? (before ++ [i] ++ order ++ more) (i :: order) [] = none := by
    rw [choice?_cons, hsuccs, Option.or_eq_none_iff]
    exact ⟨choice?_eq_none_mono inner.complete (List.subset_append_left _ _), rfl⟩
  have entered (more : List BlockId) (b : Block) (_ : f.block? i = some b) :
      i ∈ before ++ [i] ++ order ++ more := by simp
  constructor
  · intro earlier j later hsplit
    rcases append_eq_append_cons hsplit with ⟨mid, hfirst, -⟩ | ⟨mid, rfl, hlast⟩
    · cases earlier with
      | nil =>
        cases hfirst
        rw [List.append_nil]
        exact fresh?_cons_take hb hi
      | cons k earlier =>
        cases hfirst
        have chosen := inner.next earlier j mid rfl
        rw [List.append_assoc] at chosen
        rw [choice?_cons, hsuccs]
        exact Option.or_eq_some_iff.2 (.inl chosen)
    · rw [shape, choice?_skip (done mid), choice?_start_skip (entered mid)]
      exact outer.next mid j later hlast
  · rw [shape, choice?_skip (done order'), choice?_start_skip (entered order')]
    exact outer.complete

/-- Some blocks are those of a function that exist and are visited. -/
def Marks (f : Function) (visited : Visited) (listed : List BlockId) : Prop :=
  ∀ i b, f.block? i = some b → ((f.id, i) ∈ visited ↔ i ∈ listed)

theorem Marks.cons (h : Marks f visited before) (i : BlockId) :
    Marks f ((f.id, i) :: visited) (before ++ [i]) := by
  intro j b hb
  rw [List.mem_cons, List.mem_append, List.mem_singleton, h j b hb, Prod.mk.injEq, or_comm]
  simp

theorem Marks.missing (h : Marks f visited before) {i : BlockId} (hi : f.block? i = none) :
    Marks f ((f.id, i) :: visited) before := by
  intro j b hb
  have hne : j ≠ i := by
    rintro rfl
    rw [hi] at hb
    cases hb
  rw [List.mem_cons, ← h j b hb]
  exact or_iff_right fun heq => hne (Prod.mk.inj heq).2

namespace Traverses

theorem visited_of_mem_order (h : Traverses f visited start order visited') {i : BlockId}
    (hi : i ∈ order) : (f.id, i) ∈ visited' := by
  induction h with
  | nil => cases hi
  | again _ _ ih => exact ih hi
  | missing _ _ _ ih => exact ih hi
  | enter _ _ inner outer innerIh outerIh =>
    rcases List.mem_cons.1 hi with rfl | hi
    · exact outer.subset (inner.subset List.mem_cons_self)
    · rcases List.mem_append.1 hi with hi | hi
      · exact outer.subset (innerIh hi)
      · exact outerIh hi

theorem marks_order (h : Traverses f visited start order visited') (hbefore : Marks f visited before) :
    Marks f visited' (before ++ order) := by
  intro i b hb
  rw [List.mem_append, ← hbefore i b hb]
  constructor
  · exact h.mem_order_of_visited hb
  · rintro (hi | hi)
    · exact h.subset hi
    · exact h.visited_of_mem_order hi

/-- A traversal goes to the block that is chosen, as long as there is one. -/
theorem chooses (h : Traverses f visited start order visited') (hbefore : Marks f visited before) :
    Chooses f before start order := by
  induction h generalizing before with
  | nil =>
    refine ⟨fun earlier i later hsplit => ?_, rfl⟩
    simp at hsplit
  | again hv _ ih => exact (ih hbefore).skip fun b hb => (hbefore _ b hb).1 hv
  | missing _ hb _ ih =>
    refine (ih (hbefore.missing hb)).skip fun b hb' => ?_
    rw [hb] at hb'
    cases hb'
  | @enter _ _ _ i b _ _ _ hv hb inner _ innerIh outerIh =>
    have hinner := hbefore.cons i
    exact .enter hb (fun hi => hv ((hbefore i b hb).2 hi)) (innerIh hinner)
      (outerIh (inner.marks_order hinner))

/-- From the first block on, a traversal goes in depth-first order. -/
theorem depthFirst (h : Traverses f visited [0] order visited')
    (fresh : ∀ i, (f.id, i) ∉ visited) : f.DepthFirst order := by
  have none_listed : Marks f visited [] := fun i b _ =>
    ⟨fun hi => absurd hi (fresh i), fun hi => absurd hi List.not_mem_nil⟩
  have chosen := h.chooses none_listed
  exact ⟨chosen.next, chosen.complete⟩

end Traverses

end Function

end ServiceGraph
