import ServiceGraph.Walk.Visit

namespace ServiceGraph.Function

/-- Control can come to a block: it is the first one, or a successor of one that control can come to.
Successors that do not exist lead nowhere. -/
inductive Reaches (f : Function) : BlockId → Block → Prop where
  | first {b : Block} : f.block? 0 = some b → Reaches f 0 b
  | succ {i s : BlockId} {b c : Block} :
      Reaches f i b → s ∈ b.succs → f.block? s = some c → Reaches f s c

theorem Reaches.block?_eq {f : Function} {i : BlockId} {b : Block} (h : f.Reaches i b) :
    f.block? i = some b := by
  cases h with
  | first h => exact h
  | succ _ _ h => exact h

/-- The blocks that are gone through from a list of blocks on, in order, and what is visited before
and afterwards. -/
inductive Traverses (f : Function) : Visited → List BlockId → List BlockId → Visited → Prop where
  | nil (visited : Visited) : Traverses f visited [] [] visited
  | again {visited visited' : Visited} {i : BlockId} {rest order : List BlockId} :
      (f.id, i) ∈ visited → Traverses f visited rest order visited' →
      Traverses f visited (i :: rest) order visited'
  | missing {visited visited' : Visited} {i : BlockId} {rest order : List BlockId} :
      (f.id, i) ∉ visited → f.block? i = none →
      Traverses f ((f.id, i) :: visited) rest order visited' →
      Traverses f visited (i :: rest) order visited'
  | enter {visited inner visited' : Visited} {i : BlockId} {b : Block}
      {rest order order' : List BlockId} :
      (f.id, i) ∉ visited → f.block? i = some b →
      Traverses f ((f.id, i) :: visited) b.succs order inner →
      Traverses f inner rest order' visited' →
      Traverses f visited (i :: rest) (i :: order ++ order') visited'

namespace Traverses

variable {f : Function} {visited visited' : Visited} {start order : List BlockId}

theorem subset (h : Traverses f visited start order visited') : visited ⊆ visited' := by
  induction h with
  | nil => exact List.Subset.refl _
  | again _ _ ih => exact ih
  | missing _ _ _ ih => exact fun p hp => ih (List.mem_cons_of_mem _ hp)
  | enter _ _ _ _ inner outer => exact fun p hp => outer (inner (List.mem_cons_of_mem _ hp))

/-- A traversal adds no blocks of other functions. -/
theorem own (h : Traverses f visited start order visited') {p : FunctionId × BlockId}
    (hp : p ∈ visited') : p ∈ visited ∨ p.1 = f.id := by
  have step {visited : Visited} {i : BlockId} (hp : p ∈ (f.id, i) :: visited ∨ p.1 = f.id) :
      p ∈ visited ∨ p.1 = f.id := by
    rcases hp with hp | hp
    · rcases List.mem_cons.1 hp with rfl | hp
      · exact .inr rfl
      · exact .inl hp
    · exact .inr hp
  induction h with
  | nil => exact .inl hp
  | again _ _ ih => exact ih hp
  | missing _ _ _ ih => exact step (ih hp)
  | enter _ _ _ _ inner outer =>
    rcases outer hp with hp | hp
    · exact step (inner hp)
    · exact .inr hp

/-- There is one way to traverse blocks. -/
theorem unique (h : Traverses f visited start order visited') {order' : List BlockId}
    {visited'' : Visited} (h' : Traverses f visited start order' visited'') :
    order = order' ∧ visited' = visited'' := by
  induction h generalizing order' visited'' with
  | nil =>
    cases h'
    exact ⟨rfl, rfl⟩
  | again hv _ ih =>
    cases h' with
    | again _ rest => exact ih rest
    | missing hn => exact absurd hv hn
    | enter hn => exact absurd hv hn
  | missing hn hb _ ih =>
    cases h' with
    | again hv => exact absurd hv hn
    | missing _ _ rest => exact ih rest
    | enter _ hb' =>
      rw [hb] at hb'
      cases hb'
  | enter hn hb _ _ inner outer =>
    cases h' with
    | again hv => exact absurd hv hn
    | missing _ hb' =>
      rw [hb] at hb'
      cases hb'
    | enter _ hb' within rest =>
      rw [hb] at hb'
      cases hb'
      obtain ⟨rfl, rfl⟩ := inner within
      obtain ⟨rfl, rfl⟩ := outer rest
      exact ⟨rfl, rfl⟩

/-- Traversals one after the other. -/
theorem append {inner : Visited} {start' order' : List BlockId}
    (h : Traverses f visited start order inner) (h' : Traverses f inner start' order' visited') :
    Traverses f visited (start ++ start') (order ++ order') visited' := by
  induction h with
  | nil => exact h'
  | again hv _ ih => exact .again hv (ih h')
  | missing hv hb _ ih => exact .missing hv hb (ih h')
  | enter hv hb inner _ _ ih =>
    rw [List.cons_append, List.append_assoc]
    exact .enter hv hb inner (ih h')

theorem visited_of_mem (h : Traverses f visited start order visited') {i : BlockId}
    (hi : i ∈ start) : (f.id, i) ∈ visited' := by
  induction h with
  | nil => cases hi
  | again hv rest ih =>
    rcases List.mem_cons.1 hi with rfl | hi
    · exact rest.subset hv
    · exact ih hi
  | missing _ _ rest ih =>
    rcases List.mem_cons.1 hi with rfl | hi
    · exact rest.subset List.mem_cons_self
    · exact ih hi
  | enter _ _ inner outer _ ih =>
    rcases List.mem_cons.1 hi with rfl | hi
    · exact outer.subset (inner.subset List.mem_cons_self)
    · exact ih hi

/-- A block becomes visited by being gone through, unless it does not exist. -/
theorem mem_order_of_visited (h : Traverses f visited start order visited') {i : BlockId} {b : Block}
    (hb : f.block? i = some b) (hi : (f.id, i) ∈ visited') : (f.id, i) ∈ visited ∨ i ∈ order := by
  induction h with
  | nil => exact .inl hi
  | again _ _ ih => exact ih hi
  | @missing _ _ j _ _ _ hj _ ih =>
    rcases ih hi with h | h
    · rcases List.mem_cons.1 h with h | h
      · obtain rfl : i = j := (Prod.mk.inj h).2
        rw [hb] at hj
        cases hj
      · exact .inl h
    · exact .inr h
  | @enter _ _ _ j _ _ order order' _ _ _ _ inner outer =>
    rcases outer hi with h | h
    · rcases inner h with h | h
      · rcases List.mem_cons.1 h with h | h
        · obtain rfl : i = j := (Prod.mk.inj h).2
          exact .inr List.mem_cons_self
        · exact .inl h
      · exact .inr (List.mem_cons_of_mem _ (List.mem_append_left _ h))
    · exact .inr (List.mem_cons_of_mem _ (List.mem_append_right _ h))

/-- When a traversal is over, nothing is left to do behind the blocks that it went through. -/
theorem succ_visited (h : Traverses f visited start order visited') {i s : BlockId} {b : Block}
    (hi : i ∈ order) (hb : f.block? i = some b) (hs : s ∈ b.succs) : (f.id, s) ∈ visited' := by
  induction h with
  | nil => cases hi
  | again _ _ ih => exact ih hi
  | missing _ _ _ ih => exact ih hi
  | enter _ hc inner outer innerIh outerIh =>
    rcases List.mem_cons.1 hi with rfl | hi
    · rw [hb] at hc
      cases hc
      exact outer.subset (inner.visited_of_mem hs)
    · rcases List.mem_append.1 hi with hi | hi
      · exact outer.subset (innerIh hi)
      · exact outerIh hi

theorem reaches (h : Traverses f visited start order visited')
    (hstart : ∀ i ∈ start, ∀ b, f.block? i = some b → f.Reaches i b) {i : BlockId}
    (hi : i ∈ order) : ∃ b, f.Reaches i b := by
  induction h with
  | nil => cases hi
  | again _ _ ih => exact ih (fun j hj => hstart j (List.mem_cons_of_mem _ hj)) hi
  | missing _ _ _ ih => exact ih (fun j hj => hstart j (List.mem_cons_of_mem _ hj)) hi
  | enter _ hb _ _ inner outer =>
    have here := hstart _ List.mem_cons_self _ hb
    rcases List.mem_cons.1 hi with rfl | hi
    · exact ⟨_, here⟩
    · rcases List.mem_append.1 hi with hi | hi
      · exact inner (fun s hs c hc => .succ here hs hc) hi
      · exact outer (fun j hj => hstart j (List.mem_cons_of_mem _ hj)) hi

/-- From the first block on, exactly the blocks that control can come to are gone through. -/
theorem mem_order_iff (h : Traverses f visited [0] order visited')
    (fresh : ∀ i, (f.id, i) ∉ visited) (i : BlockId) : i ∈ order ↔ ∃ b, f.Reaches i b := by
  constructor
  · intro hi
    refine h.reaches (fun j hj b hb => ?_) hi
    obtain rfl := List.mem_singleton.1 hj
    exact .first hb
  · rintro ⟨b, hb⟩
    -- The induction follows control: what it comes to next was seen behind a block gone through.
    have seen : (f.id, i) ∈ visited' := by
      induction hb with
      | first _ => exact h.visited_of_mem List.mem_cons_self
      | succ before hs _ ih =>
        rcases h.mem_order_of_visited before.block?_eq ih with hv | hv
        · exact absurd hv (fresh _)
        · exact h.succ_visited hv before.block?_eq hs
    rcases h.mem_order_of_visited hb.block?_eq seen with hv | hv
    · exact absurd hv (fresh i)
    · exact hv

end Traverses

end ServiceGraph.Function
