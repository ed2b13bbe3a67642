import Mathlib.Data.Finset.Card
import Mathlib.Logic.Relation
import ServiceGraph.Proofs.Walk.Denotation

namespace ServiceGraph.Function

open Relation

variable {f : Function} {id x y : ValueId}

/-- A value is a conversion of another one, or an interface that holds it. -/
def Wraps (f : Function) (id x : ValueId) : Prop :=
  f.kind? id = some (.makeInterface x) ∨ f.kind? id = some (.convert x)

theorem wraps_iff : f.Wraps id x ↔ f.unbox? id = some x := by
  rw [Wraps, unbox?, kind?]
  cases f.value? id with
  | none => simp
  | some v => cases hk : v.kind <;> simp [hk]

theorem unbox?_eq_none_iff : f.unbox? id = none ↔ ∀ x, ¬ f.Wraps id x := by
  simp only [wraps_iff, Option.eq_none_iff_forall_ne_some, ne_eq]

theorem Wraps.unique (h : f.Wraps id x) (h' : f.Wraps id y) : x = y := by
  rw [wraps_iff] at h h'
  exact Option.some.inj (h.symm.trans h')

/-- The value where the search stands after `steps` steps. -/
def unboxed (f : Function) : (steps : Nat) → ValueId → ValueId
  | 0, id => id
  | steps + 1, id =>
    match f.unbox? (f.unboxed steps id) with
    | some x => x
    | none => f.unboxed steps id

theorem wraps_unboxed {n : Nat} (h : f.unbox? (f.unboxed n id) ≠ none) :
    f.Wraps (f.unboxed n id) (f.unboxed (n + 1) id) := by
  obtain ⟨x, hx⟩ := Option.ne_none_iff_exists'.1 h
  rw [wraps_iff, unboxed, hx]

theorem reaches_unboxed (f : Function) (id : ValueId) (n : Nat) :
    ReflTransGen f.Wraps id (f.unboxed n id) := by
  induction n with
  | zero => exact .refl
  | succ n ih =>
    cases h : f.unbox? (f.unboxed n id) with
    | none =>
      rw [unboxed, h]
      exact ih
    | some x => exact ih.tail (wraps_unboxed (by simp [h]))

/-- As long as the search goes on, a later value is reached from an earlier one. -/
theorem transGen_unboxed {n k : Nat} (h : ∀ i < n + k + 1, f.unbox? (f.unboxed i id) ≠ none) :
    TransGen f.Wraps (f.unboxed n id) (f.unboxed (n + k + 1) id) := by
  induction k with
  | zero => exact .single (wraps_unboxed (h n (by omega)))
  | succ k ih =>
    have hstep := wraps_unboxed (h (n + k + 1) (by omega))
    exact (ih fun i hi => h i (by omega)).tail hstep

theorem lt_length_of_unbox? (h : f.unbox? id ≠ none) : id.toNat < f.values.length := by
  by_contra hlt
  have hv : f.value? id = none := List.getElem?_eq_none (Nat.le_of_not_lt hlt)
  apply h
  rw [unbox?, hv]
  rfl

/-- A search that is not over after as many steps as there are values has come to a value twice. -/
theorem exists_cycle (h : ∀ n ≤ f.values.length, f.unbox? (f.unboxed n id) ≠ none) :
    ∃ x, ReflTransGen f.Wraps id x ∧ TransGen f.Wraps x x := by
  have values : ∀ n ∈ Finset.range (f.values.length + 1),
      (f.unboxed n id).toNat ∈ Finset.range f.values.length := by
    intro n hn
    have hle : n ≤ f.values.length := Nat.le_of_lt_succ (Finset.mem_range.1 hn)
    exact Finset.mem_range.2 (lt_length_of_unbox? (h n hle))
  obtain ⟨i, hi, j, hj, hne, heq⟩ :=
    Finset.exists_ne_map_eq_of_card_lt_of_maps_to (by simp) values
  rw [Finset.mem_range] at hi hj
  -- the two places are alike, so the earlier one is called `i`
  wlog hlt : i < j generalizing i j
  · exact this j hj i hi hne.symm heq.symm (by omega)
  obtain ⟨k, rfl⟩ := Nat.exists_eq_add_of_lt hlt
  have hcycle : TransGen f.Wraps (f.unboxed i id) (f.unboxed (i + k + 1) id) :=
    transGen_unboxed fun m hm => h m (by omega)
  rw [← UInt32.toNat_inj.1 heq] at hcycle
  exact ⟨f.unboxed i id, f.reaches_unboxed id i, hcycle⟩

theorem unboxes_unboxed {n : Nat} (h : f.unbox? (f.unboxed n id) = none) :
    f.Unboxes id (f.unboxed n id) := by
  have hreach := f.reaches_unboxed id n
  generalize f.unboxed n id = y at h hreach
  induction hreach using ReflTransGen.head_induction_on with
  | refl => exact .self h
  | head hstep _ ih => exact .step (wraps_iff.1 hstep) ih

namespace Unboxes

theorem not_wraps (h : f.Unboxes id y) : ∀ x, ¬ f.Wraps y x := by
  induction h with
  | self hid => exact unbox?_eq_none_iff.1 hid
  | step _ _ ih => exact ih

theorem of_wraps (h : f.Unboxes id y) (hx : f.Wraps id x) : f.Unboxes x y := by
  cases h with
  | self hid => exact absurd hx (unbox?_eq_none_iff.1 hid x)
  | step hid hrest =>
    have heq := hx.unique (wraps_iff.2 hid)
    rw [heq]
    exact hrest

theorem of_reaches (h : f.Unboxes id y) (hx : ReflTransGen f.Wraps id x) : f.Unboxes x y := by
  induction hx with
  | refl => exact h
  | tail _ hstep ih => exact ih.of_wraps hstep

/-- A search that ends does not start on a cycle. The induction is on its steps: each of them stays on
the cycle, and the last value wraps nothing. -/
theorem not_cycle (h : f.Unboxes id y) : ¬ TransGen f.Wraps id id := by
  induction h with
  | self hid =>
    intro hcycle
    obtain ⟨x, hstep, -⟩ := TransGen.head'_iff.1 hcycle
    exact unbox?_eq_none_iff.1 hid x hstep
  | step hid _ ih =>
    intro hcycle
    obtain ⟨x, hstep, hback⟩ := TransGen.head'_iff.1 hcycle
    have heq := hstep.unique (wraps_iff.2 hid)
    rw [heq] at hstep hback
    exact ih (TransGen.tail' hback hstep)

end Unboxes

/-- The search for what a value wraps does not end if it wraps itself. -/
theorem underlying_of_wraps_self {f : Function} {id : ValueId} (h : f.Wraps id id) :
    f.underlying id = none := by
  cases hid : f.underlying id with
  | none => rfl
  | some y => exact absurd (.single h) (underlying_eq_some_iff.1 hid).not_cycle

/-- The search ends if and only if no value that it comes to lies on a cycle. Where it ends, it has
come after at most as many steps as there are values to one that wraps nothing. -/
theorem underlying_ends_iff (f : Function) (id : ValueId) :
    ((∃ y, f.underlying id = some y) ↔
      ∀ x, ReflTransGen f.Wraps id x → ¬ TransGen f.Wraps x x) ∧
    ∀ y, f.underlying id = some y ↔
      (∃ n ≤ f.values.length, f.unboxed n id = y) ∧ ∀ x, ¬ f.Wraps y x := by
  have acyclic : ∀ y, f.underlying id = some y →
      ∀ x, ReflTransGen f.Wraps id x → ¬ TransGen f.Wraps x x := by
    intro y hy x hx
    exact ((underlying_eq_some_iff.1 hy).of_reaches hx).not_cycle
  have ends : (∀ x, ReflTransGen f.Wraps id x → ¬ TransGen f.Wraps x x) →
      ∃ n ≤ f.values.length, f.underlying id = some (f.unboxed n id) := by
    intro hacyclic
    by_contra hnot
    push Not at hnot
    obtain ⟨x, hx, hcycle⟩ := exists_cycle fun n hn hend =>
      hnot n hn (underlying_eq_some_iff.2 (unboxes_unboxed hend))
    exact hacyclic x hx hcycle
  refine ⟨⟨?_, ?_⟩, fun y => ⟨?_, ?_⟩⟩
  · intro ⟨y, hy⟩
    exact acyclic y hy
  · intro hacyclic
    obtain ⟨n, -, hn⟩ := ends hacyclic
    exact ⟨f.unboxed n id, hn⟩
  · intro hy
    obtain ⟨n, hle, hn⟩ := ends (acyclic y hy)
    exact ⟨⟨n, hle, Option.some.inj (hn.symm.trans hy)⟩, (underlying_eq_some_iff.1 hy).not_wraps⟩
  · intro ⟨⟨n, _, hn⟩, hwraps⟩
    subst hn
    exact underlying_eq_some_iff.2 (unboxes_unboxed (unbox?_eq_none_iff.2 hwraps))

theorem variadic?_singleton {f : Function} {slice array v : ValueId} {value : Value}
    (hslice : f.value? slice = some value) (hkind : value.kind = .slice array)
    (hstores : f.elementStores array = [(0, v)]) : f.variadic? slice = some [v] := by
  rw [variadic?, hslice, Option.bind_eq_bind, Option.bind_some, hkind]
  simp [hstores]

/-- A function that formats a conversion of itself and calls the location it gets. -/
def selfConversion : Function :=
  { Function.declared 2 "example.com/svc/a" "main" "main" with
    values := [
      ⟨"c0", "string", none, .const (.string "http://%s/")⟩,
      ⟨"t0", "any", none, .convert 1⟩,
      ⟨"t1", "*[1]any", none, .alloc⟩,
      ⟨"c1", "int", none, .const (.int 0)⟩,
      ⟨"t2", "*any", none, .indexAddr 2 3⟩,
      ⟨"", "", none, .store 4 1⟩,
      ⟨"t3", "[]any", none, .slice 2⟩,
      ⟨"t4", "string", some ⟨"main.go", 4⟩, .call ⟨.static 1, [0, 6]⟩⟩,
      ⟨"t5", "", some ⟨"main.go", 5⟩, .call ⟨.static 0, [7]⟩⟩,
      ⟨"", "", none, .ret []⟩]
    blocks := [⟨0, [1, 2, 4, 5, 6, 7, 8, 9], []⟩] }

/-- The operand of the format wraps itself, so the search for what it wraps does not end. -/
theorem selfConversion_endless :
    selfConversion.variadic? 6 = some [1] ∧
      (∀ n, selfConversion.Wraps (selfConversion.unboxed n 1) 1) ∧
      ¬ ∃ y, selfConversion.underlying 1 = some y := by
  have hwraps : selfConversion.Wraps 1 1 := .inr rfl
  have hstands : ∀ n, selfConversion.unboxed n 1 = 1 := by
    intro n
    induction n with
    | zero => rfl
    | succ n ih => rw [unboxed, ih, wraps_iff.1 hwraps]
  have hstores : selfConversion.elementStores 2 = [(0, 1)] := by decide
  refine ⟨variadic?_singleton rfl rfl hstores, ?_, ?_⟩
  · intro n
    rw [hstands n]
    exact hwraps
  · intro ⟨y, hy⟩
    cases (underlying_of_wraps_self hwraps).symm.trans hy

end ServiceGraph.Function
