import Mathlib.Tactic.ByContra
import ServiceGraph.Proofs.Walk.Denotation

namespace ServiceGraph.Function

variable {f g : Function} {array slice : ValueId} {es : List ValueId}

/-- A value stores `val` into an array; `index` stands for the position in it. -/
def StoresInto (f : Function) (array : ValueId) (store : Value) (index val : ValueId) : Prop :=
  ∃ addr, store.kind = .store addr val ∧ f.kind? addr = some (.indexAddr array index)

/-- A value stores `val` at the constant position `i` of an array. -/
def StoresConst (f : Function) (array : ValueId) (store : Value) (i : Int) (val : ValueId) : Prop :=
  ∃ index n, f.StoresInto array store index val ∧
    f.kind? index = some (.const (.int n)) ∧ n.toInt = i

theorem kind?_eq_some_iff {id : ValueId} {kind : ValueKind} :
    f.kind? id = some kind ↔ ∃ v, f.value? id = some v ∧ v.kind = kind := by
  rw [kind?, Option.map_eq_some_iff]

/-- Stores are found value by value. -/
theorem exists_elementStores_eq (f : Function) (array : ValueId) :
    ∃ element? : Value → Option (Int × ValueId),
      f.elementStores array = f.values.filterMap element? ∧
      ∀ store i v, element? store = some (i, v) ↔ f.StoresConst array store i v := by
  refine ⟨_, rfl, ?_⟩
  intro store i v
  constructor
  · intro hkinds
    split at hkinds
    case h_2 => cases hkinds
    case h_1 addr val hkind =>
      obtain ⟨a, ha, haddr⟩ := Option.bind_eq_some_iff.1 hkinds
      split at haddr
      case h_2 => cases haddr
      case h_1 x index hindex =>
        split at haddr
        case isFalse => cases haddr
        case isTrue hx =>
          obtain ⟨c, hc, hconst⟩ := Option.bind_eq_some_iff.1 haddr
          split at hconst
          case h_2 => cases hconst
          case h_1 n hn =>
            cases hconst
            subst hx
            exact ⟨index, n, ⟨addr, hkind, kind?_eq_some_iff.2 ⟨a, ha, hindex⟩⟩,
              kind?_eq_some_iff.2 ⟨c, hc, hn⟩, rfl⟩
  · intro ⟨index, n, ⟨addr, hkind, haddr⟩, hindex, hn⟩
    obtain ⟨a, ha, haddr⟩ := kind?_eq_some_iff.1 haddr
    obtain ⟨c, hc, hindex⟩ := kind?_eq_some_iff.1 hindex
    simp [hkind, ha, haddr, hc, hindex, hn]

/-- Elements with their positions. -/
def numbered (es : List ValueId) : List (Int × ValueId) := es.mapIdx fun i v => (Int.ofNat i, v)

theorem getElem?_numbered (es : List ValueId) (i : Nat) :
    (numbered es)[i]? = (es[i]?).map fun v => (Int.ofNat i, v) := by
  rw [numbered, List.getElem?_mapIdx]

theorem mem_numbered_iff {i : Int} {v : ValueId} :
    (i, v) ∈ numbered es ↔ ∃ j : Nat, i = j ∧ es[j]? = some v := by
  rw [List.mem_iff_getElem?]
  constructor
  · intro ⟨j, hj⟩
    rw [getElem?_numbered] at hj
    obtain ⟨w, hw, heq⟩ := Option.map_eq_some_iff.1 hj
    cases heq
    exact ⟨j, rfl, hw⟩
  · intro ⟨j, hi, hj⟩
    refine ⟨j, ?_⟩
    rw [getElem?_numbered, hj, hi]
    rfl

theorem map_fst_numbered (es : List ValueId) :
    (numbered es).map (·.1) = (List.range es.length).map Int.ofNat := by
  apply List.ext_getElem (by simp [numbered])
  intro i hi hi'
  simp [numbered]

theorem map_snd_numbered (es : List ValueId) : (numbered es).map (·.2) = es := by
  apply List.ext_getElem (by simp [numbered])
  intro i hi hi'
  simp [numbered]

theorem pairwise_numbered (es : List ValueId) :
    (numbered es).Pairwise fun a b => a.1 < b.1 := by
  rw [List.pairwise_iff_getElem]
  intro i j hi hj hlt
  simpa [numbered] using hlt

theorem eq_numbered {l : List (Int × ValueId)}
    (h : l.map (·.1) = (List.range l.length).map Int.ofNat) : l = numbered (l.map (·.2)) := by
  apply List.ext_getElem (by simp [numbered])
  intro i hi hi'
  have hfst := congrArg (·[i]?) h
  simp only [List.getElem?_map, List.getElem?_eq_getElem hi, List.getElem?_range hi,
    Option.map_some, Option.some.injEq] at hfst
  rw [Prod.ext_iff]
  simpa [numbered] using hfst

theorem eq_of_mem_numbered {a b : Int × ValueId} (ha : a ∈ numbered es) (hb : b ∈ numbered es)
    (h : a.1 = b.1) : a = b := by
  obtain ⟨i, hi, hv⟩ := mem_numbered_iff.1 ha
  obtain ⟨j, hj, hw⟩ := mem_numbered_iff.1 hb
  have hij : i = j := by omega
  subst hij
  exact Prod.ext h (Option.some.inj (hv.symm.trans hw))

/-- Sorted by position, stores are the numbered elements exactly if they are these in some order. -/
theorem mergeSort_eq_numbered_iff {l : List (Int × ValueId)} :
    (l.mergeSort fun a b => a.1 ≤ b.1) = numbered es ↔ l.Perm (numbered es) := by
  constructor
  · intro h
    rw [← h]
    exact (List.mergeSort_perm l _).symm
  · intro h
    have hsorted : (l.mergeSort fun a b => a.1 ≤ b.1).Pairwise fun a b => a.1 ≤ b.1 := by
      apply List.Pairwise.imp of_decide_eq_true
      apply List.pairwise_mergeSort
      · intro a b c
        simpa using Int.le_trans
      · intro a b
        simpa using Int.le_total a.1 b.1
    have hperm := (List.mergeSort_perm l fun a b => a.1 ≤ b.1).trans h
    apply List.Perm.eq_of_pairwise _ hsorted ((pairwise_numbered es).imp Int.le_of_lt) hperm
    intro a b ha hb hab hba
    exact eq_of_mem_numbered (hperm.mem_iff.1 ha) hb (Int.le_antisymm hab hba)

theorem variadic?_slice_eq_some_iff_perm (hs : f.kind? slice = some (.slice array)) :
    f.variadic? slice = some es ↔ (f.elementStores array).Perm (numbered es) := by
  obtain ⟨v, hv, hkind⟩ := kind?_eq_some_iff.1 hs
  rw [← mergeSort_eq_numbered_iff, variadic?, hv, Option.bind_eq_bind, Option.bind_some, hkind]
  dsimp only
  generalize (f.elementStores array).mergeSort (fun a b => a.1 ≤ b.1) = sorted
  constructor
  · intro h
    split at h
    case isFalse => cases h
    case isTrue hrange =>
      cases h
      exact eq_numbered hrange
  · intro h
    subst h
    rw [map_fst_numbered, map_snd_numbered, if_pos (by simp [numbered])]

/-- The value at position `k` of a function stores `val` at the constant position `i` of an array. -/
def StoresAt (f : Function) (array : ValueId) (k : Nat) (i : Int) (val : ValueId) : Prop :=
  ∃ store, f.values[k]? = some store ∧ f.StoresConst array store i val

theorem mem_elementStores_iff {i : Int} {v : ValueId} :
    (i, v) ∈ f.elementStores array ↔ ∃ k, f.StoresAt array k i v := by
  obtain ⟨element?, heq, helement⟩ := f.exists_elementStores_eq array
  rw [heq, List.mem_filterMap]
  constructor
  · intro ⟨store, hmem, hsome⟩
    obtain ⟨k, hk⟩ := List.mem_iff_getElem?.1 hmem
    exact ⟨k, store, hk, (helement store i v).1 hsome⟩
  · intro ⟨k, store, hk, hstore⟩
    exact ⟨store, List.mem_of_getElem? hk, (helement store i v).2 hstore⟩

/-- The positions in an array to which something is stored differ if no two stores share one. -/
theorem nodup_positions_iff :
    ((f.elementStores array).map (·.1)).Nodup ↔
      ∀ k k' i v v', f.StoresAt array k i v → f.StoresAt array k' i v' → k = k' := by
  obtain ⟨element?, heq, helement⟩ := f.exists_elementStores_eq array
  rw [heq, List.Nodup, List.pairwise_map, List.pairwise_filterMap, List.pairwise_iff_getElem]
  constructor
  · intro h k k' i v v' ⟨store, hk, hstore⟩ ⟨store', hk', hstore'⟩
    obtain ⟨hlt, rfl⟩ := List.getElem?_eq_some_iff.1 hk
    obtain ⟨hlt', rfl⟩ := List.getElem?_eq_some_iff.1 hk'
    have hsome := (helement _ i v).2 hstore
    have hsome' := (helement _ i v').2 hstore'
    by_contra hne
    rcases Nat.lt_or_gt_of_ne hne with hkk | hkk
    · exact h k k' hlt hlt' hkk _ hsome _ hsome' rfl
    · exact h k' k hlt' hlt hkk _ hsome' _ hsome rfl
  · intro h k k' hlt hlt' hkk ⟨i, v⟩ hsome ⟨i', v'⟩ hsome' hi
    subst hi
    have hk : f.StoresAt array k i v :=
      ⟨_, List.getElem?_eq_getElem hlt, (helement _ i v).1 hsome⟩
    have hk' : f.StoresAt array k' i v' :=
      ⟨_, List.getElem?_eq_getElem hlt', (helement _ i v').1 hsome'⟩
    exact absurd (h k k' i v v' hk hk') (Nat.ne_of_lt hkk)

/-- The stores into an array at constant positions are one for each position of `es`, and each of
them stores the element there. -/
structure HasElements (f : Function) (array : ValueId) (es : List ValueId) : Prop where
  stored : ∀ k i v, f.StoresAt array k i v → ∃ j : Nat, i = j ∧ es[j]? = some v
  once : ∀ j : Nat, j < es.length → ∃ k, ∀ k', (∃ v, f.StoresAt array k' j v) ↔ k' = k

theorem nodup_positions_numbered (es : List ValueId) : ((numbered es).map (·.1)).Nodup := by
  rw [List.Nodup, List.pairwise_map]
  exact (pairwise_numbered es).imp Int.ne_of_lt

theorem elementStores_perm_iff :
    (f.elementStores array).Perm (numbered es) ↔ f.HasElements array es := by
  constructor
  · intro h
    have unique := nodup_positions_iff.1
      ((h.map (·.1)).nodup_iff.2 (nodup_positions_numbered es))
    refine ⟨?_, ?_⟩
    · intro k i v hk
      exact mem_numbered_iff.1 (h.mem_iff.1 (mem_elementStores_iff.2 ⟨k, hk⟩))
    · intro j hj
      have hmem : ((j : Int), es[j]) ∈ numbered es :=
        mem_numbered_iff.2 ⟨j, rfl, List.getElem?_eq_getElem hj⟩
      obtain ⟨k, hk⟩ := mem_elementStores_iff.1 (h.mem_iff.2 hmem)
      refine ⟨k, ?_⟩
      intro k'
      constructor
      · intro ⟨v, hk'⟩
        exact unique k' k j v es[j] hk' hk
      · intro heq
        exact ⟨es[j], heq ▸ hk⟩
  · intro h
    have unique : ∀ k k' i v v', f.StoresAt array k i v → f.StoresAt array k' i v' → k = k' := by
      intro k k' i v v' hk hk'
      obtain ⟨j, rfl, hj⟩ := h.stored k i v hk
      obtain ⟨m, hm⟩ := h.once j (List.getElem?_eq_some_iff.1 hj).1
      rw [(hm k).1 ⟨v, hk⟩, (hm k').1 ⟨v', hk'⟩]
    have nodup {l : List (Int × ValueId)} (hl : (l.map (·.1)).Nodup) : l.Nodup :=
      (List.pairwise_map.1 hl).imp fun hne heq => hne (congrArg (·.1) heq)
    rw [List.perm_ext_iff_of_nodup (nodup (nodup_positions_iff.2 unique))
      (nodup (nodup_positions_numbered es))]
    intro ⟨i, v⟩
    rw [mem_elementStores_iff, mem_numbered_iff]
    constructor
    · intro ⟨k, hk⟩
      exact h.stored k i v hk
    · intro ⟨j, hi, hj⟩
      obtain ⟨k, hk⟩ := h.once j (List.getElem?_eq_some_iff.1 hj).1
      obtain ⟨w, hw⟩ := (hk k).2 rfl
      obtain ⟨m, hm, hes⟩ := h.stored k j w hw
      have hjm : j = m := by omega
      subst hi hjm
      rw [hj] at hes
      cases hes
      exact ⟨k, hw⟩

theorem variadic?_slice_eq_some_iff (hs : f.kind? slice = some (.slice array)) :
    f.variadic? slice = some es ↔ f.HasElements array es := by
  rw [variadic?_slice_eq_some_iff_perm hs, elementStores_perm_iff]

def IsStore (f : Function) (id : ValueId) : Prop :=
  ∃ addr val, f.kind? id = some (.store addr val)

/-- The values of `g` are those of `f`, and only stores have changed their places. -/
structure StoresReordered (f g : Function) : Prop where
  perm : g.values.Perm f.values
  others : ∀ id, g.value? id = f.value? id ∨ f.IsStore id ∧ g.IsStore id

namespace StoresReordered

theorem kind?_iff (h : f.StoresReordered g) {id : ValueId} {kind : ValueKind}
    (hkind : ∀ addr val, kind ≠ .store addr val) :
    g.kind? id = some kind ↔ f.kind? id = some kind := by
  rcases h.others id with heq | ⟨⟨addr, val, hf⟩, addr', val', hg⟩
  · rw [kind?, kind?, heq]
  · rw [hf, hg]
    constructor
    · intro heq
      exact absurd (Option.some.inj heq).symm (hkind addr' val')
    · intro heq
      exact absurd (Option.some.inj heq).symm (hkind addr val)

theorem storesConst_iff (h : f.StoresReordered g) {store : Value} {i : Int} {v : ValueId} :
    g.StoresConst array store i v ↔ f.StoresConst array store i v := by
  have addr_iff (addr index : ValueId) :
      g.kind? addr = some (.indexAddr array index) ↔ f.kind? addr = some (.indexAddr array index) :=
    h.kind?_iff (by simp)
  have index_iff (index : ValueId) (n : Int64) :
      g.kind? index = some (.const (.int n)) ↔ f.kind? index = some (.const (.int n)) :=
    h.kind?_iff (by simp)
  simp only [StoresConst, StoresInto, addr_iff, index_iff]

theorem elementStores_perm (h : f.StoresReordered g) (array : ValueId) :
    (g.elementStores array).Perm (f.elementStores array) := by
  obtain ⟨element?, heq, helement⟩ := f.exists_elementStores_eq array
  obtain ⟨element?', heq', helement'⟩ := g.exists_elementStores_eq array
  have hsame : element?' = element? := by
    funext store
    ext ⟨i, v⟩
    rw [helement', helement, h.storesConst_iff]
  rw [heq, heq', hsame]
  exact h.perm.filterMap element?

end StoresReordered

theorem variadic?_eq_some_iff {f : Function} {slice : ValueId} {es : List ValueId} :
    f.variadic? slice = some es ↔
      (∃ array, f.kind? slice = some (.slice array) ∧ f.HasElements array es) ∨
        f.kind? slice = some (.const .nil) ∧ es = [] := by
  constructor
  · intro h
    obtain ⟨v, hv, hkinds⟩ := Option.bind_eq_some_iff.1 h
    cases hkind : v.kind with
    | slice array =>
      have hs := kind?_eq_some_iff.2 ⟨v, hv, hkind⟩
      exact .inl ⟨array, hs, (variadic?_slice_eq_some_iff hs).1 h⟩
    | const literal =>
      rw [hkind] at hkinds
      cases literal with
      | nil =>
        cases hkinds
        exact .inr ⟨kind?_eq_some_iff.2 ⟨v, hv, hkind⟩, rfl⟩
      | _ => cases hkinds
    | _ =>
      rw [hkind] at hkinds
      cases hkinds
  · rintro (⟨array, hs, h⟩ | ⟨hs, rfl⟩)
    · exact (variadic?_slice_eq_some_iff hs).2 h
    · obtain ⟨v, hv, hkind⟩ := kind?_eq_some_iff.1 hs
      rw [variadic?, hv, Option.bind_eq_bind, Option.bind_some, hkind]

/-- A list of arguments has elements if it is empty, or if the stores into its array at constant
positions are one for each position from zero on. The order of the stores makes no difference. -/
theorem variadic_elements_exact (f : Function) (slice : ValueId) :
    (∀ es, f.variadic? slice = some es ↔
      (∃ array, f.kind? slice = some (.slice array) ∧ f.HasElements array es) ∨
        f.kind? slice = some (.const .nil) ∧ es = []) ∧
    ∀ g, f.StoresReordered g → g.variadic? slice = f.variadic? slice := by
  refine ⟨fun es => variadic?_eq_some_iff, ?_⟩
  intro g h
  ext es
  rw [variadic?_eq_some_iff, variadic?_eq_some_iff, h.kind?_iff (by simp)]
  apply or_congr _ Iff.rfl
  apply exists_congr
  intro array
  rw [h.kind?_iff (by simp), ← elementStores_perm_iff, ← elementStores_perm_iff]
  apply and_congr Iff.rfl
  exact ⟨(h.elementStores_perm array).symm.trans, (h.elementStores_perm array).trans⟩

/-- A function that stores into an array of one element, first at position zero and then at a position
that is known only when it runs. -/
def overwritten : Function :=
  { Function.declared 2 "example.com/svc/a" "main" "main" with
    values := [
      ⟨"c0", "string", none, .const (.string "http://%s/")⟩,
      ⟨"c1", "string", none, .const (.string "b")⟩,
      ⟨"c2", "string", none, .const (.string "c")⟩,
      ⟨"t0", "int", none, .other⟩,
      ⟨"t1", "*[1]any", none, .alloc⟩,
      ⟨"c3", "int", none, .const (.int 0)⟩,
      ⟨"t2", "*any", none, .indexAddr 4 5⟩,
      ⟨"t3", "any", none, .makeInterface 1⟩,
      ⟨"", "", none, .store 6 7⟩,
      ⟨"t4", "*any", none, .indexAddr 4 3⟩,
      ⟨"t5", "any", none, .makeInterface 2⟩,
      ⟨"", "", none, .store 9 10⟩,
      ⟨"t6", "[]any", none, .slice 4⟩,
      ⟨"t7", "", some ⟨"main.go", 7⟩, .call ⟨.static 1, [0, 12]⟩⟩,
      ⟨"t8", "", some ⟨"main.go", 8⟩, .call ⟨.static 0, [13]⟩⟩,
      ⟨"", "", none, .ret []⟩]
    blocks := [⟨0, [3, 4, 6, 7, 8, 9, 10, 11, 12, 13, 14, 15], []⟩] }

/-- The list has the first value as its element, although a second one is stored into its array. -/
theorem overwritten_has_element :
    overwritten.variadic? 12 = some [7] ∧
      overwritten.StoresInto 4 ⟨"", "", none, .store 9 10⟩ 3 10 ∧
      ⟨"", "", none, .store 9 10⟩ ∈ overwritten.values ∧
      ¬ ∃ n, overwritten.kind? 3 = some (.const (.int n)) := by
  have hslice : overwritten.kind? 12 = some (.slice 4) := rfl
  have hstores : overwritten.elementStores 4 = numbered [7] := by decide
  refine ⟨?_, ⟨9, rfl, rfl⟩, by decide, ?_⟩
  · rw [variadic?_slice_eq_some_iff_perm hslice, hstores]
  · intro ⟨n, hn⟩
    cases hn

/-- The same stores the other way round. -/
def overwrittenBefore : Function :=
  { overwritten with
    values := (overwritten.values.set 8 ⟨"", "", none, .store 9 10⟩).set 11
      ⟨"", "", none, .store 6 7⟩ }

theorem overwritten_storesReordered : overwritten.StoresReordered overwrittenBefore where
  perm := by decide
  others := by
    intro id
    rw [IsStore, IsStore, kind?, kind?, value?, value?]
    generalize id.toNat = k
    by_cases hstore : k = 8 ∨ k = 11
    · right
      rcases hstore with rfl | rfl
      · exact ⟨⟨_, _, rfl⟩, _, _, rfl⟩
      · exact ⟨⟨_, _, rfl⟩, _, _, rfl⟩
    · left
      have hne : 8 ≠ k ∧ 11 ≠ k := by omega
      rw [overwrittenBefore, List.getElem?_set_ne hne.2, List.getElem?_set_ne hne.1]

theorem overwrittenBefore_same_elements :
    overwrittenBefore.values ≠ overwritten.values ∧
      overwrittenBefore.variadic? 12 = overwritten.variadic? 12 :=
  ⟨by decide,
    (variadic_elements_exact overwritten 12).2 overwrittenBefore overwritten_storesReordered⟩

end ServiceGraph.Function
