import Mathlib.Data.List.Sort
import ServiceGraph.Proofs.Dict

namespace ServiceGraph

section Keys

variable {κ : Type} {α : Type} [Ord κ] [Std.LawfulEqOrd κ]

theorem mem_keys_insertEntry {key k : κ} {value : α} {entries : List (κ × α)} :
    k ∈ (insertEntry key value entries).map (·.1) ↔ k = key ∨ k ∈ entries.map (·.1) := by
  induction entries with
  | nil => simp [insertEntry]
  | cons head rest ih =>
    obtain ⟨k', v⟩ := head
    unfold insertEntry
    split
    next => simp
    next heq => simp [Std.LawfulEqOrd.eq_of_compare heq]
    next =>
      rw [List.map_cons, List.mem_cons, ih, List.map_cons, List.mem_cons]
      exact or_left_comm

variable [Std.TransOrd κ]

theorem Dict.mem_keys_insert {d : Dict κ α} {key k : κ} {value : α} :
    k ∈ (d.insert key value).keys ↔ k = key ∨ k ∈ d.keys :=
  mem_keys_insertEntry

theorem Dict.mem_keys_ofList {entries : List (κ × α)} {k : κ} :
    k ∈ (Dict.ofList entries).keys ↔ k ∈ entries.map (·.1) := by
  have from_any (d : Dict κ α) : k ∈ (entries.foldl (fun d e => d.insert e.1 e.2) d).keys ↔
      k ∈ entries.map (·.1) ∨ k ∈ d.keys := by
    induction entries generalizing d with
    | nil => simp
    | cons e rest ih =>
      rw [List.foldl_cons, ih, mem_keys_insert, List.map_cons, List.mem_cons]
      exact or_left_comm.trans or_assoc.symm
  rw [ofList, from_any]
  simp [empty, keys]

/-- Where no key comes twice, every entry is found. -/
theorem Dict.get?_ofList_of_mem [DecidableEq κ] {entries : List (κ × α)}
    (hkeys : (entries.map (·.1)).Nodup) {k : κ} {v : α} (h : (k, v) ∈ entries) :
    (Dict.ofList entries).get? k = some v := by
  have hkey : k ∈ (Dict.ofList entries).keys := mem_keys_ofList.2 (List.mem_map_of_mem h)
  obtain ⟨v', hv'⟩ := mem_keys_iff.1 hkey
  have heq : (k, v') = (k, v) :=
    List.inj_on_of_nodup_map hkeys (mem_of_get?_ofList hv') h rfl
  rw [hv', (Prod.mk.inj heq).2]

@[simp]
theorem mem_sortedSet {elements : List κ} {k : κ} : k ∈ sortedSet elements ↔ k ∈ elements := by
  rw [sortedSet, Dict.mem_keys_ofList, List.map_map]
  simp

end Keys

theorem pairwise_sortedSet (names : List String) : (sortedSet names).Pairwise (· < ·) :=
  (Dict.ofList (names.map fun k => (k, ()))).pairwise_keys

/-- A sorted set is determined by its elements. -/
theorem sortedSet_eq_of_mem_iff {xs ys : List String} (h : ∀ s, s ∈ xs ↔ s ∈ ys) :
    sortedSet xs = sortedSet ys := by
  apply (pairwise_sortedSet xs).eq_of_mem_iff (pairwise_sortedSet ys)
  intro s
  rw [mem_sortedSet, mem_sortedSet, h]

end ServiceGraph
