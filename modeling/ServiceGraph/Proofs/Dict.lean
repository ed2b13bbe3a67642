import Mathlib.Data.String.Basic
import ServiceGraph.Dict

namespace ServiceGraph

variable {κ : Type} {α β : Type} [Ord κ]

theorem find?_eq_none_of_lt [Std.TransOrd κ] {key k : κ} {v : α} {rest : List (κ × α)}
    (h : Ascending ((k, v) :: rest)) (hlt : compare key k = .lt) :
    ((k, v) :: rest).find? (fun e => compare key e.1 == .eq) = none := by
  rw [List.find?_eq_none]
  intro e he
  have hless : compare key e.1 = .lt := by
    rcases List.mem_cons.1 he with rfl | he
    · exact hlt
    · exact Std.TransCmp.lt_trans hlt (List.rel_of_pairwise_cons h he)
  simp [hless]

/-- A key above all others is put at the end. -/
theorem insertEntry_of_gt [Std.OrientedOrd κ] {key : κ} (value : α) {entries : List (κ × α)}
    (h : ∀ e ∈ entries, compare e.1 key = .lt) :
    insertEntry key value entries = entries ++ [(key, value)] := by
  induction entries with
  | nil => rfl
  | cons head rest ih =>
    have hgt : compare key head.1 = .gt := Std.OrientedCmp.gt_of_lt (h head List.mem_cons_self)
    rw [insertEntry, hgt, ih fun e he => h e (List.mem_cons_of_mem _ he)]
    rfl

section Lawful

variable [Std.LawfulEqOrd κ]

theorem ne_of_compare {a b : κ} (h : compare a b ≠ .eq) : a ≠ b :=
  fun heq => h (Std.compare_eq_iff_eq.2 heq)

theorem find?_cons_of_ne {k k' : κ} (h : k ≠ k') (v : α) (rest : List (κ × α)) :
    ((k', v) :: rest).find? (fun e => compare k e.1 == .eq) =
      rest.find? fun e => compare k e.1 == .eq := by
  apply List.find?_cons_of_neg
  simpa using h

theorem find?_insertEntry [DecidableEq κ] (key k : κ) (value : α) (entries : List (κ × α)) :
    (insertEntry key value entries).find? (fun e => compare k e.1 == .eq) =
      if k = key then some (key, value) else entries.find? fun e => compare k e.1 == .eq := by
  induction entries with
  | nil =>
    by_cases hk : k = key
    · simp [insertEntry, hk]
    · simp [insertEntry, hk]
  | cons head rest ih =>
    obtain ⟨k', v⟩ := head
    unfold insertEntry
    split
    next =>
      by_cases hk : k = key
      · simp [hk]
      · rw [find?_cons_of_ne hk, if_neg hk]
    next heq =>
      obtain rfl : key = k' := Std.compare_eq_iff_eq.1 heq
      by_cases hk : k = key
      · simp [hk]
      · rw [find?_cons_of_ne hk, if_neg hk, find?_cons_of_ne hk]
    next hgt =>
      by_cases hk : k = k'
      · subst hk
        have hne : key ≠ k := ne_of_compare (by simp [hgt])
        simp [hne.symm]
      · rw [find?_cons_of_ne hk, ih, find?_cons_of_ne hk]

theorem find?_eq_some_of_mem {entries : List (κ × α)} (h : Ascending entries) {k : κ} {v : α}
    (hmem : (k, v) ∈ entries) :
    entries.find? (fun e => compare k e.1 == .eq) = some (k, v) := by
  induction entries with
  | nil => cases hmem
  | cons head rest ih =>
    rcases List.mem_cons.1 hmem with rfl | hmem
    · simp
    · have hlt : compare head.1 k = .lt := List.rel_of_pairwise_cons h hmem
      have hne : head.1 ≠ k := ne_of_compare (by simp [hlt])
      rw [find?_cons_of_ne hne.symm]
      exact ih (List.Pairwise.of_cons h) hmem

/-- What is gathered from entries grows by what a change adds at its key, and by nothing else. -/
theorem flatMap_insertEntry_perm [Std.TransOrd κ] (gather : κ × α → List β) {key : κ} {start : α}
    {change : α → α} {extra : List β} (hstart : gather (key, start) = [])
    (hchange : ∀ v, (gather (key, change v)).Perm (gather (key, v) ++ extra))
    {entries : List (κ × α)} (h : Ascending entries) :
    ((insertEntry key (change (((entries.find? fun e => compare key e.1 == .eq).map
      (·.2)).getD start)) entries).flatMap gather).Perm (entries.flatMap gather ++ extra) := by
  have hnew : (gather (key, change start)).Perm extra := by
    have hperm := hchange start
    rwa [hstart, List.nil_append] at hperm
  induction entries with
  | nil => simpa [insertEntry] using hnew
  | cons head rest ih =>
    obtain ⟨k, v⟩ := head
    unfold insertEntry
    split
    next hlt =>
      -- a new key before all others: nothing was gathered from it
      rw [find?_eq_none_of_lt h hlt, List.flatMap_cons]
      exact (hnew.append_right _).trans List.perm_append_comm
    next heq =>
      obtain rfl : key = k := Std.compare_eq_iff_eq.1 heq
      rw [find?_eq_some_of_mem h List.mem_cons_self, List.flatMap_cons, List.flatMap_cons]
      refine ((hchange v).append_right _).trans ?_
      rw [List.append_assoc, List.append_assoc]
      exact List.perm_append_comm.append_left _
    next hgt =>
      have hne : key ≠ k := ne_of_compare (by simp [hgt])
      rw [find?_cons_of_ne hne, List.flatMap_cons, List.flatMap_cons, List.append_assoc]
      exact (ih (List.Pairwise.of_cons h)).append_left _

end Lawful

namespace Dict

theorem isEmpty_iff {d : Dict κ α} : d.isEmpty = true ↔ d = empty := by
  rw [isEmpty, List.isEmpty_iff, Dict.ext_iff]
  rfl

theorem get?_map (f : α → β) (d : Dict κ α) (k : κ) : (d.map f).get? k = (d.get? k).map f := by
  simp [get?, map, List.find?_map, Function.comp_def]

theorem pairwise_keys (d : Dict String α) : d.keys.Pairwise (· < ·) := by
  have lt_of_compare {s t : String} (h : compare s t = .lt) : s < t := compareOfLessAndEq_eq_lt.1 h
  rw [keys, List.pairwise_map]
  exact List.Pairwise.imp lt_of_compare d.ascending

/-- Entries in ascending order are the map that they make. -/
theorem ofList_entries [Std.TransOrd κ] (d : Dict κ α) : ofList d.entries = d := by
  -- each entry comes after those before it, so a start of the list is a map of its own
  have from_start (es : List (κ × α)) (start : Dict κ α) (h : Ascending (start.entries ++ es)) :
      (es.foldl (fun d e => d.insert e.1 e.2) start).entries = start.entries ++ es := by
    induction es generalizing start with
    | nil => simp
    | cons e es ih =>
      have before : ∀ e' ∈ start.entries, compare e'.1 e.1 = .lt := fun e' he' =>
        (List.pairwise_append.1 h).2.2 e' he' e List.mem_cons_self
      have entries : (start.insert e.1 e.2).entries = start.entries ++ [e] :=
        insertEntry_of_gt e.2 before
      rw [List.foldl_cons, ih _ (by rw [entries]; simpa using h), entries]
      simp
  exact Dict.ext (from_start d.entries empty d.ascending)

variable [Std.LawfulEqOrd κ]

theorem get?_eq_some_iff {d : Dict κ α} {k : κ} {v : α} :
    d.get? k = some v ↔ (k, v) ∈ d.entries := by
  rw [get?, Option.map_eq_some_iff]
  constructor
  · rintro ⟨⟨k', v'⟩, hfind, rfl⟩
    have hkey : k = k' := by simpa using List.find?_some hfind
    rw [hkey]
    exact List.mem_of_find?_eq_some hfind
  · intro hmem
    exact ⟨(k, v), find?_eq_some_of_mem d.ascending hmem, rfl⟩

theorem mem_keys_iff {d : Dict κ α} {k : κ} : k ∈ d.keys ↔ ∃ v, d.get? k = some v := by
  simp [keys, get?_eq_some_iff]

variable [Std.TransOrd κ]

/-- A map is determined by what is found in it. -/
theorem ext_get? {d d' : Dict κ α} (h : ∀ k, d.get? k = d'.get? k) : d = d' := by
  have distinct (d : Dict κ α) : d.entries.Nodup :=
    List.Pairwise.imp (fun hlt heq => by simp [heq] at hlt) d.ascending
  have same : d.entries.Perm d'.entries := by
    rw [List.perm_ext_iff_of_nodup (distinct d) (distinct d')]
    rintro ⟨k, v⟩
    rw [← get?_eq_some_iff, ← get?_eq_some_iff, h]
  have opposite (a b : κ × α) (hab : compare a.1 b.1 = .lt) (hba : compare b.1 a.1 = .lt) :
      a = b := by
    rw [Std.OrientedCmp.gt_of_lt hba] at hab
    cases hab
  exact Dict.ext (same.eq_of_pairwise (fun a b _ _ => opposite a b) d.ascending d'.ascending)

theorem flatMap_update_perm (gather : κ × α → List β) (d : Dict κ α) {key : κ}
    {start : α} {change : α → α} {extra : List β} (hstart : gather (key, start) = [])
    (hchange : ∀ v, (gather (key, change v)).Perm (gather (key, v) ++ extra)) :
    ((d.update key start change).entries.flatMap gather).Perm
      (d.entries.flatMap gather ++ extra) :=
  flatMap_insertEntry_perm gather hstart hchange d.ascending

variable [DecidableEq κ]

theorem get?_insert (d : Dict κ α) (key k : κ) (value : α) :
    (d.insert key value).get? k = if k = key then some value else d.get? k := by
  rw [get?, insert, find?_insertEntry]
  split
  · rfl
  · rfl

theorem get?_update (d : Dict κ α) (key k : κ) (start : α) (change : α → α) :
    (d.update key start change).get? k =
      if k = key then some (change ((d.get? key).getD start)) else d.get? k :=
  get?_insert d key k _

theorem get?_foldl_update_of_notMem (start : α) (change : α → β → α) {entries : List (κ × β)}
    {k : κ} (hk : k ∉ entries.map (·.1)) (d : Dict κ α) :
    (entries.foldl (fun d e => d.update e.1 start (change · e.2)) d).get? k = d.get? k := by
  induction entries generalizing d with
  | nil => rfl
  | cons e rest ih =>
    rw [List.map_cons, List.mem_cons, not_or] at hk
    rw [List.foldl_cons, ih hk.2, get?_update, if_neg hk.1]

/-- Changes at one key after the other, where no key comes twice: each key is changed by its own
entry, whatever the others are. -/
theorem get?_foldl_update (start : α) (change : α → β → α) {entries : List (κ × β)}
    (hascending : Ascending entries) {k : κ} {b : β} (hmem : (k, b) ∈ entries) (d : Dict κ α) :
    (entries.foldl (fun d e => d.update e.1 start (change · e.2)) d).get? k =
      some (change ((d.get? k).getD start) b) := by
  induction entries generalizing d with
  | nil => cases hmem
  | cons e rest ih =>
    have hlater : ∀ e' ∈ rest, e.1 ≠ e'.1 := fun e' he' =>
      ne_of_compare (by simp [List.rel_of_pairwise_cons hascending he'])
    rw [List.foldl_cons]
    rcases List.mem_cons.1 hmem with rfl | hmem
    · have hk : k ∉ rest.map (·.1) := by
        intro hk
        obtain ⟨e', he', heq⟩ := List.mem_map.1 hk
        exact hlater e' he' heq.symm
      rw [get?_foldl_update_of_notMem start change hk, get?_update, if_pos rfl]
    · rw [ih (List.Pairwise.of_cons hascending) hmem, get?_update,
        if_neg (hlater _ hmem).symm]

theorem mem_of_get?_ofList {entries : List (κ × α)} {k : κ} {v : α}
    (h : (ofList entries).get? k = some v) : (k, v) ∈ entries := by
  -- the entries are inserted one by one, so the induction needs any map to start from
  have from_any (es : List (κ × α)) (d : Dict κ α)
      (hd : (es.foldl (fun d e => d.insert e.1 e.2) d).get? k = some v) :
      (k, v) ∈ es ∨ d.get? k = some v := by
    induction es generalizing d with
    | nil => exact .inr hd
    | cons e rest ih =>
      rcases ih (d.insert e.1 e.2) hd with hmem | hget
      · exact .inl (List.mem_cons_of_mem _ hmem)
      · rw [get?_insert] at hget
        split at hget
        next heq =>
          cases hget
          exact .inl (heq ▸ List.mem_cons_self)
        next => exact .inr hget
  rcases from_any entries empty h with hmem | hget
  · exact hmem
  · cases hget

end Dict

end ServiceGraph
