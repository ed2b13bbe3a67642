namespace ServiceGraph

variable {κ : Type} {α : Type} [Ord κ]

/-- The keys ascend strictly, so each of them occurs once. -/
def Ascending (entries : List (κ × α)) : Prop :=
  entries.Pairwise fun a b => compare a.1 b.1 = .lt

/-- Puts a value at its key's place; a value that was there is replaced. -/
def insertEntry (key : κ) (value : α) : List (κ × α) → List (κ × α)
  | [] => [(key, value)]
  | (k, v) :: rest =>
    match compare key k with
    | .lt => (key, value) :: (k, v) :: rest
    | .eq => (key, value) :: rest
    | .gt => (k, v) :: insertEntry key value rest

theorem eq_or_mem_of_mem_insertEntry {key : κ} {value : α} {entries : List (κ × α)} {e : κ × α}
    (h : e ∈ insertEntry key value entries) : e = (key, value) ∨ e ∈ entries := by
  induction entries with
  | nil => simpa [insertEntry] using h
  | cons head rest ih =>
    obtain ⟨k, v⟩ := head
    unfold insertEntry at h
    split at h <;> simp only [List.mem_cons] at h ⊢
    · exact h
    · rcases h with h | h
      · exact .inl h
      · exact .inr (.inr h)
    · rcases h with h | h
      · exact .inr (.inl h)
      · rcases ih h with h | h
        · exact .inl h
        · exact .inr (.inr h)

theorem ascending_insertEntry [Std.TransOrd κ] (key : κ) (value : α) {entries : List (κ × α)}
    (h : Ascending entries) : Ascending (insertEntry key value entries) := by
  induction entries with
  | nil => simp [insertEntry, Ascending]
  | cons head rest ih =>
    obtain ⟨k, v⟩ := head
    have hhead : ∀ e ∈ rest, compare k e.1 = .lt := fun e he => List.rel_of_pairwise_cons h he
    have hrest : Ascending rest := List.Pairwise.of_cons h
    unfold insertEntry
    split
    next hlt =>
      refine List.pairwise_cons.2 ⟨fun e he => ?_, h⟩
      rcases List.mem_cons.1 he with rfl | he
      · exact hlt
      · exact Std.TransCmp.lt_trans hlt (hhead e he)
    next heq =>
      refine List.pairwise_cons.2 ⟨fun e he => ?_, hrest⟩
      exact Std.TransCmp.lt_of_eq_of_lt heq (hhead e he)
    next hgt =>
      refine List.pairwise_cons.2 ⟨fun e he => ?_, ih hrest⟩
      rcases eq_or_mem_of_mem_insertEntry he with rfl | he
      · exact Std.OrientedCmp.lt_of_gt hgt
      · exact hhead e he

theorem ascending_map {β : Type} (f : α → β) {entries : List (κ × α)} (h : Ascending entries) :
    Ascending (entries.map fun e => (e.1, f e.2)) := by
  simpa [Ascending, List.pairwise_map] using h

/-- A finite map from `κ` to `α`. -/
@[ext] structure Dict (κ : Type) (α : Type) [Ord κ] where
  entries : List (κ × α)
  ascending : Ascending entries

instance [DecidableEq κ] [DecidableEq α] : DecidableEq (Dict κ α) := fun a b =>
  decidable_of_iff (a.entries = b.entries) Dict.ext_iff.symm

namespace Dict

/-- The map without entries. -/
def empty : Dict κ α := ⟨[], .nil⟩

instance : Inhabited (Dict κ α) := ⟨empty⟩

def keys (d : Dict κ α) : List κ := d.entries.map (·.1)

def isEmpty (d : Dict κ α) : Bool := d.entries.isEmpty

def get? (d : Dict κ α) (key : κ) : Option α :=
  (d.entries.find? fun e => compare key e.1 == .eq).map (·.2)

def contains (d : Dict κ α) (key : κ) : Bool := (d.get? key).isSome

def insert [Std.TransOrd κ] (d : Dict κ α) (key : κ) (value : α) : Dict κ α :=
  ⟨insertEntry key value d.entries, ascending_insertEntry key value d.ascending⟩

/-- Changes every value. -/
def map {β : Type} (f : α → β) (d : Dict κ α) : Dict κ β :=
  ⟨d.entries.map fun e => (e.1, f e.2), ascending_map f d.ascending⟩

/-- The entries of `b` on top of those of `a`: on a common key `b` wins. -/
def override [Std.TransOrd κ] (a b : Dict κ α) : Dict κ α :=
  b.entries.foldl (fun d e => d.insert e.1 e.2) a

/-- A map from a list of entries, of which the last one for a key counts. -/
def ofList [Std.TransOrd κ] (entries : List (κ × α)) : Dict κ α :=
  entries.foldl (fun d e => d.insert e.1 e.2) empty

/-- The value at a key after a change; a key that was absent starts from `start`. -/
def update [Std.TransOrd κ] (d : Dict κ α) (key : κ) (start : α) (change : α → α) : Dict κ α :=
  d.insert key (change ((d.get? key).getD start))

end Dict

/-- The elements of a list in ascending order, each once. -/
def sortedSet [Std.TransOrd κ] (elements : List κ) : List κ :=
  (Dict.ofList (elements.map fun k => (k, ()))).keys

end ServiceGraph
