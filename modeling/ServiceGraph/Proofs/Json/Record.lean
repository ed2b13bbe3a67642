import ServiceGraph.Program.Codec
import ServiceGraph.Proofs.Dict
import ServiceGraph.Proofs.Json.Reading

namespace ServiceGraph.Json

variable {α β : Type}

/-- A value that is plain and is read as `a`. -/
structure Written (read : Json → Option α) (j : Json) (a : α) : Prop where
  plain : Plain j
  read_eq : read j = some a

/-- A value may stand for another name of itself, which keeps a proof from evaluating it. -/
theorem Written.exists_eq {read : Json → Option α} {j : Json} {a : α} (h : Written read j a) :
    ∃ k, j = k ∧ Written read k a :=
  ⟨j, rfl, h⟩

section Scalars

@[simp] theorem plain_str (s : String) : Plain (str s) := .str s

@[simp] theorem plain_bool (b : Bool) : Plain (bool b) := .bool b

@[simp] theorem string?_str (s : String) : string? (str s) = some s := rfl

@[simp] theorem bool?_bool (b : Bool) : bool? (bool b) = some b := rfl

theorem written_str (s : String) : Written string? (str s) s := ⟨.str s, rfl⟩

theorem written_natBelow {bound n : Nat} (h : n < bound) :
    Written (natBelow? bound) (ofNat n) n := by
  refine ⟨.int n, ?_⟩
  simp [natBelow?, ofNat, int?, h]

theorem written_id (id : UInt32) : Written uint32? (idJson id) id := by
  have number := written_natBelow id.toNat_lt
  refine ⟨number.plain, ?_⟩
  rw [uint32?, idJson, number.read_eq]
  simp

/-- The same for all numbers of values, blocks and functions at once. -/
theorem exists_idJson :
    ∃ write, idJson = write ∧ ∀ id, Written uint32? (write id) id :=
  ⟨idJson, rfl, written_id⟩

theorem written_uint64 (n : UInt64) : Written uint64? (ofNat n.toNat) n := by
  have number := written_natBelow n.toNat_lt
  refine ⟨number.plain, ?_⟩
  rw [uint64?, number.read_eq]
  simp

theorem written_int64 (n : Int64) : Written int64? (ofInt n.toInt) n := by
  refine ⟨.int n.toInt, ?_⟩
  have range : Int64.minValue.toInt ≤ n.toInt ∧ n.toInt ≤ Int64.maxValue.toInt :=
    ⟨n.minValue_le_toInt, n.toInt_le⟩
  simp only [int64?, ofInt, int?, Option.bind_eq_bind, Option.bind_some, if_pos range]
  simp

end Scalars

section Lists

variable {read : Json → Option β} {write : α → Json} {f : α → β}

theorem mapM_map {γ : Type} {read : γ → Option β} {write : α → γ} {as : List α}
    (h : ∀ a ∈ as, read (write a) = some (f a)) :
    (as.map write).mapM read = some (as.map f) := by
  induction as with
  | nil => rfl
  | cons a as ih =>
    have head := h a List.mem_cons_self
    have tail := ih fun b hb => h b (List.mem_cons_of_mem _ hb)
    simp [head, tail]

theorem plain_map {as : List α} (h : ∀ a ∈ as, Plain (write a)) : Plain (arr (as.map write)) := by
  refine .arr fun j hj => ?_
  obtain ⟨a, ha, rfl⟩ := List.mem_map.1 hj
  exact h a ha

theorem written_map {as : List α} (h : ∀ a ∈ as, Written read (write a) (f a)) :
    Written (list? read) (arr (as.map write)) (as.map f) where
  plain := plain_map fun a ha => (h a ha).plain
  read_eq := mapM_map fun a ha => (h a ha).read_eq

theorem written_list {read : Json → Option α} {as : List α}
    (h : ∀ a ∈ as, Written read (write a) a) : Written (list? read) (arr (as.map write)) as := by
  have list := written_map h
  rwa [List.map_id'] at list

theorem written_ids (ids : List UInt32) : Written ids? (idsJson ids) ids :=
  written_list fun id _ => written_id id

end Lists

section Maps

variable {read : Json → Option β} {write : α → Json} {f : α → β}

theorem plain_ofDict {d : Dict String α} (h : ∀ e ∈ d.entries, Plain (write e.2)) :
    Plain (ofDict write d) := by
  refine .obj fun m hm => ?_
  obtain ⟨e, he, rfl⟩ := List.mem_map.1 hm
  exact h e he

theorem written_ofDict {d : Dict String α} (h : ∀ e ∈ d.entries, Written read (write e.2) (f e.2)) :
    Written (dict? read) (ofDict write d) (d.map f) where
  plain := plain_ofDict fun e he => (h e he).plain
  read_eq := by
    have entries : ((d.entries.map fun e => (e.1, write e.2)).mapM
        fun m => do return (m.1, ← read m.2)) = some (d.map f).entries :=
      mapM_map fun e he => by simp [(h e he).read_eq]
    simp only [ofDict, dict?]
    rw [entries]
    simp [Dict.ofList_entries]

theorem written_dict {read : Json → Option α} {d : Dict String α}
    (h : ∀ e ∈ d.entries, Written read (write e.2) e.2) :
    Written (dict? read) (ofDict write d) d := by
  have same : d.map (fun a => a) = d := Dict.ext (List.map_id' _)
  have dict := written_ofDict (f := fun a => a) h
  rwa [same] at dict

end Maps

section Members

/-- The names of the members of an object. -/
def memberNames : Json → List String
  | obj members => members.map (·.1)
  | _ => []

variable {members rest : List (String × Json)} {name n : String} {write : α → Json} {j : Json}

@[simp] theorem plain_obj_iff : Plain (obj members) ↔ ∀ m ∈ members, Plain m.2 :=
  ⟨fun | .obj h => h, .obj⟩

@[simp] theorem fields?_obj (names : List String) :
    fields? names (obj members) = names.mapM (member? members) :=
  rfl

theorem fields?_of_members {names : List String} {values : List (Option Json)}
    (h : List.Forall₂ (fun name value => member? members name = some value) names values) :
    fields? names (obj members) = some values := by
  rw [fields?_obj]
  induction h with
  | nil => rfl
  | cons head _ tail => simp [head, tail]

theorem plain_optionMember {o : Option α} (h : ∀ a ∈ o, Plain (write a)) :
    ∀ m ∈ optionMember name write o, Plain m.2 := by
  cases o with
  | none => simp [optionMember]
  | some a => simpa [optionMember] using h a rfl

theorem member?_eq_some_none_iff :
    member? members name = some none ↔ members.filter (·.1 == name) = [] := by
  unfold member?
  split
  next hnil => simp only [hnil]
  next hone => simp [hone]
  next hnil _ => simpa using hnil

theorem member?_of_notMem (h : name ∉ members.map (·.1)) : member? members name = some none := by
  rw [member?_eq_some_none_iff, List.filter_eq_nil_iff]
  intro m hm heq
  exact h (List.mem_map.2 ⟨m, hm, beq_iff_eq.1 heq⟩)

@[simp] theorem member?_nil : member? [] name = some none := by
  simp [member?]

@[simp] theorem member?_cons_of_ne (h : n ≠ name) :
    member? ((n, j) :: rest) name = member? rest name := by
  simp [member?, h]

@[simp] theorem member?_cons_self (h : member? rest name = some none) :
    member? ((name, j) :: rest) name = some (some j) := by
  have absent := member?_eq_some_none_iff.1 h
  simp [member?, absent]

@[simp] theorem member?_optionMember_of_ne (h : n ≠ name) (o : Option α) :
    member? (optionMember n write o ++ rest) name = member? rest name := by
  cases o with
  | none => rfl
  | some a => exact member?_cons_of_ne h

@[simp] theorem member?_optionMember_self (h : member? rest name = some none) (o : Option α) :
    member? (optionMember name write o ++ rest) name = some (o.map write) := by
  cases o with
  | none => exact h
  | some a => exact member?_cons_self h

@[simp] theorem member?_last_of_ne (h : n ≠ name) (o : Option α) :
    member? (optionMember n write o) name = some none := by
  cases o with
  | none => exact member?_nil
  | some a => exact (member?_cons_of_ne h).trans member?_nil

@[simp] theorem member?_last_self (o : Option α) :
    member? (optionMember name write o) name = some (o.map write) := by
  cases o with
  | none => exact member?_nil
  | some a => exact member?_cons_self member?_nil

/-- A list that is not empty. -/
def nonempty? : List α → Option (List α)
  | [] => none
  | a :: as => some (a :: as)

theorem listMember_eq (name : String) (write : α → Json) (as : List α) :
    listMember name write as = optionMember name (fun as => arr (as.map write)) (nonempty? as) := by
  cases as with
  | nil => rfl
  | cons a as => rfl

theorem eq_of_mem_nonempty? {as bs : List α} (h : bs ∈ nonempty? as) : bs = as := by
  cases as with
  | nil => cases h
  | cons a as => exact (Option.some.inj h).symm

theorem names_optionMember (o : Option α) :
    (optionMember n write o).map (·.1) = if o.isSome then [n] else [] := by
  cases o with
  | none => rfl
  | some a => rfl

theorem isSome_nonempty? (as : List α) : (nonempty? as).isSome = !as.isEmpty := by
  cases as with
  | nil => rfl
  | cons a as => rfl

end Members

section Defaults

variable {read : Json → Option α} {write : α → Json}

@[simp] theorem orElse_some (default : α) (j : Json) : orElse default read (some j) = read j := rfl

theorem orElse_nullable (hnull : read null = none) {o : Option α}
    (h : ∀ a ∈ o, Written read (write a) a) :
    orElse none (nullable? read) (o.map write) = some o := by
  cases o with
  | none => rfl
  | some a =>
    have value := (h a rfl).read_eq
    have hne : write a ≠ null := by
      intro heq
      rw [heq, hnull] at value
      cases value
    simp [orElse, nullable?, value]

theorem orElse_str (o : Option String) :
    orElse none (nullable? string?) (o.map str) = some o :=
  orElse_nullable rfl fun s _ => written_str s

theorem orElse_list {as : List α} (h : ∀ a ∈ as, Written read (write a) a) :
    orElse [] (list? read) ((nonempty? as).map fun as => arr (as.map write)) = some as := by
  cases as with
  | nil => rfl
  | cons a as => exact (written_list h).read_eq

theorem plain_listMember {as : List α} (name : String) (h : ∀ a ∈ as, Written read (write a) a) :
    ∀ m ∈ optionMember name (fun as => arr (as.map write)) (nonempty? as), Plain m.2 := by
  refine plain_optionMember fun bs hbs => ?_
  rw [eq_of_mem_nonempty? hbs]
  exact (written_list h).plain

end Defaults

section Texts

/-- A value is read back from what it is written as, and also from the bytes of every text of that,
such as those that are printed. -/
structure RoundTrips (write : α → Json) (read : Json → Option α) (a : α) : Prop where
  value : read (write a) = some a
  compact_spells : Spells (compact (write a)) (write a)
  pretty_spells : Spells (pretty 0 (write a)) (write a)
  bytes {text : List Char} : Spells text (write a) →
    (parseInput? (Text.decode (String.ofList text).toUTF8)).bind read = some a

theorem Written.roundTrips {write : α → Json} {read : Json → Option α} {a : α}
    (h : Written read (write a) a) : RoundTrips write read a where
  value := h.read_eq
  compact_spells := spells_compact h.plain
  pretty_spells := spells_pretty h.plain 0
  bytes := by
    intro text htext
    have parsed := htext.parseInput? blank_nil
    rw [List.append_nil] at parsed
    rw [parsed]
    exact h.read_eq

end Texts

end ServiceGraph.Json
