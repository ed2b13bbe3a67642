import ServiceGraph.Proofs.Json.Record
import ServiceGraph.Proofs.Number.Doubles

namespace ServiceGraph

open Json (Plain Written written_str written_id written_ids written_uint64 written_int64
  written_list exists_idJson readable readableItems readableMembers plain_optionMember
  orElse_nullable orElse_str orElse_list listMember_eq)

section Instructions

theorem Position.written (p : Position) : Written Position.ofJson? p.toJson p := by
  -- under its own name the number would be evaluated down to the test of its range
  obtain ⟨line, hline, written⟩ := (written_id p.line).exists_eq
  rw [toJson, hline]
  constructor
  · simp [written.plain]
  · simp [ofJson?, written.read_eq]

theorem Position.orElse_toJson (o : Option Position) :
    Json.orElse none (Json.nullable? ofJson?) (o.map toJson) = some o :=
  orElse_nullable rfl fun p _ => p.written

theorem Param.written (p : Param) : Written Param.ofJson? p.toJson p := by
  obtain ⟨value, hvalue, written⟩ := (written_id p.value).exists_eq
  rw [toJson, hvalue]
  constructor
  · simp [written.plain]
  · simp [ofJson?, written.read_eq]

theorem Block.written (b : Block) : Written Block.ofJson? b.toJson b := by
  obtain ⟨index, hindex, written⟩ := (written_id b.index).exists_eq
  have instrs := written_ids b.instrs
  have succs := written_ids b.succs
  rw [toJson, hindex]
  constructor
  · simp [written.plain, instrs.plain, succs.plain]
  · simp [ofJson?, written.read_eq, instrs.read_eq, succs.read_eq]

theorem Callee.written (c : Callee) : Written Callee.ofJson? c.toJson c := by
  obtain ⟨write, hwrite, hid⟩ := exists_idJson
  constructor
  · cases c <;> simp [toJson, hwrite, (hid _).plain]
  · cases c <;> simp [toJson, hwrite, ofJson?, ofContent?, Json.nameOrPlace?, (hid _).read_eq]

theorem Call.written (c : Call) : Written Call.ofJson? c.toJson c := by
  have callee := c.callee.written
  have args := written_ids c.args
  constructor
  · simp [toJson, callee.plain, args.plain]
  · simp [toJson, ofJson?, callee.read_eq, args.read_eq]

theorem BinaryOp.written (op : BinaryOp) : Written BinaryOp.ofJson? (.str op.name) op := by
  refine ⟨.str _, ?_⟩
  cases op <;> simp [ofJson?, Json.alternative?, name, ofName]

theorem Literal.written {l : Literal} (h : ∀ x, l ≠ .float x) :
    Written Literal.ofJson? l.toJson l := by
  cases l with
  | string s => constructor <;> simp [toJson, ofJson?, Json.alternative?, ofContent?]
  | int n =>
    obtain ⟨value, hvalue, written⟩ := (written_int64 n).exists_eq
    rw [toJson, hvalue]
    constructor
    · simp [written.plain]
    · simp [ofJson?, Json.alternative?, ofContent?, written.read_eq]
  | float x => exact absurd rfl (h x)
  | bool b => constructor <;> simp [toJson, ofJson?, Json.alternative?, ofContent?]
  | nil => constructor <;> simp [toJson, ofJson?, Json.alternative?, ofContent?]

/-- A constant that is a double. -/
def ValueKind.isFloat : ValueKind → Bool
  | const (.float _) => true
  | _ => false

theorem Literal.ne_float_of_isFloat {l : Literal} (h : (ValueKind.const l).isFloat = false)
    (x : Binary64) : l ≠ .float x := by
  rintro rfl
  cases h

theorem ValueKind.members_eq (k : ValueKind) :
    ∃ instr rest, k.members = ("instr", .str instr) :: rest ∧ "instr" ∉ rest.map (·.1) := by
  cases k <;> exact ⟨_, _, rfl, by simp⟩

/-- No member of an instruction has a name that a value uses for itself. -/
theorem ValueKind.nodup_names (k : ValueKind) :
    (["name", "ty", "pos"] ++ k.members.map (·.1)).Nodup := by
  cases k <;> simp [members]

theorem ValueKind.notMem_names (k : ValueKind) {name : String} (h : name ∈ ["name", "ty", "pos"]) :
    name ∉ k.members.map (·.1) := fun hmem =>
  (List.nodup_append.1 k.nodup_names).2.2 name h name hmem rfl

theorem ValueKind.ofContent?_members {k : ValueKind} (h : k.isFloat = false) {instr : String}
    {rest : List (String × Json)} (hmembers : k.members = ("instr", .str instr) :: rest) :
    ofContent? instr (.obj k.members) = some k := by
  obtain ⟨write, hwrite, hid⟩ := exists_idJson
  cases k with
  | const l =>
    have literal := Literal.written (Literal.ne_float_of_isFloat h)
    cases hmembers
    simp [members, ofContent?, literal.read_eq]
  | parameter index =>
    obtain ⟨value, hvalue, written⟩ := (written_uint64 index).exists_eq
    cases hmembers
    simp [members, hvalue, ofContent?, written.read_eq]
  | freeVar index =>
    obtain ⟨value, hvalue, written⟩ := (written_uint64 index).exists_eq
    cases hmembers
    simp [members, hvalue, ofContent?, written.read_eq]
  | binary op x y =>
    cases hmembers
    simp [members, hwrite, ofContent?, op.written.read_eq, (hid _).read_eq]
  | call c | go c | defer c =>
    cases hmembers
    simp [members, ofContent?, c.written.read_eq]
  | _ =>
    cases hmembers
    simp [members, hwrite, ofContent?, (hid _).read_eq, (written_ids _).read_eq]

theorem ValueKind.plain_members {k : ValueKind} (h : k.isFloat = false) :
    ∀ m ∈ k.members, Plain m.2 := by
  have id (n : UInt32) : Plain (idJson n) := (written_id n).plain
  have ids (ns : List UInt32) : Plain (idsJson ns) := (written_ids ns).plain
  have index (n : UInt64) : Plain (.ofNat n.toNat) := (written_uint64 n).plain
  have call (c : Call) : Plain c.toJson := c.written.plain
  cases k with
  | const l => simp [members, (Literal.written (Literal.ne_float_of_isFloat h)).plain]
  | _ => simp [members, id, ids, index, call]

end Instructions

section Readable

theorem readable_int (depth : Nat) {n : Int} (h : n.natAbs < UInt64.size) :
    readable depth (.num (.int n)) = true := by
  rw [readable, JsonNumber.toBinary64?]
  exact Numeral.isSome_toBinary64?_ofInt h

theorem readable_id (depth : Nat) (id : UInt32) : readable depth (idJson id) = true :=
  readable_int depth (id.toNat_lt.trans (by decide))

theorem readable_uint64 (depth : Nat) (n : UInt64) : readable depth (.ofNat n.toNat) = true :=
  readable_int depth n.toNat_lt

theorem readable_int64 (depth : Nat) (n : Int64) : readable depth (.ofInt n.toInt) = true := by
  have low := n.le_toInt
  have high := n.toInt_lt
  apply readable_int depth
  unfold UInt64.size
  omega

theorem readable_ids (depth : Nat) (ids : List UInt32) :
    readable (depth + 1) (idsJson ids) = true := by
  rw [idsJson, readable]
  induction ids with
  | nil => rfl
  | cons id ids ih => rw [List.map_cons, readableItems, readable_id, ih, Bool.and_self]

theorem Callee.readable_toJson (depth : Nat) (c : Callee) :
    readable (depth + 1) c.toJson = true := by
  cases c <;> simp [toJson, readable, readableMembers, readable_id]

theorem Literal.readable_toJson (depth : Nat) {l : Literal} (h : ∀ x, l ≠ .float x) :
    readable (depth + 1) l.toJson = true := by
  cases l with
  | float x => exact absurd rfl (h x)
  | _ => simp [toJson, readable, readableMembers, readable_int64]

theorem Call.readable_toJson (depth : Nat) (c : Call) : readable (depth + 2) c.toJson = true := by
  simp [toJson, readable, readableMembers, c.callee.readable_toJson, readable_ids]

theorem ValueKind.readable_members (depth : Nat) {k : ValueKind} (h : k.isFloat = false) :
    readableMembers (depth + 2) k.members = true := by
  cases k with
  | const l =>
    have literal := Literal.readable_toJson (depth + 1) (Literal.ne_float_of_isFloat h)
    simp [members, readable, readableMembers, literal]
  | _ =>
    simp [members, readable, readableMembers, readable_id, readable_ids, readable_uint64,
      Call.readable_toJson]

end Readable

section Records

theorem Value.nodup_memberNames (v : Value) : v.toJson.memberNames.Nodup := by
  have names := v.kind.nodup_names
  unfold toJson
  cases v.position with
  | none =>
    refine names.sublist ?_
    simp [Json.optionMember, Json.memberNames]
  | some p => simpa [Json.optionMember, Json.memberNames] using names

/-- What is left of the members of a value without its name, type and position. -/
theorem Value.content_eq (v : Value) :
    ([("name", Json.str v.name), ("ty", Json.str v.type)] ++
      Json.optionMember "pos" Position.toJson v.position ++ v.kind.members).filter
        (fun m => m.1 != "name" && m.1 != "ty" && m.1 != "pos") = v.kind.members := by
  have kept : v.kind.members.filter (fun m => m.1 != "name" && m.1 != "ty" && m.1 != "pos") =
      v.kind.members := by
    rw [List.filter_eq_self]
    intro m hm
    have other (name : String) (h : name ∈ ["name", "ty", "pos"]) : m.1 ≠ name := fun heq =>
      v.kind.notMem_names h (List.mem_map.2 ⟨m, hm, heq⟩)
    simp [other]
  cases v.position with
  | none => simp [Json.optionMember, kept]
  | some p => simp [Json.optionMember, kept]

theorem Value.written {v : Value} (h : v.kind.isFloat = false) :
    Written Value.ofJson? v.toJson v := by
  obtain ⟨instr, rest, hmembers, hrest⟩ := v.kind.members_eq
  have absent (name : String) (h : name ∈ ["name", "ty", "pos"]) :
      Json.member? v.kind.members name = some none :=
    Json.member?_of_notMem (v.kind.notMem_names h)
  have instruction : Json.member? v.kind.members "instr" = some (some (.str instr)) := by
    rw [hmembers]
    exact Json.member?_cons_self (Json.member?_of_notMem hrest)
  have readable : readableMembers memberDepth v.kind.members = true :=
    ValueKind.readable_members 120 h
  have kind := ValueKind.ofContent?_members h hmembers
  have position := Position.orElse_toJson v.position
  constructor
  · simp only [toJson, Json.plain_obj_iff, List.forall_mem_append]
    exact ⟨⟨by simp, plain_optionMember fun p _ => p.written.plain⟩, ValueKind.plain_members h⟩
  · rw [toJson, ofJson?]
    dsimp only
    rw [v.content_eq]
    unfold guard
    simp [absent, readable, instruction, kind, position, Json.nameOrPlace?]

theorem Package.written (p : Package) : Written Package.ofJson? p.toJson p := by
  have strings : ∀ e ∈ p.errors, Written Json.string? (.str e) e := fun e _ => written_str e
  simp only [toJson, listMember_eq]
  constructor
  · simp only [Json.plain_obj_iff, List.forall_mem_append]
    exact ⟨by simp, Json.plain_listMember "errors" strings⟩
  · simp [ofJson?, orElse_list strings]

theorem Function.fields?_toJson (f : Function) :
    f.toJson.fields? ["id", "name", "package_path", "package_name", "receiver", "pos", "params",
      "free_vars", "values", "blocks"] =
    some [some (idJson f.id), some (.str f.name), some (.str f.packagePath),
      some (.str f.packageName), f.receiver.map .str, f.position.map Position.toJson,
      some (.arr (f.params.map Param.toJson)),
      (Json.nonempty? f.freeVars).map fun ps => .arr (ps.map Param.toJson),
      some (.arr (f.values.map Value.toJson)), some (.arr (f.blocks.map Block.toJson))] := by
  rw [toJson, listMember_eq]
  apply Json.fields?_of_members
  simp

theorem Function.written {f : Function} (h : ∀ v ∈ f.values, v.kind.isFloat = false) :
    Written Function.ofJson? f.toJson f := by
  obtain ⟨id, hid, written⟩ := (written_id f.id).exists_eq
  have receiver := orElse_str f.receiver
  have position := Position.orElse_toJson f.position
  have params := written_list fun p (_ : p ∈ f.params) => p.written
  have freeVars : ∀ p ∈ f.freeVars, Written Param.ofJson? p.toJson p := fun p _ => p.written
  have values := written_list fun v hv => Value.written (h v hv)
  have blocks := written_list fun b (_ : b ∈ f.blocks) => b.written
  constructor
  · simp only [toJson, listMember_eq, hid, Json.plain_obj_iff, List.forall_mem_append]
    refine ⟨⟨⟨⟨⟨?_, plain_optionMember fun s _ => .str s⟩,
      plain_optionMember fun p _ => p.written.plain⟩, ?_⟩,
      Json.plain_listMember "free_vars" freeVars⟩, ?_⟩
    · simp [written.plain]
    · simpa using params.plain
    · simpa using ⟨values.plain, blocks.plain⟩
  · rw [ofJson?, f.fields?_toJson, hid]
    simp [written.read_eq, receiver, position, params.read_eq, orElse_list freeVars,
      values.read_eq, blocks.read_eq]

/-- No constant of a program is a double. -/
def Program.FloatFree (p : Program) : Prop :=
  ∀ f ∈ p.functions, ∀ v ∈ f.values, v.kind.isFloat = false

instance (p : Program) : Decidable p.FloatFree :=
  inferInstanceAs (Decidable (∀ f ∈ p.functions, ∀ v ∈ f.values, v.kind.isFloat = false))

theorem Program.written {p : Program} (h : p.FloatFree) : Written Program.ofJson? p.toJson p := by
  have functions := written_list fun f hf => Function.written (h f hf)
  have packages := written_list fun k (_ : k ∈ p.packages) => k.written
  have methods : Written (Json.dict? (Json.dict? Json.uint32?))
      (Json.ofDict (Json.ofDict idJson) p.methodSets) p.methodSets :=
    Json.written_dict fun _ _ => Json.written_dict fun e _ => written_id e.2
  cases hempty : p.methodSets.isEmpty with
  | true =>
    have none : p.methodSets = .empty := Dict.isEmpty_iff.1 hempty
    constructor
    · simp [toJson, hempty, functions.plain, packages.plain]
    · simp [toJson, hempty, ofJson?, functions.read_eq, packages.read_eq, Json.orElse, ← none]
  | false =>
    constructor
    · simp [toJson, hempty, functions.plain, packages.plain, methods.plain]
    · simp [toJson, hempty, ofJson?, functions.read_eq, packages.read_eq, methods.read_eq]

end Records

end ServiceGraph
