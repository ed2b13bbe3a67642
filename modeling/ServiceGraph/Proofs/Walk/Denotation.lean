import Mathlib.Data.Option.Basic
import Mathlib.Tactic.Push
import ServiceGraph.Walk.Resolve

namespace ServiceGraph

namespace Function

def kind? (f : Function) (id : ValueId) : Option ValueKind := (f.value? id).map (·.kind)

/-- The value behind all conversions and boxing of another one. -/
inductive Unboxes (f : Function) : ValueId → ValueId → Prop where
  | self {id : ValueId} : f.unbox? id = none → Unboxes f id id
  | step {id x y : ValueId} : f.unbox? id = some x → Unboxes f x y → Unboxes f id y

theorem underlying_eq_some_iff {f : Function} {id y : ValueId} :
    f.underlying id = some y ↔ f.Unboxes id y := by
  constructor
  · apply underlying.partial_correctness f fun id y => f.Unboxes id y
    intro search ih id y h
    cases hid : f.unbox? id with
    | none =>
      simp only [hid, Option.some.injEq] at h
      subst h
      exact .self hid
    | some x =>
      simp only [hid] at h
      exact .step hid (ih x y h)
  · intro h
    induction h with
    | self hid => rw [underlying, hid]
    | step hid _ ih =>
      rw [underlying, hid]
      exact ih

end Function

namespace Analysis

/-- The operands of a call to the formatter: the elements of its second argument, if it has one. -/
inductive Operands (f : Function) (call : Call) : List ValueId → Prop where
  | absent : call.args[1]? = none → Operands f call []
  | variadic {slice : ValueId} {operands : List ValueId} :
      call.args[1]? = some slice → f.variadic? slice = some operands → Operands f call operands

mutual

/-- A value of the active function stands for a text, by a derivation without premises nested deeper
than `n`. -/
inductive Denotes (a : Analysis) : (n : Nat) → Frame → ValueId → String → Prop where
  | const {n : Nat} {frame : Frame} {id : ValueId} {s : String} :
      frame.function.kind? id = some (.const (.string s)) →
      Denotes a n frame id s
  | parameter {n : Nat} {frame : Frame} {id : ValueId} {s : String} {index : UInt64} {b : Bound} :
      frame.function.kind? id = some (.parameter index) →
      frame.param? index = some b →
      Denotes a n (frame.atLevel b.level) b.value s →
      Denotes a (n + 1) frame id s
  | freeVar {n : Nat} {frame : Frame} {id : ValueId} {s : String} {index : UInt64} {b : Bound} :
      frame.function.kind? id = some (.freeVar index) →
      frame.freeVar? index = some b →
      Denotes a n (frame.atLevel b.level) b.value s →
      Denotes a (n + 1) frame id s
  | add {n : Nat} {frame : Frame} {id x y : ValueId} {s t : String} :
      frame.function.kind? id = some (.binary .add x y) →
      Denotes a n frame x s →
      Denotes a n frame y t →
      Denotes a (n + 1) frame id (s ++ t)
  | makeInterface {n : Nat} {frame : Frame} {id x : ValueId} {s : String} :
      frame.function.kind? id = some (.makeInterface x) →
      Denotes a n frame x s →
      Denotes a (n + 1) frame id s
  | convert {n : Nat} {frame : Frame} {id x : ValueId} {s : String} :
      frame.function.kind? id = some (.convert x) →
      Denotes a n frame x s →
      Denotes a (n + 1) frame id s
  | phi {n : Nat} {frame : Frame} {id : ValueId} {edges : List ValueId} {s : String} :
      frame.function.kind? id = some (.phi edges) →
      edges ≠ [] →
      (∀ e ∈ edges, Denotes a n frame e s) →
      Denotes a (n + 1) frame id s
  | substitute {n : Nat} {frame : Frame} {id arg : ValueId} {call : Call} {func : FunctionId}
      {callee : Function} {index : UInt64} {name s : String} :
      frame.function.kind? id = some (.call call) →
      call.callee = .static func →
      a.program.function? func = some callee →
      a.settings.substitutes.index? callee.signature = some index →
      call.args[index.toNat]? = some arg →
      Denotes a n frame arg name →
      a.settings.variableValue? a.service name = some s →
      Denotes a (n + 1) frame id s
  | format {n : Nat} {frame : Frame} {id arg : ValueId} {call : Call} {func : FunctionId}
      {callee : Function} {format : String} {operands : List ValueId} {out : List Char} :
      frame.function.kind? id = some (.call call) →
      call.callee = .static func →
      a.program.function? func = some callee →
      a.settings.substitutes.index? callee.signature = none →
      callee.signature = formatter →
      call.args[0]? = some arg →
      Denotes a n frame arg format →
      Operands frame.function call operands →
      Expands a n frame format.toList operands out →
      Denotes a (n + 1) frame id (String.ofList out)

/-- A format and its operands stand for a text. Operands that are left over do not matter. -/
inductive Expands (a : Analysis) :
    (n : Nat) → Frame → List Char → List ValueId → List Char → Prop where
  | nil {n : Nat} {frame : Frame} {operands : List ValueId} :
      Expands a n frame [] operands []
  | percent {n : Nat} {frame : Frame} {cs out : List Char} {operands : List ValueId} :
      Expands a n frame cs operands out →
      Expands a n frame ('%' :: '%' :: cs) operands ('%' :: out)
  | operand {n : Nat} {frame : Frame} {verb : Char} {cs out : List Char} {o : ValueId}
      {operands : List ValueId} {s : String} :
      Fills a n frame verb o s →
      Expands a n frame cs operands out →
      Expands a n frame ('%' :: verb :: cs) (o :: operands) (s.toList ++ out)
  | char {n : Nat} {frame : Frame} {c : Char} {cs out : List Char} {operands : List ValueId} :
      c ≠ '%' →
      Expands a n frame cs operands out →
      Expands a n frame (c :: cs) operands (c :: out)

/-- What an operand gives for a verb. -/
inductive Fills (a : Analysis) : (n : Nat) → Frame → Char → ValueId → String → Prop where
  | text {n : Nat} {frame : Frame} {verb : Char} {o x : ValueId} {s : String} :
      verb = 's' ∨ verb = 'd' →
      frame.function.Unboxes o x →
      Denotes a n frame x s →
      Fills a n frame verb o s
  | int {n : Nat} {frame : Frame} {o x : ValueId} {i : Int64} :
      frame.function.Unboxes o x →
      frame.function.kind? x = some (.const (.int i)) →
      Fills a n frame 'd' o (String.ofList (Decimal.intText i.toInt))

end

section Exactness

variable {a : Analysis} {n : Nat} {frame : Frame} {inner : Frame → ValueId → Search String}

theorem Fills.verb_eq {verb : Char} {o : ValueId} {s : String} (h : a.Fills n frame verb o s) :
    verb = 's' ∨ verb = 'd' := by
  cases h with
  | text hv => exact hv
  | int => exact .inr rfl

theorem Denotes.kind?_ne_int {id : ValueId} {s : String} {i : Int64} (h : a.Denotes n frame id s) :
    frame.function.kind? id ≠ some (.const (.int i)) := by
  intro hk
  cases h <;> simp_all

theorem operandText_int {text : ValueId → Search String} {f : Function} {o x : ValueId} {i : Int64}
    (hx : f.Unboxes o x) (hk : f.kind? x = some (.const (.int i))) :
    operandText text f 'd' o = .found (String.ofList (Decimal.intText i.toInt)) := by
  obtain ⟨⟨_, _, _, kind⟩, hv, rfl⟩ := Option.map_eq_some_iff.1 hk
  simp only [operandText, Function.underlying_eq_some_iff.2 hx, hv]
  exact if_pos trivial

theorem operandText_inner {text : ValueId → Search String} {f : Function} {o x : ValueId}
    {verb : Char} (hx : f.Unboxes o x)
    (hk : verb = 'd' → ∀ i, f.kind? x ≠ some (.const (.int i))) :
    operandText text f verb o = text x := by
  simp only [operandText, Function.underlying_eq_some_iff.2 hx]
  split
  case h_2 => rfl
  case h_1 i hv =>
    refine if_neg fun hd => hk hd i ?_
    rw [Function.kind?, hv]
    rfl

theorem operandText_endless (text : ValueId → Search String) {f : Function} {o : ValueId}
    (h : f.underlying o = none) (verb : Char) : operandText text f verb o = .endless := by
  rw [operandText, h]

theorem operandText_eq_found_iff
    (h : ∀ id s, inner frame id = .found s ↔ a.Denotes n frame id s) {verb : Char} {o : ValueId}
    {s : String} (hv : verb = 's' ∨ verb = 'd') :
    operandText (inner frame) frame.function verb o = .found s ↔ a.Fills n frame verb o s := by
  constructor
  · intro ht
    cases hu : frame.function.underlying o with
    | none =>
      rw [operandText_endless _ hu] at ht
      cases ht
    | some x =>
      have hx := Function.underlying_eq_some_iff.1 hu
      by_cases hk : verb = 'd' → ∀ i, frame.function.kind? x ≠ some (.const (.int i))
      · rw [operandText_inner hx hk, h] at ht
        exact .text hv hx ht
      · push Not at hk
        obtain ⟨rfl, i, hk⟩ := hk
        rw [operandText_int hx hk] at ht
        cases ht
        exact .int hx hk
  · intro hf
    cases hf with
    | text _ hx hd =>
      rw [operandText_inner hx fun _ _ => hd.kind?_ne_int, h]
      exact hd
    | int hx hk => exact operandText_int hx hk

section Expansion

variable {operand : Char → ValueId → Search String} {cs out : List Char} {operands : List ValueId}

theorem expandFormat_sound
    (h : ∀ verb o s, verb = 's' ∨ verb = 'd' → operand verb o = .found s → a.Fills n frame verb o s)
    (he : expandFormat operand cs operands = .found out) : a.Expands n frame cs operands out := by
  fun_induction expandFormat operand cs operands generalizing out with
  | case1 =>
    cases he
    exact .nil
  | case2 rest operands ih =>
    obtain ⟨tail, ht, heq⟩ := Search.bind_eq_found_iff.1 he
    cases heq
    exact .percent (ih ht)
  | case4 verb rest _ hv o operands ih =>
    obtain ⟨text, ho, he⟩ := Search.bind_eq_found_iff.1 he
    obtain ⟨tail, ht, heq⟩ := Search.bind_eq_found_iff.1 he
    cases heq
    exact .operand (h verb o text hv ho) (ih ht)
  | case7 c rest operands hp hv hl ih =>
    obtain ⟨tail, ht, heq⟩ := Search.bind_eq_found_iff.1 he
    cases heq
    refine .char ?_ (ih ht)
    intro hc
    cases rest with
    | nil => exact hl hc rfl
    | cons verb rest => exact hv verb rest hc rfl
  | case3 | case5 | case6 => cases he

theorem expandFormat_complete
    (h : ∀ verb o s, a.Fills n frame verb o s → operand verb o = .found s)
    (he : a.Expands n frame cs operands out) : expandFormat operand cs operands = .found out := by
  fun_induction expandFormat operand cs operands generalizing out with
  | case1 =>
    cases he
    rfl
  | case2 rest operands ih =>
    cases he with
    | percent he => rw [ih he]; rfl
    | operand hf => simpa using hf.verb_eq
    | char hc => exact absurd rfl hc
  | case3 verb rest hp hv =>
    cases he with
    | percent => simp at hv
    | char hc => exact absurd rfl hc
  | case4 verb rest hp hv o operands ih =>
    cases he with
    | percent => simp at hv
    | operand hf he =>
      rw [h verb o _ hf, ih he]
      rfl
    | char hc => exact absurd rfl hc
  | case5 verb rest operands hp hv =>
    cases he with
    | percent => exact (hp rfl).elim
    | operand hf => exact absurd hf.verb_eq hv
    | char hc => exact absurd rfl hc
  | case6 =>
    cases he with
    | char hc => exact absurd rfl hc
  | case7 c rest operands hp hv hl ih =>
    cases he with
    | percent => exact absurd rfl (hv _ _ rfl)
    | operand => exact absurd rfl (hv _ _ rfl)
    | char _ he =>
      rw [ih he]
      rfl

end Expansion

/-- The elements of the second argument of a call, which may be missing. -/
def operands? (f : Function) (args : List ValueId) : Option (List ValueId) :=
  match args[1]? with
  | some slice => f.variadic? slice
  | none => some []

theorem operands?_eq_some_iff {f : Function} {call : Call} {operands : List ValueId} :
    operands? f call.args = some operands ↔ Operands f call operands := by
  constructor
  · intro h
    rw [operands?] at h
    split at h
    case h_1 slice hs => exact .variadic hs h
    case h_2 hn =>
      cases h
      exact .absent hn
  · rintro (hn | ⟨hs, ho⟩)
    · rw [operands?, hn]
    · rw [operands?, hs]
      exact ho

theorem formatText_eq (text : ValueId → Search String) (f : Function) (args : List ValueId) :
    formatText text f args = (do
      let format ← text (← .ofOption args[0]?)
      let operands ← .ofOption (operands? f args)
      return String.ofList (← expandFormat (operandText text f) format.toList operands)) := by
  rw [formatText, List.head?_eq_getElem?, operands?]
  cases args[1]? <;> rfl

section Step

variable (h : ∀ frame id s, inner frame id = .found s ↔ a.Denotes n frame id s)
include h

theorem formatText_eq_found_iff {call : Call} {s : String} :
    formatText (inner frame) frame.function call.args = .found s ↔
      ∃ arg format operands out, call.args[0]? = some arg ∧ a.Denotes n frame arg format ∧
        Operands frame.function call operands ∧ a.Expands n frame format.toList operands out ∧
        s = String.ofList out := by
  have fills (verb : Char) (o : ValueId) (s : String) (hv : verb = 's' ∨ verb = 'd') :
      operandText (inner frame) frame.function verb o = .found s ↔ a.Fills n frame verb o s :=
    operandText_eq_found_iff (h frame) hv
  rw [formatText_eq]
  constructor
  · intro hs
    obtain ⟨arg, ha, hs⟩ := Search.ofOption_bind_eq_found_iff.1 hs
    obtain ⟨format, hf, hs⟩ := Search.bind_eq_found_iff.1 hs
    obtain ⟨operands, ho, hs⟩ := Search.ofOption_bind_eq_found_iff.1 hs
    obtain ⟨out, he, hs⟩ := Search.bind_eq_found_iff.1 hs
    cases hs
    exact ⟨arg, format, operands, out, ha, (h _ _ _).1 hf, operands?_eq_some_iff.1 ho,
      expandFormat_sound (fun verb o s hv => (fills verb o s hv).1) he, rfl⟩
  · rintro ⟨arg, format, operands, out, ha, hf, ho, he, rfl⟩
    have he := expandFormat_complete (fun verb o s hv => (fills verb o s hv.verb_eq).2 hv) he
    simp only [ha, operands?_eq_some_iff.2 ho, (h _ _ _).2 hf, he, Search.ofOption_some,
      Search.found_bind]
    rfl

theorem callText_sound {id : ValueId} {call : Call} {s : String}
    (hk : frame.function.kind? id = some (.call call))
    (hs : a.callText (inner frame) frame.function call = .found s) :
    a.Denotes (n + 1) frame id s := by
  rw [callText] at hs
  split at hs
  case h_2 => cases hs
  case h_1 func hc =>
    obtain ⟨callee, hf, hs⟩ := Search.ofOption_bind_eq_found_iff.1 hs
    dsimp only at hs
    split at hs
    case h_1 index hi =>
      obtain ⟨arg, ha, hs⟩ := Search.ofOption_bind_eq_found_iff.1 hs
      obtain ⟨name, hn, hs⟩ := Search.bind_eq_found_iff.1 hs
      exact .substitute hk hc hf hi ha ((h _ _ _).1 hn) (Search.ofOption_eq_found_iff.1 hs)
    case h_2 hi =>
      split at hs
      case isFalse => cases hs
      case isTrue hfmt =>
        obtain ⟨arg, format, operands, out, ha, hn, ho, he, rfl⟩ :=
          (formatText_eq_found_iff h).1 hs
        exact .format hk hc hf hi hfmt ha hn ho he

theorem textStep_sound {id : ValueId} {s : String} (hs : a.textStep inner frame id = .found s) :
    a.Denotes (n + 1) frame id s := by
  obtain ⟨v, hv, hs⟩ := Search.ofOption_bind_eq_found_iff.1 hs
  have hk : frame.function.kind? id = some v.kind := by rw [Function.kind?, hv, Option.map_some]
  split at hs
  case h_9 => cases hs
  all_goals
    rename_i hkind
    rw [hkind] at hk
  case h_1 =>
    cases hs
    exact .const hk
  case h_2 =>
    obtain ⟨b, hb, hs⟩ := Search.ofOption_bind_eq_found_iff.1 hs
    exact .parameter hk hb ((h _ _ _).1 hs)
  case h_3 =>
    obtain ⟨b, hb, hs⟩ := Search.ofOption_bind_eq_found_iff.1 hs
    exact .freeVar hk hb ((h _ _ _).1 hs)
  case h_4 =>
    obtain ⟨left, hl, hs⟩ := Search.bind_eq_found_iff.1 hs
    obtain ⟨right, hr, hs⟩ := Search.bind_eq_found_iff.1 hs
    cases hs
    exact .add hk ((h _ _ _).1 hl) ((h _ _ _).1 hr)
  case h_5 => exact callText_sound h hk hs
  case h_6 =>
    obtain ⟨hne, hs⟩ := Search.agreed_eq_found_iff.1 hs
    exact .phi hk hne fun e he => (h _ _ _).1 (hs e he)
  case h_7 => exact .makeInterface hk ((h _ _ _).1 hs)
  case h_8 => exact .convert hk ((h _ _ _).1 hs)

omit h in
theorem Denotes.exists_value {id : ValueId} {s : String} (hd : a.Denotes n frame id s) :
    ∃ v, frame.function.value? id = some v := by
  have hk : (frame.function.kind? id).isSome := by cases hd <;> simp [*]
  rw [Function.kind?, Option.isSome_map] at hk
  exact Option.isSome_iff_exists.1 hk

theorem textStep_complete {id : ValueId} {s : String} (hd : a.Denotes (n + 1) frame id s) :
    a.textStep inner frame id = .found s := by
  obtain ⟨v, hv⟩ := hd.exists_value
  have kind {kind : ValueKind} (hk : frame.function.kind? id = some kind) : v.kind = kind := by
    rw [Function.kind?, hv] at hk
    exact Option.some.inj hk
  rw [textStep, hv, Search.ofOption_some, Search.found_bind]
  cases hd with
  | const hk => rw [kind hk]
  | parameter hk hb hx | freeVar hk hb hx =>
    simp only [kind hk, hb, Search.ofOption_some, Search.found_bind]
    exact (h _ _ _).2 hx
  | add hk hx hy =>
    simp only [kind hk, (h _ _ _).2 hx, (h _ _ _).2 hy, Search.found_bind]
  | makeInterface hk hx | convert hk hx =>
    rw [kind hk]
    exact (h _ _ _).2 hx
  | phi hk hne hx =>
    rw [kind hk]
    exact Search.agreed_eq_found_iff.2 ⟨hne, fun e he => (h _ _ _).2 (hx e he)⟩
  | substitute hk hc hf hi ha hn hs =>
    simp only [kind hk, callText, hc, hf, hi, ha, (h _ _ _).2 hn, hs, Search.ofOption_some,
      Search.found_bind]
  | format hk hc hf hi hfmt ha hn ho he =>
    rw [hfmt] at hi
    simp only [kind hk, callText, hc, hf, hfmt, hi, if_true, Search.ofOption_some,
      Search.found_bind]
    exact (formatText_eq_found_iff h).2 ⟨_, _, _, _, ha, hn, ho, he, rfl⟩

end Step

/-- Without the texts of other values a call has none. -/
theorem callText_unknown (a : Analysis) (f : Function) (call : Call) (s : String) :
    a.callText (fun _ => .unknown) f call ≠ .found s := by
  intro hs
  rw [callText] at hs
  split at hs
  case h_2 => cases hs
  case h_1 func hc =>
    obtain ⟨callee, -, hs⟩ := Search.ofOption_bind_eq_found_iff.1 hs
    dsimp only at hs
    split at hs
    case h_1 index hi =>
      obtain ⟨arg, -, hs⟩ := Search.ofOption_bind_eq_found_iff.1 hs
      cases hs
    case h_2 =>
      split at hs
      case isFalse => cases hs
      case isTrue =>
        rw [formatText_eq] at hs
        obtain ⟨arg, -, hs⟩ := Search.ofOption_bind_eq_found_iff.1 hs
        cases hs

/-- Without the texts of other values only constants have one. -/
theorem textWithin_one_eq_found_iff {id : ValueId} {s : String} :
    a.textWithin 1 frame id = .found s ↔ a.Denotes 0 frame id s := by
  constructor
  · intro hs
    obtain ⟨v, hv, hs⟩ := Search.ofOption_bind_eq_found_iff.1 hs
    split at hs
    case h_1 hk =>
      cases hs
      exact .const (by rw [Function.kind?, hv, Option.map_some, hk])
    case h_2 | h_3 =>
      obtain ⟨b, -, hs⟩ := Search.ofOption_bind_eq_found_iff.1 hs
      cases hs
    case h_5 => exact absurd hs (a.callText_unknown _ _ s)
    case h_6 edges hk =>
      obtain ⟨hne, hs⟩ := Search.agreed_eq_found_iff.1 hs
      obtain ⟨e, he⟩ := List.exists_mem_of_ne_nil edges hne
      cases hs e he
    all_goals cases hs
  · intro hd
    cases hd with
    | const hk =>
      obtain ⟨v, hv, hk⟩ := Option.map_eq_some_iff.1 hk
      simp [textWithin, textStep, hv, hk]

theorem textWithin_eq_found_iff (a : Analysis) (n : Nat) (frame : Frame) (id : ValueId)
    (s : String) : a.textWithin (n + 1) frame id = .found s ↔ a.Denotes n frame id s := by
  induction n generalizing frame id s with
  | zero => exact textWithin_one_eq_found_iff
  | succ n ih => exact ⟨textStep_sound ih, textStep_complete ih⟩

end Exactness

/-- Resolving is exact: it finds the text that a value stands for by a derivation with premises
nested at most 32 deep, and nothing where there is none. -/
theorem resolve_eq_found_iff (a : Analysis) (frame : Frame) (id : ValueId) (s : String) :
    a.resolve frame id = .found s ↔ a.Denotes 32 frame id s :=
  textWithin_eq_found_iff a 32 frame id s

end Analysis

end ServiceGraph
