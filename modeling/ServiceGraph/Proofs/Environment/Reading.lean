import ServiceGraph.Proofs.Dict
import ServiceGraph.Proofs.Environment.Lines

namespace ServiceGraph.Environment

section Reading

/-- What a line does to the variables that were set before it. -/
def Line.perform (l : Line) (env : Environment) : Environment :=
  match l with
  | .assignment service name value => env.set service name value
  | _ => env

/-- The first malformed line of a text, counted from one. -/
def FirstMalformed (text : List Char) (n : Nat) : Prop :=
  ∃ before line after, Text.lines text = before ++ line :: after ∧ n = before.length + 1 ∧
    Malformed line ∧ ∀ l ∈ before, ¬Malformed l

variable {n : Nat} {env : Environment} {text : List Char}

theorem readLines_cons {line : List Char} (h : ¬Malformed line) (ls : List (List Char)) :
    readLines n env (line :: ls) = readLines (n + 1) ((readLine line).perform env) ls := by
  rw [← readLine_eq_malformed_iff] at h
  rw [readLines]
  cases hline : readLine line with
  | nothing => rfl
  | assignment service name value => rfl
  | malformed => exact absurd hline h

theorem readLines_eq_ok {ls : List (List Char)} (h : ∀ l ∈ ls, ¬Malformed l) :
    readLines n env ls = .ok (ls.foldl (fun env l => (readLine l).perform env) env) := by
  induction ls generalizing n env with
  | nil => rfl
  | cons line ls ih =>
    rw [readLines_cons (h line List.mem_cons_self)]
    exact ih fun l hl => h l (List.mem_cons_of_mem _ hl)

theorem readLines_eq_error {before after : List (List Char)} {line : List Char}
    (hbefore : ∀ l ∈ before, ¬Malformed l) (hline : Malformed line) :
    readLines n env (before ++ line :: after) = .error ⟨n + before.length⟩ := by
  induction before generalizing n env with
  | nil =>
    rw [List.nil_append, readLines, readLine_eq_malformed_iff.2 hline]
    rfl
  | cons first before ih =>
    have number : n + (first :: before).length = n + 1 + before.length := by
      rw [List.length_cons]
      omega
    rw [List.cons_append, readLines_cons (hbefore first List.mem_cons_self), number]
    exact ih fun l hl => hbefore l (List.mem_cons_of_mem _ hl)

/-- A text without a malformed line sets variables, and another one has a first malformed line. -/
theorem wellFormed_or_firstMalformed (text : List Char) :
    (∀ l ∈ Text.lines text, ¬Malformed l) ∨ ∃ n, FirstMalformed text n := by
  cases hfind : (Text.lines text).find? fun l => readLine l = .malformed with
  | none =>
    left
    intro l hl
    rw [← readLine_eq_malformed_iff]
    simpa using List.find?_eq_none.1 hfind l hl
  | some line =>
    right
    obtain ⟨hline, before, after, hlines, hbefore⟩ := List.find?_eq_some_iff_append.1 hfind
    refine ⟨_, before, line, after, hlines, rfl, ?_, ?_⟩
    · simpa [readLine_eq_malformed_iff] using hline
    · intro l hl
      rw [← readLine_eq_malformed_iff]
      simpa using hbefore l hl

theorem parse_eq_ok_iff : parse text = .ok env ↔ (∀ l ∈ Text.lines text, ¬Malformed l) ∧
    env = (Text.lines text).foldl (fun env l => (readLine l).perform env) .empty := by
  rcases wellFormed_or_firstMalformed text with
    h | ⟨n, before, line, after, hlines, -, hline, hbefore⟩
  · rw [parse, readLines_eq_ok h, Except.ok.injEq, eq_comm]
    exact (and_iff_right h).symm
  · have bad : ¬∀ l ∈ Text.lines text, ¬Malformed l := by
      intro h
      exact h line (by simp [hlines]) hline
    rw [parse, hlines, readLines_eq_error hbefore hline, ← hlines]
    simp [bad]

theorem parse_eq_error_iff : parse text = .error ⟨n⟩ ↔ FirstMalformed text n := by
  constructor
  · intro h
    rcases wellFormed_or_firstMalformed text with
      hgood | ⟨m, before, line, after, hlines, rfl, hline, hbefore⟩
    · rw [parse, readLines_eq_ok hgood] at h
      cases h
    · rw [parse, hlines, readLines_eq_error hbefore hline] at h
      obtain rfl : 1 + before.length = n := by simpa using h
      exact ⟨before, line, after, hlines, Nat.add_comm _ _, hline, hbefore⟩
  · rintro ⟨before, line, after, hlines, rfl, hline, hbefore⟩
    rw [parse, hlines, readLines_eq_error hbefore hline, Nat.add_comm]

end Reading

section Variables

/-- The value that a line gives to a variable. -/
def Line.value? (service name : String) : Line → Option String
  | .assignment s n value => if s = service ∧ n = name then some value else none
  | _ => none

/-- Every service has a variable. -/
def Populated (env : Environment) : Prop :=
  ∀ service vars, Dict.get? env service = some vars → vars ≠ .empty

variable {env : Environment} {service name value : String} {text : List Char}

theorem Line.value?_eq_some_iff {l : Line} :
    l.value? service name = some value ↔ l = .assignment service name value := by
  cases l with
  | nothing => simp [value?]
  | assignment s n v => simp [value?, and_assoc]
  | malformed => simp [value?]

theorem get?_eq_bind (env : Environment) (service name : String) :
    env.get? service name = (Dict.get? env service).bind (Dict.get? · name) := rfl

theorem get?_set (env : Environment) (s n v service name : String) :
    (env.set s n v).get? service name =
      if s = service ∧ n = name then some v else env.get? service name := by
  rw [get?_eq_bind, set, Dict.get?_update]
  by_cases hs : service = s
  · subst hs
    rw [if_pos rfl, Option.bind_some, Dict.get?_insert]
    by_cases hn : name = n
    · simp [hn]
    · rw [if_neg hn, if_neg fun h => hn h.2.symm, get?_eq_bind]
      cases Dict.get? env service with
      | none => rfl
      | some vars => rfl
  · rw [if_neg hs, if_neg fun h => hs h.1.symm, get?_eq_bind]

theorem get?_perform (l : Line) (env : Environment) (service name : String) :
    (l.perform env).get? service name = (l.value? service name).or (env.get? service name) := by
  cases l with
  | nothing => rfl
  | malformed => rfl
  | assignment s n v =>
    rw [Line.perform, get?_set, Line.value?]
    split
    · rfl
    · rfl

/-- After some lines a variable has the last value that they give to it, or else its old one. -/
theorem get?_foldl_perform (ls : List (List Char)) (env : Environment) (service name : String) :
    (ls.foldl (fun env l => (readLine l).perform env) env).get? service name =
      (ls.reverse.findSome? fun l => (readLine l).value? service name).or
        (env.get? service name) := by
  induction ls generalizing env with
  | nil => rfl
  | cons line ls ih =>
    rw [List.foldl_cons, ih, get?_perform, List.reverse_cons, List.findSome?_append,
      Option.or_assoc]
    simp

theorem populated_perform (l : Line) {env : Environment} (h : Populated env) :
    Populated (l.perform env) := by
  cases l with
  | nothing => exact h
  | malformed => exact h
  | assignment s n v =>
    intro service vars hvars
    rw [Line.perform, set, Dict.get?_update] at hvars
    split at hvars
    · rintro rfl
      -- the variable that the line sets
      have found := Dict.get?_insert ((Dict.get? env s).getD .empty) n n v
      rw [Option.some.inj hvars, if_pos rfl] at found
      cases found
    · exact h service vars hvars

theorem populated_foldl (ls : List (List Char)) {env : Environment} (h : Populated env) :
    Populated (ls.foldl (fun env l => (readLine l).perform env) env) := by
  induction ls generalizing env with
  | nil => exact h
  | cons line ls ih => exact ih (populated_perform (readLine line) h)

theorem Populated.mem_keys_iff (h : Populated env) :
    service ∈ Dict.keys env ↔ ∃ name, (env.get? service name).isSome = true := by
  simp only [Option.isSome_iff_exists]
  rw [Dict.mem_keys_iff]
  constructor
  · rintro ⟨vars, hvars⟩
    by_contra none
    -- a service without variables would be an empty one
    apply h service vars hvars
    apply Dict.ext_get?
    intro name
    have absent : Dict.get? vars name = .none := by
      rw [Option.eq_none_iff_forall_ne_some]
      intro value hvalue
      apply none
      refine ⟨name, value, ?_⟩
      rw [get?_eq_bind, hvars]
      exact hvalue
    exact absent
  · rintro ⟨name, value, hvalue⟩
    obtain ⟨vars, hvars, -⟩ := Option.bind_eq_some_iff.1 hvalue
    exact ⟨vars, hvars⟩

/-- Where every service has a variable, the variables determine the environment. -/
theorem Populated.ext {env' : Environment} (h : Populated env) (h' : Populated env')
    (hget : ∀ service name, env.get? service name = env'.get? service name) : env = env' := by
  have services (service : String) : service ∈ Dict.keys env ↔ service ∈ Dict.keys env' := by
    simp only [h.mem_keys_iff, h'.mem_keys_iff, hget]
  apply Dict.ext_get?
  intro service
  by_cases hmem : service ∈ Dict.keys env
  · obtain ⟨vars, hvars⟩ := Dict.mem_keys_iff.1 hmem
    obtain ⟨vars', hvars'⟩ := Dict.mem_keys_iff.1 ((services service).1 hmem)
    have same : vars = vars' := by
      apply Dict.ext_get?
      intro name
      have values := hget service name
      rwa [get?_eq_bind, get?_eq_bind, hvars, hvars'] at values
    rw [hvars, hvars', same]
  · have absent : Dict.get? env service = none := by
      simpa [Dict.mem_keys_iff, Option.eq_none_iff_forall_ne_some] using hmem
    have absent' : Dict.get? env' service = none := by
      simpa [services, Dict.mem_keys_iff, Option.eq_none_iff_forall_ne_some] using hmem
    rw [absent, absent']

theorem populated_parse (h : parse text = .ok env) : Populated env := by
  rw [(parse_eq_ok_iff.1 h).2]
  apply populated_foldl
  intro service vars hvars
  cases hvars

theorem get?_parse (h : parse text = .ok env) (service name : String) :
    env.get? service name =
      (Text.lines text).reverse.findSome? fun l => (readLine l).value? service name := by
  rw [(parse_eq_ok_iff.1 h).2, get?_foldl_perform]
  exact Option.or_none

end Variables

section Joining

/-- The last line of a text that sets a variable gives it the value. -/
def LastAssigned (text : List Char) (service name value : String) : Prop :=
  ∃ before line after, Text.lines text = before ++ line :: after ∧
    Says line (.assignment service name value) ∧
    ∀ l ∈ after, ∀ other, ¬Says l (.assignment service name other)

/-- The variables of `a` overridden one by one by those of `b`. -/
structure Overridden (a b env : Environment) : Prop where
  values : ∀ service name,
    env.get? service name = (b.get? service name).or (a.get? service name)
  services : ∀ service,
    service ∈ Dict.keys env ↔ service ∈ Dict.keys a ∨ service ∈ Dict.keys b

variable {a b : List Char} {n m : Nat} {env envA envB : Environment}

theorem Populated.overridden {a b : Environment} (ha : Populated a) (hb : Populated b)
    (h : Populated env) (hvalues : ∀ service name,
      env.get? service name = (b.get? service name).or (a.get? service name)) :
    Overridden a b env := by
  refine ⟨hvalues, fun service => ?_⟩
  simp only [h.mem_keys_iff, ha.mem_keys_iff, hb.mem_keys_iff, hvalues, Option.isSome_or,
    Bool.or_eq_true, exists_or]
  exact or_comm

theorem get?_parse_eq_some_iff {text : List Char} (h : parse text = .ok env)
    {service name value : String} :
    env.get? service name = some value ↔ LastAssigned text service name value := by
  have reads (l : List Char) (v : String) :
      (readLine l).value? service name = some v ↔ Says l (.assignment service name v) :=
    Line.value?_eq_some_iff.trans readLine_eq_assignment_iff
  have silent (l : List Char) : (readLine l).value? service name = none ↔
      ∀ other, ¬Says l (.assignment service name other) := by
    simp only [Option.eq_none_iff_forall_ne_some, Ne, reads]
  -- the value is searched for from the last line on, so what is searched first comes after it
  rw [get?_parse h, List.findSome?_eq_some_iff]
  simp only [reads, silent]
  constructor
  · rintro ⟨later, line, earlier, hlines, hline, hlater⟩
    refine ⟨earlier.reverse, line, later.reverse, ?_, hline, ?_⟩
    · have turned := congrArg List.reverse hlines
      simpa using turned
    · simpa using hlater
  · rintro ⟨before, line, after, hlines, hline, hafter⟩
    refine ⟨after.reverse, line, before.reverse, ?_, hline, ?_⟩
    · simp [hlines]
    · simpa using hafter

theorem firstMalformed_append (h : FirstMalformed a n) (b : List Char) :
    FirstMalformed (a ++ '\n' :: b) n := by
  obtain ⟨before, line, after, hlines, hn, hline, hbefore⟩ := h
  refine ⟨before, line, after ++ Text.lines b, ?_, hn, hline, hbefore⟩
  rw [Text.lines_append_newline, hlines]
  simp

theorem firstMalformed_append_right (ha : ∀ l ∈ Text.lines a, ¬Malformed l)
    (hb : FirstMalformed b m) : FirstMalformed (a ++ '\n' :: b) (1 + a.count '\n' + m) := by
  obtain ⟨before, line, after, hlines, hm, hline, hbefore⟩ := hb
  refine ⟨Text.lines a ++ before, line, after, ?_, ?_, hline, ?_⟩
  · rw [Text.lines_append_newline, hlines]
    simp
  · rw [List.length_append, Text.length_lines]
    omega
  · intro l hl
    rcases List.mem_append.1 hl with hl | hl
    · exact ha l hl
    · exact hbefore l hl

theorem parse_append_ok (ha : parse a = .ok envA) (hb : parse b = .ok envB) :
    ∃ env, parse (a ++ '\n' :: b) = .ok env ∧ Overridden envA envB env := by
  have wellFormed : ∀ l ∈ Text.lines (a ++ '\n' :: b), ¬Malformed l := by
    intro l hl
    rw [Text.lines_append_newline] at hl
    rcases List.mem_append.1 hl with hl | hl
    · exact (parse_eq_ok_iff.1 ha).1 l hl
    · exact (parse_eq_ok_iff.1 hb).1 l hl
  have parsed := parse_eq_ok_iff.2 ⟨wellFormed, rfl⟩
  have values := get?_parse parsed
  refine ⟨_, parsed, ?_⟩
  apply (populated_parse ha).overridden (populated_parse hb) (populated_parse parsed)
  intro service name
  rw [values, Text.lines_append_newline, List.reverse_append, List.findSome?_append,
    get?_parse ha, get?_parse hb]

/-- Two texts with a newline between them are read one after the other. A fault of the first one
stays where it is, a fault of the second one is found after the lines of the first one, and without
faults the variables of the second one override those of the first one. So the fault of a text is
its first malformed line, and a variable has the value of its last assignment. -/
theorem parse_joined :
    (∀ (a b : List Char),
      (∀ n, parse a = .error ⟨n⟩ → parse (a ++ '\n' :: b) = .error ⟨n⟩) ∧
      (∀ envA m, parse a = .ok envA → parse b = .error ⟨m⟩ →
        parse (a ++ '\n' :: b) = .error ⟨1 + a.count '\n' + m⟩) ∧
      (∀ envA envB, parse a = .ok envA → parse b = .ok envB →
        ∃ env, parse (a ++ '\n' :: b) = .ok env ∧ Overridden envA envB env)) ∧
    ∀ text : List Char,
      (∀ n, parse text = .error ⟨n⟩ ↔ FirstMalformed text n) ∧
      ∀ env, parse text = .ok env → ∀ service name value,
        env.get? service name = some value ↔ LastAssigned text service name value := by
  refine ⟨fun a b => ⟨?_, ?_, ?_⟩, fun text => ⟨fun n => parse_eq_error_iff, ?_⟩⟩
  · intro n ha
    rw [parse_eq_error_iff] at ha ⊢
    exact firstMalformed_append ha b
  · intro envA m ha hb
    rw [parse_eq_error_iff] at hb ⊢
    exact firstMalformed_append_right (parse_eq_ok_iff.1 ha).1 hb
  · intro envA envB ha hb
    exact parse_append_ok ha hb
  · intro env h service name value
    exact get?_parse_eq_some_iff h

/-- Variables of a shop, and a file that changes some of them. -/
def firstFile : List Char := "pay.URL=/old\r\npay.PORT=80".toList

def secondFile : List Char := "# moved\n pay.URL = /new?a=b\nstock.URL=".toList

def brokenFile : List Char := "\nstock URL=/\npay=1".toList

theorem shopFiles_joined :
    parse (firstFile ++ '\n' :: brokenFile) = .error ⟨4⟩ ∧
    parse (brokenFile ++ '\n' :: secondFile) = .error ⟨2⟩ ∧ FirstMalformed brokenFile 2 ∧
    (∃ env, parse (firstFile ++ '\n' :: secondFile) = .ok env ∧
      env.get? "pay" "URL" = some "/new?a=b" ∧ env.get? "pay" "PORT" = some "80" ∧
      env.get? "stock" "URL" = some "") ∧
    LastAssigned secondFile "pay" "URL" "/new?a=b" := by
  have first : parse firstFile = .ok
      ((Environment.set .empty "pay" "URL" "/old").set "pay" "PORT" "80") := by decide
  have second : parse secondFile = .ok
      ((Environment.set .empty "pay" "URL" "/new?a=b").set "stock" "URL" "") := by decide
  have broken : parse brokenFile = .error ⟨2⟩ := by decide
  obtain ⟨joined, alone⟩ := parse_joined
  refine ⟨(joined firstFile brokenFile).2.1 _ 2 first broken,
    (joined brokenFile secondFile).1 2 broken, ((alone brokenFile).1 2).1 broken, ?_,
    ((alone secondFile).2 _ second _ _ _).1 (by decide)⟩
  obtain ⟨env, parsed, overridden⟩ := (joined firstFile secondFile).2.2 _ _ first second
  refine ⟨env, parsed, ?_, ?_, ?_⟩
  · rw [overridden.values]
    decide
  · rw [overridden.values]
    decide
  · rw [overridden.values]
    decide

end Joining

end ServiceGraph.Environment
