import AgsCli.Invocation.ParameterFlags

/-! # Parameters set from the command line

The line of an operation with one parameter's flag and a value put among its other flags, against
the line without them. -/
namespace SettableFlags

open OrderedMap Json CatalogueTypes WorkflowTypes RequestTypes FlagCapture Strings Flags CommandLine
  CliInputs Synthesised AutoDerive Resolve ParameterFlags
open HelpTree (LeafSelectors ResolvedContract)
open Casing (CaseTable)

def inputsOf (readers : Readers) (compiled : CompiledWorkflow) (prep : Prepared)
    (parsed : Parsed) : Values :=
  preSupplied readers compiled prep.contract.operation parsed.args parsed.body

def coerced (readers : Readers) (p : ParameterSchema) (v : String) : Value :=
  coerceCliValue readers v (some (parameterSchemaValue p))

/-- The line with a flag and its value put among the others. -/
def lineWith (table : CaseTable) (service resource name : String) (front back : List Group)
    (p : ParameterSchema) (v : String) : List String :=
  service :: resource :: name :: (words front ++ parameterFlag table p :: v :: words back)

section Statement

variable (readers : Readers) (host : Host) (compiled : CompiledWorkflow) (p : ParameterSchema)
  (v : String)

/-- The line with the flag gives the parameter its value, and is otherwise the line without. -/
structure Receives (prep prep' : Prepared) (base parsed : Parsed) : Prop where
  parsesBase : parse host prep = .ok base
  parses : parse host prep' = .ok parsed
  method : prep'.method = prep.method
  contract : prep'.contract = prep.contract
  selectors : prep'.selectors = prep.selectors
  own : longName host.table p ≠ "namespace" → prep'.flags = prep.flags ∧ ∃ before after,
    prep.tokens = before ++ after ∧
      prep'.tokens = before ++ parameterFlag host.table p :: v :: after
  shared : longName host.table p = "namespace" →
    prep'.flags = setNamespace prep.flags v ∧ prep'.tokens = prep.tokens
  value : parsed.args p.name = some v
  received : (inputsOf readers compiled prep' parsed).get? p.name = some (coerced readers p v)
  body : parsed.body = base.body
  otherArgs : ∀ name, name ≠ p.name → parsed.args name = base.args name
  otherInputs : ∀ name, name ≠ p.name → (inputsOf readers compiled prep' parsed).get? name =
    (inputsOf readers compiled prep base).get? name

def Sets (prep : Prepared) (extended : Except Stop Prepared) : Prop :=
  ∃ prep' base parsed, extended = .ok prep' ∧ Receives readers host compiled p v prep prep' base
    parsed

/-- No argument of the command shares an id or a long name, no scan or check takes the flag, a
shared `--namespace` is the parameter's own name, and a body has no other value for it. -/
structure Settable (prep : Prepared) : Prop where
  valid : (prep.command host.table).Valid
  named : longName host.table p ≠ ""
  plain : '=' ∉ (longName host.table p).toList
  free : longName host.table p ∉ takenNames
  «namespace» : longName host.table p = "namespace" → p.name = "namespace" ∧ trim v ≠ ""
  member : ∀ base, parse host prep = .ok base → ∀ m, memberOf base.body p.name = some m →
    m = coerced readers p v

end Statement

section Scans

variable {schema : ServiceSchema} {service resource name : String} {front back : List Group}
  {g : Group} {prep prep' : Prepared} {v : String} {table : CaseTable}

theorem words_append (front back : List Group) :
    words (front ++ back) = words front ++ words back :=
  List.flatMap_append

theorem all_insert {P : Group → Prop} (h : ∀ k ∈ front ++ back, P k) (hg : P g) :
    ∀ k ∈ front ++ g :: back, P k := by
  intro k hk
  rcases List.mem_append.mp hk with hfirst | hlast
  · exact h k (List.mem_append_left _ hfirst)
  · rcases List.mem_cons.mp hlast with rfl | hrest
    · exact hg
    · exact h k (List.mem_append_right _ hrest)

/-- The line with the flag, when the flag and its value are a group of it. -/
theorem lineWith_eq (service resource name : String) (front back : List Group)
    (p : ParameterSchema) (v : String) :
    lineWith table service resource name front back p v =
      lineOf service resource name (front ++ .pair (parameterFlag table p) v :: back) := by
  rw [lineWith, lineOf, words_append]
  rfl

theorem kept_append (front back : List Group) : kept (front ++ back) = kept front ++ kept back := by
  rw [kept, unscanned, List.filter_append, List.filter_append]
  rfl

theorem kept_cons (hglobal : g.isGlobal = false) (hselector : g.isSelector = false) :
    kept (g :: back) = g :: kept back := by
  rw [kept, unscanned, List.filter_cons_of_pos (by rw [hglobal]; rfl),
    List.filter_cons_of_pos (by rw [hselector]; rfl)]
  rfl

/-- A group that a scan takes is not left to the parser. -/
theorem kept_taken (h : g.isGlobal = true ∨ g.isSelector = true) :
    kept (g :: back) = kept back := by
  by_cases hglobal : g.isGlobal = true
  · rw [kept, unscanned, List.filter_cons_of_neg (by rw [hglobal]; decide)]
    rfl
  · have hselector := h.resolve_left hglobal
    rw [kept, unscanned, List.filter_cons_of_pos (by simpa using hglobal),
      List.filter_cons_of_neg (by rw [hselector]; decide)]
    rfl

theorem kept_complete (h : ∀ g ∈ front, g.Complete) :
    ∀ g ∈ kept front, g.Complete ∧ g.isGlobal = false := by
  intro g hg
  obtain ⟨hmem, -⟩ := List.mem_filter.mp hg
  obtain ⟨hmem, hglobal⟩ := List.mem_filter.mp hmem
  exact ⟨h g hmem, by simpa using hglobal⟩

theorem flags_free (hglobal : g.isGlobal = false) (flags : GlobalFlags) :
    applyGlobals flags (front ++ g :: back) = applyGlobals flags (front ++ back) := by
  rw [applyGlobals, applyGlobals, List.filter_append, List.filter_append,
    List.filter_cons_of_neg (by rw [hglobal]; decide)]

theorem selected_free (h : g.isGlobal = true ∨ g.isSelector = false) :
    selected (front ++ g :: back) = selected (front ++ back) := by
  rw [selected, selected, unscanned, unscanned, List.filter_append, List.filter_append,
    List.filter_append, List.filter_append]
  by_cases hglobal : g.isGlobal = true
  · rw [List.filter_cons_of_neg (by rw [hglobal]; decide)]
  · have hselector := h.resolve_left hglobal
    rw [List.filter_cons_of_pos (by simpa using hglobal),
      List.filter_cons_of_neg (by rw [hselector]; decide)]

/-- A flag that no scan and no check looks at goes to the parser, and the line is otherwise read
as without it. -/
theorem leads_free (hglobal : g.isGlobal = false) (hselector : g.isSelector = false)
    (hversion : g.tokens.any isVersion = false) (hhelp : g.tokens.any isHelp = false)
    (h : Leads schema resource name (front ++ back) prep) :
    Leads schema resource name (front ++ g :: back)
      { prep with tokens := words (kept front) ++ (g.tokens ++ words (kept back)) } := by
  have hwords : words (front ++ g :: back) = words front ++ (g.tokens ++ words back) := by
    rw [words_append]
    rfl
  have hkept : words (kept (front ++ g :: back)) =
      words (kept front) ++ (g.tokens ++ words (kept back)) := by
    rw [kept_append, kept_cons hglobal hselector, words_append]
    rfl
  have hversions := h.noVersion
  have hhelps := h.noHelp
  rw [words_append, List.any_append, Bool.or_eq_false_iff] at hversions
  rw [h.tokens, kept_append, words_append, List.any_append, Bool.or_eq_false_iff] at hhelps
  refine ⟨?_, ?_, h.pageLimit, ?_, hkept.symm, ?_, h.noSkeleton, h.found⟩
  · rw [flags_free hglobal]
    exact h.flags
  · rw [hwords, List.any_append, List.any_append, hversions.1, hversion, hversions.2]
    rfl
  · rw [selected_free (Or.inr hselector)]
    exact h.selectors
  · rw [List.any_append, List.any_append, hhelps.1, hhelp, hhelps.2]
    rfl

theorem withValue_map {flags flags' : GlobalFlags} {value : Option String}
    {set set' : String → Except String GlobalFlags} {f : GlobalFlags → GlobalFlags}
    (hflags : flags' = f flags) (hset : ∀ w, set' w = (set w).map f) :
    withValue flags' value set' = (withValue flags value set).map f := by
  cases value with
  | none =>
    rw [hflags]
    rfl
  | some w => exact hset w

theorem ite_map {c : Prop} [Decidable c] {a a' b b' : Except String GlobalFlags}
    {f : GlobalFlags → GlobalFlags} (ha : c → a' = a.map f) (hb : ¬ c → b' = b.map f) :
    (if c then a' else b') = (if c then a else b).map f := by
  split_ifs with hc
  · exact ha hc
  · exact hb hc

theorem applyFlag_setNamespace {flag : String} {value : Option String} {flags : GlobalFlags}
    (h : ¬ (flag = "--namespace" ∨ flag = "-n")) :
    applyFlag (setNamespace flags v) flag value =
      (applyFlag flags flag value).map fun flags => setNamespace flags v := by
  unfold applyFlag
  refine ite_map (fun _ => rfl) fun _ => ite_map (fun _ => rfl) fun _ => ?_
  refine ite_map (fun _ => rfl) fun _ => ite_map (fun _ => rfl) fun _ => ?_
  refine ite_map (fun _ => rfl) fun _ => ite_map (fun _ => ?_) fun _ => ?_
  · refine withValue_map rfl fun w => ?_
    cases parseFormat w <;> rfl
  refine ite_map (fun _ => ?_) fun _ => ite_map (fun hnamespace => absurd hnamespace h) fun _ => ?_
  · refine withValue_map rfl fun w => ?_
    cases parseUi w <;> rfl
  refine ite_map (fun _ => withValue_map rfl fun w => rfl) fun _ => ?_
  refine ite_map (fun _ => withValue_map rfl fun w => rfl) fun _ => ?_
  refine ite_map (fun _ => rfl) fun _ => ite_map (fun _ => rfl) fun _ => ?_
  refine ite_map (fun _ => ?_) fun _ => ite_map (fun _ => rfl) fun _ => ?_
  · refine withValue_map rfl fun w => ?_
    cases parseTimeout w <;> rfl
  exact ite_map (fun _ => withValue_map rfl fun w => rfl) fun _ => rfl

theorem applyGlobals_setNamespace
    (h : ∀ g ∈ back, ¬ (g.flag = "--namespace" ∨ g.flag = "-n")) (flags : GlobalFlags) :
    applyGlobals (setNamespace flags v) back =
      (applyGlobals flags back).map fun flags => setNamespace flags v := by
  induction back generalizing flags with
  | nil => rfl
  | cons g back ih =>
    have hrest := ih fun k hk => h k (List.mem_cons_of_mem g hk)
    by_cases hglobal : g.isGlobal = true
    · unfold applyGlobals at hrest ⊢
      rw [List.filter_cons_of_pos hglobal, List.foldlM_cons, List.foldlM_cons,
        applyFlag_setNamespace (h g List.mem_cons_self)]
      cases applyFlag flags g.flag g.value? with
      | error e => rfl
      | ok next => exact hrest next
    · unfold applyGlobals at hrest ⊢
      rw [List.filter_cons_of_neg hglobal]
      exact hrest flags

theorem applyGlobals_append (flags : GlobalFlags) :
    applyGlobals flags (front ++ back) =
      (applyGlobals flags front).bind fun flags => applyGlobals flags back := by
  rw [applyGlobals, List.filter_append, List.foldlM_append]
  rfl

theorem applyFlag_namespace (flags : GlobalFlags) (v : String) :
    applyFlag flags "--namespace" (some v) =
      if trim v = "" then .error "--namespace value cannot be empty"
      else .ok (setNamespace flags v) := by
  simp [applyFlag, withValue]

/-- The shared `--namespace`: its value is the namespace of the line, and no blank. -/
theorem flags_namespace (h : ∀ g ∈ back, ¬ (g.flag = "--namespace" ∨ g.flag = "-n")) :
    applyGlobals noFlags (front ++ .pair "--namespace" v :: back) =
      if trim v = "" then
        (applyGlobals noFlags front).bind fun _ => .error "--namespace value cannot be empty"
      else (applyGlobals noFlags (front ++ back)).map fun flags => setNamespace flags v := by
  have hpair : ∀ flags, applyGlobals flags (.pair "--namespace" v :: back) =
      if trim v = "" then .error "--namespace value cannot be empty"
      else applyGlobals (setNamespace flags v) back := by
    intro flags
    unfold applyGlobals
    rw [List.filter_cons_of_pos (by rfl), List.foldlM_cons, Group.flag, Group.value?,
      applyFlag_namespace]
    split_ifs <;> rfl
  rw [applyGlobals_append, applyGlobals_append]
  simp only [hpair, applyGlobals_setNamespace h]
  cases applyGlobals noFlags front with
  | error e => split_ifs <;> rfl
  | ok flags => split_ifs <;> rfl

theorem parsePageLimit_ok {flags : GlobalFlags} : parsePageLimit flags = .ok flags ↔
    ∀ raw, flags.pageLimitRaw = some raw →
      ∃ limit, parseUsize raw.toList = some limit ∧ 1 ≤ limit ∧ limit ≤ 100 := by
  unfold parsePageLimit
  cases flags.pageLimitRaw with
  | none => simp
  | some raw =>
    cases hlimit : parseUsize raw.toList <;> simp [hlimit]

/-- With the shared `--namespace` a line is the line without it, in another namespace. -/
theorem leads_namespace (hback : ∀ g ∈ back, ¬ (g.flag = "--namespace" ∨ g.flag = "-n"))
    (hv : trim v ≠ "") (hversion : isVersion v = false)
    (h : Leads schema resource name (front ++ back) prep) :
    Leads schema resource name (front ++ .pair "--namespace" v :: back)
      { prep with flags := setNamespace prep.flags v } := by
  have hglobal : (Group.pair "--namespace" v).isGlobal = true := rfl
  have hwords : words (front ++ .pair "--namespace" v :: back) =
      words front ++ ["--namespace", v] ++ words back := by
    rw [words_append, List.append_assoc]
    rfl
  have hversions := h.noVersion
  rw [words_append, List.any_append, Bool.or_eq_false_iff] at hversions
  refine ⟨?_, ?_, ?_, ?_, ?_, h.noHelp, h.noSkeleton, h.found⟩
  · rw [flags_namespace hback, if_neg hv, h.flags]
    rfl
  · rw [hwords, List.any_append, List.any_append, hversions.1, hversions.2, List.any_cons,
      List.any_cons, hversion]
    rfl
  · have hlimit := parsePageLimit_ok.mp h.pageLimit
    exact parsePageLimit_ok.mpr hlimit
  · rw [selected_free (Or.inl hglobal)]
    exact h.selectors
  · rw [kept_append, kept_taken (Or.inl hglobal), ← kept_append]
    exact h.tokens

/-- The shared `--namespace` is refused with a blank. -/
theorem blank_namespace (hback : ∀ g ∈ back, ¬ (g.flag = "--namespace" ∨ g.flag = "-n"))
    (h : Leads schema resource name (front ++ .pair "--namespace" v :: back) prep) :
    trim v ≠ "" := by
  intro hv
  have hflags := h.flags
  rw [flags_namespace hback, if_pos hv] at hflags
  cases hfront : applyGlobals noFlags front with
  | error e =>
    rw [hfront] at hflags
    cases hflags
  | ok flags =>
    rw [hfront] at hflags
    cases hflags

end Scans

section Parsing

variable {host : Host} {prep : Prepared} {parsed : Parsed} {p : ParameterSchema} {c : Command}
  {groups : List Group} {operation : OperationSchema} {tokens : List String}
  {«namespace» : Option String} {v word : String} {table : CaseTable}

theorem parse_ok (hvalid : (prep.command host.table).Valid) : parse host prep = .ok parsed ↔
    options (prep.command host.table) (prep.line host) = some parsed.given ∧
      (parsed.given.map Prod.fst).Nodup ∧
      resolveRequestBody host prep.contract.operation (Entries.lookup "json" parsed.given)
        prep.flags.isNoInput = .ok parsed.body := by
  unfold parse
  rw [host.parser.long_options _ _ hvalid]
  cases hgiven : options (prep.command host.table) (prep.line host) with
  | none => simp
  | some given =>
    by_cases hnodup : (given.map Prod.fst).Nodup
    · rw [Option.filter_some_pos (by simpa using hnodup)]
      simp only [Option.some.injEq]
      constructor
      · intro h
        obtain ⟨body, hbody, heq⟩ := Checks.bind_eq_ok.mp h
        obtain rfl := Except.ok.inj heq
        exact ⟨rfl, hnodup, Checks.mapError_eq_ok.mp hbody⟩
      · rintro ⟨rfl, -, hbody⟩
        exact Checks.bind_eq_ok.mpr ⟨parsed.body, Checks.mapError_eq_ok.mpr hbody, rfl⟩
    · rw [Option.filter_some_neg (by simpa using hnodup)]
      simp only [Option.some.injEq]
      constructor
      · intro h
        cases h
      · rintro ⟨rfl, hnot, -⟩
        exact absurd hnot hnodup

theorem namesNamespace_flag (h : namesNamespace word = true) :
    (splitInline word).1 = "--namespace" := by
  rw [namesNamespace, Bool.or_eq_true, beq_iff_eq] at h
  rcases h with rfl | hinline
  · rfl
  · obtain ⟨rest, hrest⟩ := List.isPrefixOf_iff_prefix.mp hinline
    unfold splitInline
    rw [← hrest]
    rfl

theorem namesNamespace_value (h : isValue word = true) : namesNamespace word = false := by
  rw [Bool.eq_false_iff]
  intro hnames
  have hname := namesNamespace_flag hnames
  have hflag : startsWithDash (splitInline word).1 = true := by
    rw [hname]
    rfl
  have hdash := startsWithDash_splitInline hflag
  rw [isValue, hdash] at h
  obtain rfl : word = "-" := by simpa using h
  revert hname
  decide

theorem namesNamespace_words (h : ∀ g ∈ groups, g.Complete)
    (hflag : ∀ g ∈ groups, g.flag ≠ "--namespace") : (words groups).any namesNamespace = false := by
  have hvalues : ∀ {word : String}, isValue word = true → ¬ namesNamespace word = true :=
    fun hvalue => Bool.eq_false_iff.mp (namesNamespace_value hvalue)
  rw [← Bool.not_eq_true, List.any_eq_true]
  rintro ⟨word, hword, hnames⟩
  obtain ⟨g, hg, hmem⟩ := List.mem_flatMap.mp hword
  have hcomplete := h g hg
  have hother := hflag g hg
  cases g with
  | word token =>
    obtain rfl := List.mem_singleton.mp hmem
    exact hother (namesNamespace_flag hnames)
  | pair flag value =>
    obtain ⟨-, hsplit, -, hvalue, -⟩ := hcomplete
    rcases List.mem_cons.mp hmem with rfl | hlast
    · have hname := namesNamespace_flag hnames
      rw [splitInline_none hsplit] at hname
      exact hother hname
    · obtain rfl := List.mem_singleton.mp hlast
      exact hvalues hvalue hnames
  | operand token =>
    obtain rfl := List.mem_singleton.mp hmem
    exact hvalues hcomplete hnames

theorem options_namespace (value : String) : options c ["--namespace", value] =
    (c.id? "namespace").bind fun id => if isValue value then some [(id, value)] else none := by
  have hlong : longOption? "--namespace" = some ("namespace", none) := by decide
  have hword : "--namespace" ≠ "--" := by decide
  rw [options.eq_def]
  simp only [hlong, if_neg hword]
  cases c.id? "namespace" with
  | none => rfl
  | some id => cases isValue value <;> rfl

/-- What is put behind the words gives the namespace alone, to a parameter of that name. -/
theorem injected_given {more : List (String × String)}
    (h : options c (injected operation «namespace» tokens) = some more) :
    ∀ e ∈ more, c.id? "namespace" = some e.1 ∧
      ∃ q ∈ operation.parameters, q.name = "namespace" := by
  have hempty : options c [] = some more → more = [] := fun hnil => (Option.some.inj hnil).symm
  intro e he
  have hsome : more ≠ [] := List.ne_nil_of_mem he
  unfold injected at h
  split at h
  · exact absurd (hempty h) hsome
  · split_ifs at h with hnamed hdeclared
    · exact absurd (hempty h) hsome
    · rw [options_namespace] at h
      obtain ⟨id, hid, hvalue⟩ := Option.bind_eq_some_iff.mp h
      split_ifs at hvalue
      obtain rfl := Option.some.inj hvalue
      obtain rfl := List.mem_singleton.mp he
      obtain ⟨q, hq, hname⟩ := List.any_eq_true.mp hdeclared
      exact ⟨hid, q, hq, of_decide_eq_true hname⟩
    · exact absurd (hempty h) hsome

/-- The words and what is put behind them give their arguments apart. -/
theorem given_split {given : List (String × String)}
    (h : ∀ g ∈ groups, g.Complete ∧ g.isGlobal = false) :
    options c (words groups ++ tokens) = some given ↔ ∃ own more,
      groups.mapM (option? c) = some own ∧ options c tokens = some more ∧ given = own ++ more := by
  rw [options_words h, Option.bind_eq_some_iff]
  constructor
  · rintro ⟨own, hown, hrest⟩
    obtain ⟨more, hmore, rfl⟩ := Option.map_eq_some_iff.mp hrest
    exact ⟨own, more, hown, hmore, rfl⟩
  · rintro ⟨own, more, hown, hmore, rfl⟩
    exact ⟨own, hown, Option.map_eq_some_iff.mpr ⟨more, hmore, rfl⟩⟩

theorem mem_command (hp : p ∈ prep.contract.operation.parameters) :
    (p.name, longName table p) ∈ (prep.command table).args :=
  List.mem_append_left _ (List.mem_append_left _ (List.mem_append_left _
    (List.mem_map_of_mem (f := fun p => (p.name, Casing.toKebabCase table p.name)) hp)))

theorem body_given (hvalid : (prep.command host.table).Valid)
    (hp : p ∈ prep.contract.operation.parameters)
    {given given' : List (String × String)} {isNoInput : Bool}
    (h : p.name ≠ "json" → Entries.lookup "json" given' = Entries.lookup "json" given) :
    resolveRequestBody host prep.contract.operation (Entries.lookup "json" given') isNoInput =
      resolveRequestBody host prep.contract.operation (Entries.lookup "json" given) isNoInput := by
  by_cases hbody : prep.contract.operation.requestBody.isNone = true
  · unfold resolveRequestBody
    rw [if_pos hbody, if_pos hbody]
  · rw [h]
    rintro hname
    have hjson : prep.contract.operation.requestBody.isSome = true := by
      cases hsome : prep.contract.operation.requestBody with
      | none =>
        rw [hsome] at hbody
        exact absurd rfl hbody
      | some schema => rfl
    have hids := hvalid.1
    unfold Prepared.command operationArgs at hids
    simp only [if_pos hjson, List.append_assoc, List.map_append] at hids
    have hfirst : "json" ∈ (prep.contract.operation.parameters.map
        fun p => (p.name, Casing.toKebabCase host.table p.name)).map Prod.fst := by
      rw [List.map_map]
      exact hname ▸ List.mem_map_of_mem (f := fun p : ParameterSchema => p.name) hp
    exact (List.nodup_append.mp hids).2.2 "json" hfirst "json" List.mem_cons_self rfl

end Parsing

section Given

variable {prep : Prepared} {p : ParameterSchema} {v : String} {front back : List Group}
  {table : CaseTable}

/-- The flag of no other group, and for the shared `--namespace` not its short form. -/
structure Unset (table : CaseTable) (p : ParameterSchema) (groups : List Group) : Prop where
  flag : ∀ g ∈ groups, g.flag ≠ parameterFlag table p
  short : longName table p = "namespace" → ∀ g ∈ groups, g.flag ≠ "-n"

theorem pair_complete (hdash : startsWithDash v = false)
    (hplain : '=' ∉ (longName table p).toList)
    (hswitch : takesValue? (parameterFlag table p) ≠ some false) :
    (Group.pair (parameterFlag table p) v).Complete := by
  refine ⟨dash_long _, ?_, hswitch, ?_, fun _ => hdash⟩
  · rw [parameterFlag, splitInline_long, splitInline_plain hplain]
  · rw [isValue, hdash]
    rfl

theorem value_checks (hdash : startsWithDash v = false) :
    isVersion v = false ∧ isHelp v = false := by
  have hne : ∀ flag, startsWithDash flag = true → v ≠ flag := by
    rintro flag hflag rfl
    rw [hdash] at hflag
    cases hflag
  rw [isVersion, isHelp, Bool.or_eq_false_iff, Bool.or_eq_false_iff]
  exact ⟨⟨beq_eq_false_iff_ne.mpr (hne _ rfl), beq_eq_false_iff_ne.mpr (hne _ rfl)⟩,
    beq_eq_false_iff_ne.mpr (hne _ rfl), beq_eq_false_iff_ne.mpr (hne _ rfl)⟩

theorem not_switch (hfree : longName table p ∉ takenNames) :
    takesValue? (parameterFlag table p) ≠ some false := by
  have hswitches : ∀ name ∈ switchNames, name ∈ takenNames := by decide
  exact fun htakes => hfree (hswitches _ (takesValue_long htakes))

theorem takesValue_free (hfree : longName table p ∉ takenNames)
    (hother : longName table p ≠ "namespace") : takesValue? (parameterFlag table p) = none := by
  rw [Option.eq_none_iff_forall_ne_some]
  intro b hb
  have hvalues : ∀ name ∈ valueNames, name = "namespace" ∨ name ∈ takenNames := by decide
  cases b with
  | false => exact not_switch hfree hb
  | true => exact (hvalues _ (takesValue_long hb)).elim hother hfree

theorem isSelector_free (hfree : longName table p ∉ takenNames) :
    (Group.pair (parameterFlag table p) v).isSelector = false := by
  have htaken : "api-scope" ∈ takenNames ∧ "api-version" ∈ takenNames := by decide
  have hcontains : selectorFlags.contains (parameterFlag table p) = false := by
    rw [Bool.eq_false_iff]
    intro hmem
    rcases selector_long (List.contains_iff_mem.mp hmem) with hname | hname
    · exact hfree (hname ▸ htaken.1)
    · exact hfree (hname ▸ htaken.2)
  rw [Group.isSelector, Group.flag, hcontains, Bool.and_false]

theorem checks_free (hdash : startsWithDash v = false)
    (hfree : longName table p ∉ takenNames) :
    (Group.pair (parameterFlag table p) v).tokens.any isVersion = false ∧
      (Group.pair (parameterFlag table p) v).tokens.any isHelp = false := by
  have htaken : "version" ∈ takenNames ∧ "help" ∈ takenNames := by decide
  have hversion : isVersion (parameterFlag table p) = false := by
    rw [Bool.eq_false_iff]
    exact fun hmem => hfree (isVersion_long.mp hmem ▸ htaken.1)
  have hhelp : isHelp (parameterFlag table p) = false := by
    rw [Bool.eq_false_iff]
    exact fun hmem => hfree (isHelp_long.mp hmem ▸ htaken.2)
  obtain ⟨hv, hv'⟩ := value_checks hdash
  rw [Group.tokens, List.any_cons, List.any_cons, List.any_cons, List.any_cons, hversion, hhelp, hv,
    hv']
  exact ⟨rfl, rfl⟩

theorem option_own (hvalid : (prep.command table).Valid)
    (hp : p ∈ prep.contract.operation.parameters) (hnamed : longName table p ≠ "")
    (hplain : '=' ∉ (longName table p).toList) :
    option? (prep.command table) (.pair (parameterFlag table p) v) = some (p.name, v) := by
  rw [option?, parameterFlag, longOption_long hnamed, splitInline_plain hplain]
  simp only [id_of_mem hvalid (mem_command hp), Option.map_some]

/-- The parameter's own argument, put among those of the line. -/
theorem given_free (hvalid : (prep.command table).Valid)
    (hp : p ∈ prep.contract.operation.parameters)
    (hfront : ∀ g ∈ front, g.Complete ∧ g.isGlobal = false)
    (hback : ∀ g ∈ back, g.Complete ∧ g.isGlobal = false)
    (hunset : ∀ g ∈ front ++ back, g.flag ≠ parameterFlag table p)
    (hnamed : longName table p ≠ "")
    (hplain : '=' ∉ (longName table p).toList) (hother : longName table p ≠ "namespace")
    (hpair : (Group.pair (parameterFlag table p) v).Complete ∧
      (Group.pair (parameterFlag table p) v).isGlobal = false)
    {inj : List String} {given : List (String × String)}
    (hinj : ∀ more, options (prep.command table) inj = some more →
      ∀ e ∈ more, (prep.command table).id? "namespace" = some e.1)
    (h : options (prep.command table) (words (front ++ back) ++ inj) = some given) :
    ∃ before after, given = before ++ after ∧ p.name ∉ given.map Prod.fst ∧
      options (prep.command table)
          (words (front ++ .pair (parameterFlag table p) v :: back) ++ inj) =
        some (before ++ (p.name, v) :: after) := by
  have hall : ∀ g ∈ front ++ back, g.Complete ∧ g.isGlobal = false := fun g hg =>
    (List.mem_append.mp hg).elim (hfront g) (hback g)
  have hwith : ∀ g ∈ front ++ .pair (parameterFlag table p) v :: back,
      g.Complete ∧ g.isGlobal = false := all_insert hall hpair
  obtain ⟨own, more, hown, hmore, rfl⟩ := (given_split hall).mp h
  have hapart : p.name ∉ own.map Prod.fst :=
    not_given hvalid (mem_command hp) (fun g hg => (hall g hg).1) hunset hown
  rw [List.mapM_append] at hown
  obtain ⟨before, hbefore, hown⟩ := Option.bind_eq_some_iff.mp hown
  obtain ⟨after, hafter, hown⟩ := Option.bind_eq_some_iff.mp hown
  obtain rfl := Option.some.inj hown
  refine ⟨before, after ++ more, List.append_assoc _ _ _, ?_, ?_⟩
  · rw [List.map_append, List.mem_append, not_or]
    refine ⟨hapart, fun hmem => ?_⟩
    obtain ⟨e, he, hname⟩ := List.mem_map.mp hmem
    have hid := mem_of_id (hinj more hmore e he)
    rw [hname] at hid
    have heq := List.inj_on_of_nodup_map hvalid.1 hid (mem_command hp) rfl
    exact hother (Prod.mk.inj heq).2.symm
  · refine (given_split hwith).mpr ⟨before ++ (p.name, v) :: after, more, ?_, hmore, ?_⟩
    · rw [List.mapM_append, List.mapM_cons, hbefore, hafter,
        option_own hvalid hp hnamed hplain]
      rfl
    · rw [List.append_assoc]
      rfl

end Given

section Own

variable {readers : Readers} {host : Host} {compiled : CompiledWorkflow} {p : ParameterSchema}
  {v service operationId : String} {prep prep' : Prepared} {base parsed : Parsed}
  {step : CompiledStep}

/-- The inputs of a line whose arguments differ at the parameter alone. -/
theorem inputs_of_args
    (hone : OneStep service operationId prep.contract.operation compiled step)
    (hp : p ∈ prep.contract.operation.parameters) (hlocation : p.location ≠ .body)
    (hcontract : prep'.contract = prep.contract) (hvalue : parsed.args p.name = some v)
    (hbody : parsed.body = base.body)
    (hmember : ∀ m, memberOf base.body p.name = some m → m = coerced readers p v)
    (hothers : ∀ name, name ≠ p.name → parsed.args name = base.args name) :
    (inputsOf readers compiled prep' parsed).get? p.name = some (coerced readers p v) ∧
      ∀ name, name ≠ p.name → (inputsOf readers compiled prep' parsed).get? name =
        (inputsOf readers compiled prep base).get? name := by
  unfold inputsOf
  rw [hcontract, hbody]
  constructor
  · rw [supplied_param hone hp hlocation, hvalue]
    cases hfound : memberOf base.body p.name with
    | none => rfl
    | some m =>
      rw [hmember m hfound]
      rfl
  · exact fun name hname => supplied_congr hone.nodup (hothers name hname)

theorem injected_congr {operation : OperationSchema} {«namespace» : Option String}
    {tokens tokens' : List String} (h : tokens'.any namesNamespace = tokens.any namesNamespace) :
    injected operation «namespace» tokens' = injected operation «namespace» tokens := by
  unfold injected
  rw [h]

variable {schema : ServiceSchema} {resource name : String} {front back : List Group}

theorem receives_own (h : Settable readers host p v prep)
    (hother : longName host.table p ≠ "namespace")
    (hone : OneStep service operationId prep.contract.operation compiled step)
    (hp : p ∈ prep.contract.operation.parameters) (hlocation : p.location ≠ .body)
    (hdash : startsWithDash v = false) (hcomplete : ∀ g ∈ front ++ back, g.Complete)
    (hunset : Unset host.table p (front ++ back)) (hbase : parse host prep = .ok base)
    (hleads : Leads schema resource name (front ++ back) prep) :
    ∃ prep' parsed,
      Leads schema resource name (front ++ .pair (parameterFlag host.table p) v :: back) prep' ∧
      Receives readers host compiled p v prep prep' base parsed := by
  have htakes := takesValue_free h.free hother
  have hpair := pair_complete hdash h.plain (not_switch h.free)
  have hglobal : (Group.pair (parameterFlag host.table p) v).isGlobal = false := by
    rw [Group.isGlobal, Group.flag, htakes]
    rfl
  have hselector := isSelector_free (v := v) h.free
  obtain ⟨hversion, hhelp⟩ := checks_free hdash h.free
  have hfront := kept_complete fun g hg => hcomplete g (List.mem_append_left _ hg)
  have hback := kept_complete fun g hg => hcomplete g (List.mem_append_right _ hg)
  have hkept : ∀ g ∈ kept front ++ kept back, g.flag ≠ parameterFlag host.table p := by
    rw [← kept_append]
    exact fun g hg => hunset.flag g (List.mem_of_mem_filter (List.mem_of_mem_filter hg))
  have hnames : (words (kept front) ++ ((Group.pair (parameterFlag host.table p) v).tokens ++
      words (kept back))).any namesNamespace = prep.tokens.any namesNamespace := by
    have hflag : namesNamespace (parameterFlag host.table p) = false := by
      rw [Bool.eq_false_iff]
      intro hflag
      have hname := namesNamespace_flag hflag
      rw [parameterFlag, splitInline_long, splitInline_plain h.plain] at hname
      exact hother (long_injective hname)
    rw [hleads.tokens, kept_append, words_append, List.any_append, List.any_append, List.any_append,
      Group.tokens, List.any_cons, List.any_cons, hflag, namesNamespace_value hpair.2.2.2.1]
    rfl
  have hline : words (kept front ++ kept back) ++
      injected prep.contract.operation (prep.namespace? host) prep.tokens = prep.line host := by
    rw [← kept_append, ← hleads.tokens, Prepared.line]
  obtain ⟨hgiven, hnodup, hbody⟩ := (parse_ok h.valid).mp hbase
  rw [← hline] at hgiven
  obtain ⟨before, after, hsplit, habsent, hwith⟩ := given_free h.valid hp hfront hback hkept h.named
    h.plain hother ⟨hpair, hglobal⟩
    (fun more hmore e he => (injected_given hmore e he).1) hgiven
  rw [hsplit] at hnodup habsent
  have hvalue : Parsed.args ⟨before ++ (p.name, v) :: after, base.body⟩ p.name = some v := by
    refine lookup_here fun hmem => habsent ?_
    rw [List.map_append]
    exact List.mem_append_left _ hmem
  have hothers : ∀ name, name ≠ p.name →
      Parsed.args ⟨before ++ (p.name, v) :: after, base.body⟩ name = base.args name := by
    intro name hname
    rw [Parsed.args, Parsed.args, hsplit]
    exact lookup_apart hname
  have hsame : Parsed.body ⟨before ++ (p.name, v) :: after, base.body⟩ = base.body := rfl
  have hvalid : (Prepared.command { prep with tokens := words (kept front) ++
      ((Group.pair (parameterFlag host.table p) v).tokens ++ words (kept back)) }
    host.table).Valid := h.valid
  refine ⟨_, ⟨before ++ (p.name, v) :: after, base.body⟩,
    leads_free hglobal hselector hversion hhelp hleads, hbase, (parse_ok hvalid).mpr ⟨?_, ?_, ?_⟩,
    rfl, rfl, rfl, fun _ => ⟨rfl, ?_⟩, fun hname => absurd hname hother, hvalue, ?_, rfl, hothers,
    ?_⟩
  · refine Eq.trans (congrArg _ ?_) hwith
    rw [words_append]
    exact congrArg _ (injected_congr hnames)
  · rw [List.map_append, List.map_cons, List.nodup_middle, ← List.map_append]
    exact List.nodup_cons.mpr ⟨habsent, hnodup⟩
  · exact (body_given h.valid hp fun hname => hothers _ hname.symm).trans hbody
  · refine ⟨words (kept front), words (kept back), ?_, rfl⟩
    rw [hleads.tokens, kept_append, words_append]
  · exact (inputs_of_args hone hp hlocation rfl hvalue hsame (h.member base hbase) hothers).1
  · exact (inputs_of_args hone hp hlocation rfl hvalue hsame (h.member base hbase) hothers).2

/-- The shared `--namespace` reaches the parameter of its name behind the words. -/
theorem receives_namespace (h : Settable readers host p v prep)
    (hshared : longName host.table p = "namespace")
    (hone : OneStep service operationId prep.contract.operation compiled step)
    (hp : p ∈ prep.contract.operation.parameters) (hlocation : p.location ≠ .body)
    (hdash : startsWithDash v = false) (hcomplete : ∀ g ∈ front ++ back, g.Complete)
    (hunset : Unset host.table p (front ++ back)) (hbase : parse host prep = .ok base)
    (hleads : Leads schema resource name (front ++ back) prep) :
    ∃ prep' parsed,
      Leads schema resource name (front ++ .pair (parameterFlag host.table p) v :: back) prep' ∧
      Receives readers host compiled p v prep prep' base parsed := by
  obtain ⟨hname, htrim⟩ := h.namespace hshared
  have hflag : parameterFlag host.table p = "--namespace" := by
    rw [parameterFlag, hshared]
    rfl
  have hapart : ∀ g ∈ front ++ back, g.flag ≠ "--namespace" := hflag ▸ hunset.flag
  have hisValue : isValue v = true := by
    rw [isValue, hdash]
    rfl
  have hkept := kept_complete hcomplete
  have hbacks : ∀ g ∈ back, ¬ (g.flag = "--namespace" ∨ g.flag = "-n") := fun g hg =>
    not_or.mpr ⟨hapart g (List.mem_append_right _ hg),
      hunset.short hshared g (List.mem_append_right _ hg)⟩
  have hflags : ∀ g ∈ kept (front ++ back), g.flag ≠ "--namespace" := fun g hg =>
    hapart g (List.mem_of_mem_filter (List.mem_of_mem_filter hg))
  have hinjected : injected prep.contract.operation (some v) prep.tokens = ["--namespace", v] := by
    have hany : prep.tokens.any namesNamespace = false := by
      rw [hleads.tokens]
      exact namesNamespace_words (fun g hg => (hkept g hg).1) hflags
    have hdeclared : (prep.contract.operation.parameters.any
        fun q => q.name = "namespace") = true :=
      List.any_eq_true.mpr ⟨p, hp, decide_eq_true hname⟩
    simp only [injected, hany, hdeclared, if_true, Bool.false_eq_true, if_false]
  have hid : (prep.command host.table).id? "namespace" = some "namespace" := by
    have hmem := id_of_mem h.valid (mem_command hp)
    rwa [hshared, hname] at hmem
  obtain ⟨hgiven, hnodup, hbody⟩ := (parse_ok h.valid).mp hbase
  rw [Prepared.line, hleads.tokens] at hgiven
  obtain ⟨own, more, hown, hmore, hsplit⟩ := (given_split hkept).mp hgiven
  have habsent : p.name ∉ own.map Prod.fst := by
    refine not_given h.valid (mem_command hp) (fun g hg => (hkept g hg).1) ?_ hown
    rw [hshared]
    exact hflags
  have hbehind : ∀ name, name ≠ p.name → name ∉ more.map Prod.fst := by
    intro name hne hmem
    obtain ⟨e, he, rfl⟩ := List.mem_map.mp hmem
    have hkey := (injected_given hmore e he).1
    rw [hid] at hkey
    exact hne ((Option.some.inj hkey).symm.trans hname.symm)
  have hvalue : Parsed.args ⟨own ++ [(p.name, v)], base.body⟩ p.name = some v := lookup_here habsent
  have hothers : ∀ name, name ≠ p.name →
      Parsed.args ⟨own ++ [(p.name, v)], base.body⟩ name = base.args name := by
    intro name hne
    rw [Parsed.args, Parsed.args, hsplit, lookup_behind (hbehind name hne)]
    exact (lookup_apart hne).trans (by rw [List.append_nil])
  have hsame : Parsed.body ⟨own ++ [(p.name, v)], base.body⟩ = base.body := rfl
  have hvalid : (Prepared.command { prep with flags := setNamespace prep.flags v }
    host.table).Valid := h.valid
  rw [hsplit, List.map_append, List.nodup_append] at hnodup
  refine ⟨{ prep with flags := setNamespace prep.flags v }, ⟨own ++ [(p.name, v)], base.body⟩, ?_,
    hbase, (parse_ok hvalid).mpr ⟨?_, ?_, ?_⟩, rfl, rfl, rfl, fun hother => absurd hshared hother,
    fun _ => ⟨rfl, rfl⟩, hvalue, ?_, rfl, hothers, ?_⟩
  · rw [hflag]
    exact leads_namespace hbacks htrim (value_checks hdash).1 hleads
  · change options (prep.command host.table)
      (prep.tokens ++ injected prep.contract.operation (some v) prep.tokens) = _
    rw [hinjected, hleads.tokens]
    refine (given_split hkept).mpr ⟨own, [(p.name, v)], hown, ?_, rfl⟩
    rw [options_namespace, hid, hname]
    exact if_pos hisValue
  · rw [List.map_append]
    refine List.nodup_append.mpr ⟨hnodup.1, List.nodup_singleton _, ?_⟩
    intro key hkey other hother heq
    rw [List.mem_singleton.mp hother] at heq
    obtain rfl : key = p.name := heq
    exact habsent hkey
  · exact (body_given h.valid hp fun hne => hothers _ hne.symm).trans hbody
  · exact (inputs_of_args hone hp hlocation rfl hvalue hsame (h.member base hbase) hothers).1
  · exact (inputs_of_args hone hp hlocation rfl hvalue hsame (h.member base hbase) hothers).2

end Own

section Taken

variable {readers : Readers} {host : Host} {compiled : CompiledWorkflow} {p : ParameterSchema}
  {v service operationId : String} {prep prep' : Prepared} {base parsed : Parsed}
  {step : CompiledStep} {schema : ServiceSchema} {resource name : String}
  {groups front back : List Group} {g : Group} {c : Command} {table : CaseTable}

theorem given_of_mem {given : List (String × String)} (h : groups.mapM (option? c) = some given)
    (hg : g ∈ groups) : ∃ arg, option? c g = some arg := by
  induction groups generalizing given with
  | nil => exact absurd hg List.not_mem_nil
  | cons k groups ih =>
    rw [List.mapM_cons] at h
    obtain ⟨arg, harg, h⟩ := Option.bind_eq_some_iff.mp h
    obtain ⟨more, hmore, -⟩ := Option.bind_eq_some_iff.mp h
    rcases List.mem_cons.mp hg with rfl | hrest
    · exact ⟨arg, harg⟩
    · exact ih hmore hrest

/-- Every word left to the parser gives an argument. -/
theorem given_of_parse (hvalid : (prep.command host.table).Valid)
    (hcomplete : ∀ g ∈ groups, g.Complete)
    (hleads : Leads schema resource name groups prep) (hparse : parse host prep = .ok parsed)
    (hg : g ∈ kept groups) : ∃ arg, option? (prep.command host.table) g = some arg := by
  obtain ⟨hgiven, -⟩ := (parse_ok hvalid).mp hparse
  rw [Prepared.line, hleads.tokens] at hgiven
  obtain ⟨own, -, hown, -⟩ := (given_split (kept_complete hcomplete)).mp hgiven
  exact given_of_mem hown hg

theorem not_complete (hvalid : (prep'.command host.table).Valid) (hdash : startsWithDash v = false)
    (hcomplete : ∀ g ∈ front ++ back, g.Complete) (hservice : isValue service = true)
    (hresource : startsWithDash resource = false) (hname : startsWithDash name = false)
    (hprepare : prepare schema (lineWith host.table service resource name front back p v) =
      .ok prep')
    (hparse : parse host prep' = .ok parsed) :
    ¬ (Group.word (parameterFlag host.table p)).Complete := by
  intro hword
  have hoperand : (Group.operand v).Complete := by
    rw [Group.Complete, isValue, hdash]
    rfl
  have hall : ∀ g ∈ front ++ .word (parameterFlag host.table p) :: .operand v :: back, g.Complete :=
    all_insert (all_insert hcomplete hoperand) hword
  have hline : lineWith host.table service resource name front back p v =
      lineOf service resource name
        (front ++ .word (parameterFlag host.table p) :: .operand v :: back) := by
    rw [lineWith, lineOf, words_append]
    rfl
  rw [hline] at hprepare
  have hleads := (prepare_line hservice hresource hname hall).mp hprepare
  have hkept : Group.operand v ∈
      kept (front ++ .word (parameterFlag host.table p) :: .operand v :: back) := by
    refine List.mem_filter.mpr ⟨List.mem_filter.mpr ⟨?_, ?_⟩, rfl⟩
    · exact List.mem_append_right _ (List.mem_cons_of_mem _ List.mem_cons_self)
    · have htakes := (value_free hoperand).2.1
      rw [Group.isGlobal, Group.flag, htakes]
      rfl
  obtain ⟨arg, harg⟩ := given_of_parse hvalid hall hleads hparse hkept
  cases harg

/-- A flag that a scan takes is not left to the parser. -/
theorem not_taken (hleads : Leads schema resource name (front ++ back) prep)
    (hleads' : Leads schema resource name (front ++ g :: back) prep')
    (hown : ∃ before after, prep.tokens = before ++ after ∧
      prep'.tokens = before ++ parameterFlag table p :: v :: after) :
    ¬ (g.isGlobal = true ∨ g.isSelector = true) := by
  intro htaken
  obtain ⟨before, after, htokens, htokens'⟩ := hown
  have hsame : prep'.tokens = prep.tokens := by
    rw [hleads'.tokens, hleads.tokens, kept_append, kept_taken htaken, ← kept_append]
  rw [hsame, htokens] at htokens'
  have hlength := congrArg List.length htokens'
  simp only [List.length_append, List.length_cons] at hlength
  omega

theorem free_of_receives
    (hleads : Leads schema resource name (front ++ back) prep)
    (hcomplete : ∀ g ∈ front ++ .pair (parameterFlag table p) v :: back, g.Complete)
    (hleads' : Leads schema resource name (front ++ .pair (parameterFlag table p) v :: back) prep')
    (hown : longName table p ≠ "namespace" → ∃ before after, prep.tokens = before ++ after ∧
      prep'.tokens = before ++ parameterFlag table p :: v :: after) :
    longName table p ∉ takenNames := by
  have hswitches : ∀ name ∈ switchNames, takesValue? ("--" ++ name) = some false := by
    simp [switchNames, takesValue?, knownGlobalFlags]
  have hvalues : ∀ name ∈ ["format", "ui", "output", "profile", "timeout", "page-limit"],
      takesValue? ("--" ++ name) = some true ∧ name ≠ "namespace" := by
    simp [takesValue?, knownGlobalFlags]
  have hothers : ∀ name ∈ ["api-scope", "api-version"],
      selectorFlags.contains ("--" ++ name) = true ∧ name ≠ "namespace" := by
    simp [selectorFlags]
  intro hmem
  rcases List.mem_append.mp hmem with hmem | hmem
  · rcases List.mem_append.mp hmem with hswitch | hvalue
    · have hpair := hcomplete _ (List.mem_append_right _ List.mem_cons_self)
      exact hpair.2.2.1 (hswitches _ hswitch)
    · obtain ⟨htakes, hother⟩ := hvalues _ hvalue
      refine not_taken hleads hleads' (hown hother) (Or.inl ?_)
      rw [Group.isGlobal, Group.flag, parameterFlag, htakes]
      rfl
  · have hword : ∀ {groups : List Group}, .pair (parameterFlag table p) v ∈ groups →
        parameterFlag table p ∈ words groups := fun hg =>
      List.mem_flatMap.mpr ⟨_, hg, List.mem_cons_self⟩
    have hpair : ∀ {front back : List Group},
        Group.pair (parameterFlag table p) v ∈ front ++ .pair (parameterFlag table p) v :: back :=
      List.mem_append_right _ List.mem_cons_self
    have hselectors : longName table p ∈ ["api-scope", "api-version"] → False := by
      intro hselector
      obtain ⟨hcontains, hother⟩ := hothers _ hselector
      refine not_taken hleads hleads' (hown hother) (Or.inr ?_)
      rw [Group.isSelector, Group.flag, parameterFlag, hcontains]
      rfl
    simp only [List.mem_cons, List.not_mem_nil, or_false] at hmem hselectors
    rcases hmem with hscope | hscope | hversion | hhelp
    · exact hselectors (Or.inl hscope)
    · exact hselectors (Or.inr hscope)
    · have hversions := hleads'.noVersion
      rw [List.any_eq_false] at hversions
      exact hversions _ (hword hpair) (isVersion_long.mpr hversion)
    · have hflag : parameterFlag table p = "--help" := by
        rw [parameterFlag, hhelp]
        rfl
      have hglobal : (Group.pair (parameterFlag table p) v).isGlobal = false := by
        rw [hflag]
        rfl
      have hselector : (Group.pair (parameterFlag table p) v).isSelector = false := by
        rw [hflag]
        rfl
      have hleft : parameterFlag table p ∈ prep'.tokens := by
        rw [hleads'.tokens, kept_append, kept_cons hglobal hselector]
        exact hword hpair
      have hhelps := hleads'.noHelp
      rw [List.any_eq_false] at hhelps
      exact hhelps _ hleft (isHelp_long.mpr hhelp)

/-- The shared `--namespace` reaches no parameter of another name. -/
theorem name_of_shared (hvalid : (prep'.command host.table).Valid)
    (hp : p ∈ prep'.contract.operation.parameters) (hshared : longName host.table p = "namespace")
    (hcomplete : ∀ g ∈ groups, g.Complete)
    (hunset : ∀ g ∈ kept groups, g.flag ≠ parameterFlag host.table p)
    (hleads : Leads schema resource name groups prep') (hparse : parse host prep' = .ok parsed)
    (hvalue : parsed.args p.name = some v) : p.name = "namespace" := by
  obtain ⟨hgiven, -⟩ := (parse_ok hvalid).mp hparse
  rw [Prepared.line, hleads.tokens] at hgiven
  have hkept := kept_complete hcomplete
  obtain ⟨own, more, hown, hmore, hsplit⟩ := (given_split hkept).mp hgiven
  have hmem := Entries.mem_of_lookup hvalue
  rw [hsplit, List.mem_append] at hmem
  rcases hmem with hmem | hmem
  · have habsent := not_given hvalid (mem_command hp) (fun g hg => (hkept g hg).1) hunset hown
    exact absurd (List.mem_map_of_mem hmem) habsent
  · obtain ⟨-, q, hq, hname⟩ := injected_given hmore _ hmem
    have hascii : ((kebabWords "namespace").all fun c => decide (c.toNat < 128)) = true := by decide
    have hlong : longName host.table q = longName host.table p := by
      rw [hshared, longName, hname, Casing.toKebabCase_ascii host.table
        fun c hc => of_decide_eq_true (List.all_eq_true.mp hascii c hc)]
      decide
    have heq := List.inj_on_of_nodup_map hvalid.2 (mem_command hq) (mem_command hp) hlong
    rw [← hname]
    exact (Prod.mk.inj heq).1.symm

/-- A line that gives the parameter its value shows that nothing takes its flag. -/
theorem settable_of_receives
    (hone : OneStep service operationId prep.contract.operation compiled step)
    (hp : p ∈ prep.contract.operation.parameters) (hlocation : p.location ≠ .body)
    (hvalid : (prep.command host.table).Valid) (hdash : startsWithDash v = false)
    (hcomplete : ∀ g ∈ front ++ back, g.Complete) (hunset : Unset host.table p (front ++ back))
    {word : String} (hword : isValue word = true) (hresource : startsWithDash resource = false)
    (hname : startsWithDash name = false)
    (hleads : Leads schema resource name (front ++ back) prep)
    (hprepare : prepare schema (lineWith host.table word resource name front back p v) = .ok prep')
    (h : Receives readers host compiled p v prep prep' base parsed) :
    Settable readers host p v prep := by
  have hcommand : prep'.command host.table = prep.command host.table := by
    rw [Prepared.command, Prepared.command, h.method, h.contract]
  have hvalid' : (prep'.command host.table).Valid := hcommand ▸ hvalid
  have hnot := not_complete hvalid' hdash hcomplete hword hresource hname hprepare h.parses
  have hplain : '=' ∉ (longName host.table p).toList := by
    refine fun hmem => hnot ⟨dash_long _, Or.inr ?_⟩
    rw [parameterFlag, splitInline_long]
    dsimp only
    exact splitInline_inline hmem
  have hswitch : takesValue? (parameterFlag host.table p) ≠ some false := fun hswitch =>
    hnot ⟨dash_long _, Or.inl hswitch⟩
  have hpair := pair_complete hdash hplain hswitch
  have hall := all_insert hcomplete hpair
  rw [lineWith_eq] at hprepare
  have hleads' := (prepare_line hword hresource hname hall).mp hprepare
  refine ⟨hvalid, ?_, hplain, free_of_receives hleads hall hleads' fun hother =>
    (h.own hother).2, fun hshared => ⟨?_, ?_⟩, ?_⟩
  · intro hempty
    have hflag : parameterFlag host.table p = "--" := by
      rw [parameterFlag, hempty]
      rfl
    have hmem : Group.pair (parameterFlag host.table p) v ∈
        kept (front ++ .pair (parameterFlag host.table p) v :: back) := by
      rw [kept_append, hflag, kept_cons rfl rfl]
      exact List.mem_append_right _ List.mem_cons_self
    obtain ⟨arg, harg⟩ := given_of_parse hvalid' hall hleads' h.parses hmem
    rw [option?, hflag] at harg
    cases harg
  · have htaken : (Group.pair (parameterFlag host.table p) v).isGlobal = true := by
      rw [parameterFlag, hshared]
      rfl
    refine name_of_shared hvalid' (h.contract.symm ▸ hp) hshared hall ?_ hleads' h.parses h.value
    rw [kept_append, kept_taken (Or.inl htaken), ← kept_append]
    exact fun g hg => hunset.flag g (List.mem_of_mem_filter (List.mem_of_mem_filter hg))
  · have hflag : parameterFlag host.table p = "--namespace" := by
      rw [parameterFlag, hshared]
      rfl
    rw [hflag] at hleads'
    refine blank_namespace (fun g hg => not_or.mpr ⟨?_, ?_⟩) hleads'
    · rw [← hflag]
      exact hunset.flag g (List.mem_append_right _ hg)
    · exact hunset.short hshared g (List.mem_append_right _ hg)
  · intro other hother m hm
    rw [h.parsesBase] at hother
    obtain rfl := Except.ok.inj hother
    have hreceived := h.received
    rw [inputsOf, h.contract, h.body, supplied_param hone hp hlocation, hm] at hreceived
    exact Option.some.inj hreceived

end Taken

section Settables

instance (c : Command) : Decidable c.Valid := inferInstanceAs (Decidable (_ ∧ _))

/-- The parser of a debug build: a command that is not valid is refused. -/
def strictParser : Parser where
  getMatches c tokens :=
    if c.Valid then (options c tokens).filter fun given => (given.map Prod.fst).Nodup else none
  long_options _ _ h := if_pos h

variable {host : Host} {prep : Prepared} {parsed : Parsed} {schema : ServiceSchema}

theorem parse_agrees (hvalid : (prep.command host.table).Valid) (parser : Parser) :
    parse { host with parser } prep = parse host prep := by
  unfold parse
  rw [host.parser.long_options _ _ hvalid, parser.long_options _ _ hvalid]
  rfl

theorem valid_of_parse (h : parse { host with parser := strictParser } prep = .ok parsed) :
    (prep.command host.table).Valid := by
  by_contra hvalid
  unfold parse at h
  simp only [strictParser, if_neg hvalid] at h
  cases h

theorem Settable.parser {readers : Readers} {p : ParameterSchema} {v : String}
    (parser : Parser) (hvalid : (prep.command host.table).Valid) :
    Settable readers { host with parser } p v prep ↔ Settable readers host p v prep := by
  constructor
  · rintro ⟨-, hnamed, hplain, hfree, hnamespace, hmember⟩
    rw [parse_agrees hvalid] at hmember
    exact ⟨hvalid, hnamed, hplain, hfree, hnamespace, hmember⟩
  · rintro ⟨-, hnamed, hplain, hfree, hnamespace, hmember⟩
    rw [← parse_agrees hvalid parser] at hmember
    exact ⟨hvalid, hnamed, hplain, hfree, hnamespace, hmember⟩

/-- A flag put among the others of a line gives its parameter the value, and changes nothing else,
just when nothing takes the flag and nothing else gives the value. -/
theorem sets_iff_settable {readers : Readers} {catalogue : Catalogue}
    {definition : WorkflowDefinition} {compiled : CompiledWorkflow}
    {service serviceId resource name v : String} {front back : List Group} {p : ParameterSchema}
    (hservice : startsWithDash service = false) (hresource : startsWithDash resource = false)
    (hname : startsWithDash name = false) (hcomplete : ∀ g ∈ front ++ back, g.Complete)
    (hunset : Unset host.table p (front ++ back))
    (hprepare : prepare schema (lineOf service resource name (front ++ back)) = .ok prep)
    (hbase : (prep.command host.table).Valid → ∃ base, parse host prep = .ok base)
    (hop : findOperation schema prep.contract.operation.id = some prep.contract.operation)
    (hload : catalogue.getOrLoad serviceId = .ok schema)
    (hsynth : synthesiseWorkflowDefinition serviceId prep.contract.operation.id schema =
      .ok definition)
    (hcompile : Compile.compileWorkflow definition catalogue = .ok compiled)
    (hp : p ∈ prep.contract.operation.parameters) (hlocation : p.location ≠ .body)
    (hdash : startsWithDash v = false) :
    (∀ parser, Sets readers { host with parser } compiled p v prep
      (prepare schema (lineWith host.table service resource name front back p v))) ↔
      Settable readers host p v prep := by
  have hword : isValue service = true := by
    rw [isValue, hservice]
    rfl
  have hleads := (prepare_line hword hresource hname hcomplete).mp hprepare
  obtain ⟨step, hone⟩ := oneStep_of_compiled hop hload hsynth hcompile
  constructor
  · intro hsets
    obtain ⟨prep', base, parsed, hprepared, hreceives⟩ := hsets strictParser
    have hvalid := valid_of_parse hreceives.parsesBase
    exact (Settable.parser strictParser hvalid).mp (settable_of_receives hone hp hlocation hvalid
      hdash hcomplete hunset hword hresource hname hleads hprepared hreceives)
  · intro hsettable parser
    obtain ⟨base, hparse⟩ := hbase hsettable.valid
    rw [← parse_agrees hsettable.valid parser] at hparse
    have hsettable' := (Settable.parser parser hsettable.valid).mpr hsettable
    have hreceives : ∃ prep' parsed,
        Leads schema resource name (front ++ .pair (parameterFlag host.table p) v :: back) prep' ∧
          Receives readers { host with parser } compiled p v prep prep' base parsed := by
      by_cases hshared : longName host.table p = "namespace"
      · exact receives_namespace hsettable' hshared hone hp hlocation hdash hcomplete hunset hparse
          hleads
      · exact receives_own hsettable' hshared hone hp hlocation hdash hcomplete hunset hparse hleads
    obtain ⟨prep', parsed, hleads', hreceives⟩ := hreceives
    have hpair := pair_complete hdash hsettable.plain (not_switch hsettable.free)
    have hall := all_insert hcomplete hpair
    refine ⟨prep', base, parsed, ?_, hreceives⟩
    rw [lineWith_eq]
    exact (prepare_line hword hresource hname hall).mpr hleads'

end Settables

section Concrete

def engagementParam : ParameterSchema := ⟨"engagementId", .path, true, .string, false, none, none⟩

def formatParam : ParameterSchema :=
  ⟨"format", .query, false, .enum ["pdf", "md"], false, none, none⟩

def reportOperation : OperationSchema :=
  { id := "csm/admin/security-assessment/v1/get-report", name := "get-report"
    summary := "Downloads a completed pen-testing report", description := none
    mutationClass := .readOnly, httpMethod := .get
    pathTemplate := "/csm/v1/admin/namespaces/\x7bnamespace\x7d/pentestings/" ++
      "\x7bengagementId\x7d/report"
    parameters := [engagementParam, ⟨"namespace", .path, true, .string, false, none, none⟩,
      formatParam]
    requestBody := none, permissions := [], scope := "admin", apiVersion := 1, deprecated := false
    responseContentType := none }

def reportMethod : MethodSchema :=
  ⟨"get-report", "", some "admin", [⟨"admin", 1, [reportOperation]⟩]⟩

def reportSchema : ServiceSchema :=
  ⟨"csm", "", [⟨"security-assessment", "", [reportMethod]⟩]⟩

def reportHost : Host := ⟨Casing.sampleTable, strictParser, fun _ => none, fun _ _ => .error ""⟩

def plainReaders : Readers := ⟨fun _ => none, fun _ => none⟩

def reportId : String := "csm/admin/security-assessment/v1/get-report"

def reportDefinition : WorkflowDefinition :=
  { id := s!"synth(csm.{reportId})", name := s!"csm {reportId}", briefing := none
    inputs := reportOperation.parameters.map parameterSpec, isReviewedByDefault := true
    steps := [synthesisedStep "csm" reportId reportOperation], outputs := [], completion := none }

def reportCompiled : CompiledWorkflow :=
  { id := reportDefinition.id, name := reportDefinition.name, briefing := none
    inputs := reportDefinition.inputs, isReviewedByDefault := true
    steps := [Compile.compiledStep (synthesisedStep "csm" reportId reportOperation) 0
      (reportOperation.requiredParameters.map (derivedParameter reportDefinition.inputs))]
    outputs := [], completion := none }

/-- The line of a report in a namespace. -/
def reportPrep : Prepared :=
  ⟨setNamespace noFlags "game", ⟨none, none⟩, [], reportMethod, ⟨"admin", 1, reportOperation⟩⟩

def gameFlag : Group := .pair "--namespace" "game"

def reportLine (p : ParameterSchema) (v : String) : Except Stop Prepared :=
  prepare reportSchema
    (lineWith reportHost.table "csm" "security-assessment" "get-report" [gameFlag] [] p v)

theorem reportPrep_eq : prepare reportSchema
    (lineOf "csm" "security-assessment" "get-report" [gameFlag]) = .ok reportPrep := rfl

theorem report_synthesised :
    synthesiseWorkflowDefinition "csm" reportId reportSchema = .ok reportDefinition := rfl

theorem report_compiled :
    Compile.compileWorkflow reportDefinition ⟨fun _ => .ok reportSchema⟩ = .ok reportCompiled := rfl

/-- An engagement behind the namespace. -/
theorem sets_iff_settable_engagement :
    (∀ parser, Sets plainReaders { reportHost with parser } reportCompiled engagementParam "e1"
      reportPrep (reportLine engagementParam "e1")) ↔
      Settable plainReaders reportHost engagementParam "e1" reportPrep :=
  have hcomplete : gameFlag.Complete := ⟨rfl, rfl, by decide, rfl, by decide⟩
  sets_iff_settable rfl rfl rfl
    (fun _ hg => List.mem_singleton.mp hg ▸ hcomplete)
    ⟨fun _ hg => List.mem_singleton.mp hg ▸ by decide,
      fun _ _ hg => List.mem_singleton.mp hg ▸ by decide⟩
    reportPrep_eq (fun _ => ⟨⟨[("namespace", "game")], none⟩, rfl⟩) rfl rfl report_synthesised
    report_compiled List.mem_cons_self (by decide) rfl

/-- The global scan takes the flag of a parameter called `format`. -/
theorem format_taken :
    (reportOperation.parameters.map (longName reportHost.table)).Nodup ∧
      formatParam ∈ reportOperation.parameters ∧
      startsWithDash "pdf" = false ∧
      prepare reportSchema (lineOf "csm" "security-assessment" "get-report" [gameFlag]) =
        .ok reportPrep ∧
      parse reportHost reportPrep = .ok ⟨[("namespace", "game")], none⟩ ∧
      reportLine formatParam "pdf" =
        .error (.usage "unknown --format value 'pdf' (expected: human, json)") ∧
      ∀ parser, ¬ Sets plainReaders { reportHost with parser } reportCompiled formatParam "pdf"
        reportPrep (reportLine formatParam "pdf") := by
  refine ⟨by decide, by decide, rfl, reportPrep_eq, rfl, rfl, ?_⟩
  rintro parser ⟨prep', base, parsed, hprepared, -⟩
  cases hprepared

end Concrete

end SettableFlags
