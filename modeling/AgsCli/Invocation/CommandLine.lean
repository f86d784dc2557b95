import AgsCli.Invocation.CliInputs
import AgsCli.Invocation.Flags
import AgsCli.Support.Casing

/-! # The command line of an operation

From the argument vector to the values of an operation's parameters: the two scans, the contract
the words name, the arguments `build_service_command_tree` declares, and the body. -/
namespace CommandLine

open OrderedMap Json CatalogueTypes RequestTypes FlagCapture Strings Flags
open HelpTree (LeafSelectors ResolvedContract ResolutionError resolve)

structure Command where
  args : List (String × String)

namespace Command

variable (c : Command)

/-- What the parser asks of a command: no two arguments share an id or a long name. -/
def Valid : Prop := (c.args.map Prod.fst).Nodup ∧ (c.args.map Prod.snd).Nodup

def id? (long : String) : Option String := (c.args.find? fun arg => arg.2 = long).map (·.1)

end Command

/-- The name in a word such as `--name` or `--name=value`. -/
def longOption? (word : String) : Option (String × Option String) :=
  match word.toList with
  | '-' :: '-' :: c :: cs => some (splitInline (String.ofList (c :: cs)))
  | _ => none

/-- The arguments given by a line of long options: an unknown one, a missing value and a word that
belongs to no option are errors, `--` ends the options. -/
def options (c : Command) : List String → Option (List (String × String))
  | [] => some []
  | word :: rest =>
    if word = "--" then if rest.isEmpty then some [] else none
    else
      match longOption? word with
      | none => none
      | some (long, some value) => do
        let id ← c.id? long
        let given ← options c rest
        return (id, value) :: given
      | some (long, none) =>
        match rest with
        | [] => none
        | value :: rest => do
          let id ← c.id? long
          let given ← if isValue value then options c rest else none
          return (id, value) :: given

/-- `try_get_matches_from` on a command whose arguments all take one value: an argument may not be
given twice. -/
structure Parser where
  getMatches : Command → List String → Option (List (String × String))
  long_options : ∀ (c : Command) (tokens : List String), c.Valid → getMatches c tokens =
    (options c tokens).filter fun given => (given.map Prod.fst).Nodup

/-- What an invocation reads besides its line: the letter case of Unicode, the parser, the namespace
of the environment or of a profile, and the JSON of a `--json` argument. -/
structure Host where
  table : Casing.CaseTable
  parser : Parser
  configured : Option String → Option String
  readBody : Bool → String → Except String Value

inductive Stop
  | usage (message : String)
  | resolution (e : ResolutionError)
  | rejected
  | version
  | help
  | skeleton

def parsePageLimit (flags : GlobalFlags) : Except Stop GlobalFlags :=
  match flags.pageLimitRaw with
  | none => .ok flags
  | some raw =>
    match parseUsize raw.toList with
    | some limit =>
      if 1 ≤ limit ∧ limit ≤ 100 then .ok flags else .error (.usage s!"Invalid page limit '{raw}'")
    | none => .error (.usage s!"Invalid page limit '{raw}'")

def isVersion (word : String) : Bool := word == "--version" || word == "-V"

def isHelp (word : String) : Bool := word == "--help" || word == "-h"

def formerMethodNames (service resource method : String) : List String :=
  match service, resource, method with
  | "platform", "stores", "delete-published" => ["delete-publisheed"]
  | "platform", "entitlements", "check-my-ownership-by-app-id" => ["check-my-ownership-by-app-d"]
  | _, _, _ => []

def findMethod (schema : ServiceSchema) (resource name : String) :
    Except Stop (ResourceSchema × MethodSchema) :=
  match schema.resources.find? fun r => r.name = resource with
  | none => .error (.usage s!"Unknown resource: {resource}")
  | some r =>
    match r.methods.find? fun m =>
      m.name = name || (formerMethodNames schema.name r.name m.name).contains name with
    | none => .error (.usage s!"Unknown method: {name}")
    | some m => .ok (r, m)

/-- A line before the operation's own arguments are parsed: what the scans took out, the words
they left after the method's name, and the contract. -/
structure Prepared where
  flags : GlobalFlags
  selectors : LeafSelectors
  tokens : List String
  method : MethodSchema
  contract : ResolvedContract

/-- The lead-in of a service command: `run` up to the parser's call. -/
def prepare (schema : ServiceSchema) (argv : List String) : Except Stop Prepared := do
  let (flags, remaining) ← (preScanGlobalFlags argv).mapError .usage
  Checks.ensure (!argv.any isVersion) .version
  let flags ← parsePageLimit flags
  let (selectors, stripped) ← (preScanLeafSelectors remaining.tail).mapError .usage
  let positional := stripped.filter fun word => !startsWithDash word
  Checks.ensure (flags.isSkeleton || !(stripped.any isHelp || positional.length ≤ 1)) .help
  Checks.ensure (!flags.isSkeleton) .skeleton
  match stripped with
  | resource :: name :: tokens =>
    let (r, method) ← findMethod schema resource name
    let command := s!"ags {schema.name} {r.name} {name}"
    let contract ← (resolve command method selectors.apiScope selectors.apiVersion).mapError
      .resolution
    return ⟨flags, selectors, tokens, method, contract⟩
  | _ => .error .help

/-- The arguments `build_service_command_tree` gives an operation's command. -/
def operationArgs (table : Casing.CaseTable) (method : MethodSchema)
    (contract : ResolvedContract) : Command where
  args :=
    contract.operation.parameters.map (fun p => (p.name, Casing.toKebabCase table p.name)) ++
    (if contract.operation.requestBody.isSome then [("json", "json")] else []) ++
    (if 1 < method.scopes.length then [("api-scope", "api-scope")] else []) ++
    (if (method.scopes.find? fun entry => entry.scope = contract.scope).any
        fun entry => 1 < entry.contracts.length then [("api-version", "api-version")] else [])

def Prepared.command (prep : Prepared) (table : Casing.CaseTable) : Command :=
  operationArgs table prep.method prep.contract

def namesNamespace (word : String) : Bool :=
  word == "--namespace" || "--namespace=".toList.isPrefixOf word.toList

/-- `inject_namespace_if_needed`: what is put behind the words. -/
def injected (operation : OperationSchema) («namespace» : Option String) (tokens : List String) :
    List String :=
  match «namespace» with
  | none => []
  | some value =>
    if tokens.any namesNamespace then []
    else if operation.parameters.any fun p => p.name = "namespace" then ["--namespace", value]
    else []

structure Parsed where
  given : List (String × String)
  body : Option Value

/-- `get_one` of an argument that has no default. -/
def Parsed.args (parsed : Parsed) (id : String) : Option String := Entries.lookup id parsed.given

def resolveRequestBody (host : Host) (operation : OperationSchema) (json : Option String)
    (isNoInput : Bool) : Except String (Option Value) :=
  if operation.requestBody.isNone then .ok none
  else match json with
    | some raw => (host.readBody isNoInput raw).map some
    | none => if isNoInput then .error "Missing required request body" else .ok none

/-- `resolve_namespace`: the flag, else what the environment or the profile says. -/
def Prepared.namespace? (prep : Prepared) (host : Host) : Option String :=
  prep.flags.namespace.or (host.configured prep.flags.profile)

def Prepared.line (prep : Prepared) (host : Host) : List String :=
  prep.tokens ++ injected prep.contract.operation (prep.namespace? host) prep.tokens

/-- The rest of `parse_service_args`: the operation's arguments and its body. -/
def parse (host : Host) (prep : Prepared) : Except Stop Parsed :=
  match host.parser.getMatches (prep.command host.table) (prep.line host) with
  | none => .error .rejected
  | some given => do
    let body ← (resolveRequestBody host prep.contract.operation (Entries.lookup "json" given)
      prep.flags.isNoInput).mapError .usage
    return ⟨given, body⟩

section Lines

variable {schema : ServiceSchema} {service resource name : String} {groups : List Group}
  {prep : Prepared}

/-- The argument vector of a method with some flags behind its name. -/
def lineOf (service resource name : String) (groups : List Group) : List String :=
  service :: resource :: name :: words groups

def unscanned (groups : List Group) : List Group := groups.filter fun g => !g.isGlobal

def kept (groups : List Group) : List Group := (unscanned groups).filter fun g => !g.isSelector

def selected (groups : List Group) : LeafSelectors :=
  ((unscanned groups).filter Group.isSelector).foldl select ⟨none, none⟩

structure Leads (schema : ServiceSchema) (resource name : String) (groups : List Group)
    (prep : Prepared) : Prop where
  flags : applyGlobals noFlags groups = .ok prep.flags
  noVersion : (words groups).any isVersion = false
  pageLimit : parsePageLimit prep.flags = .ok prep.flags
  selectors : prep.selectors = selected groups
  tokens : prep.tokens = words (kept groups)
  noHelp : prep.tokens.any isHelp = false
  noSkeleton : prep.flags.isSkeleton = false
  found : ∃ r, findMethod schema resource name = .ok (r, prep.method) ∧
    resolve s!"ags {schema.name} {r.name} {name}" prep.method prep.selectors.apiScope
      prep.selectors.apiVersion = .ok prep.contract

theorem parsePageLimit_same {flags after : GlobalFlags} (h : parsePageLimit flags = .ok after) :
    after = flags := by
  unfold parsePageLimit at h
  split at h
  · exact (Except.ok.inj h).symm
  · split at h
    · split_ifs at h
      exact (Except.ok.inj h).symm
    · cases h

theorem scanGlobal_line (hservice : isValue service = true) (hresource : isValue resource = true)
    (hname : isValue name = true) (h : ∀ g ∈ groups, g.Complete) :
    preScanGlobalFlags (lineOf service resource name groups) =
      (applyGlobals noFlags groups).map fun flags =>
        (flags, lineOf service resource name (unscanned groups)) := by
  have hscan : scanGlobal noFlags (words groups ++ []) = _ := scanGlobal_words h noFlags
  rw [List.append_nil] at hscan
  have hword : ∀ {word : String} (hword : isValue word = true) (rest : List String),
      scanGlobal noFlags (word :: rest) =
        (scanGlobal noFlags rest).map fun r => (r.1, word :: r.2) := fun hword rest =>
    scanGlobal_keep (value_free hword).1 (value_free hword).2.1
  rw [preScanGlobalFlags, lineOf, hword hservice, hword hresource, hword hname, hscan]
  cases applyGlobals noFlags groups with
  | error e => rfl
  | ok flags =>
    change Except.ok (flags, service :: resource :: name :: (words (unscanned groups) ++ [])) = _
    rw [List.append_nil]
    rfl

theorem scanLeaf_line (hresource : isValue resource = true) (hname : isValue name = true)
    (h : ∀ g ∈ groups, g.Complete) :
    preScanLeafSelectors (resource :: name :: words (unscanned groups)) =
      .ok (selected groups, resource :: name :: words (kept groups)) := by
  have hrest : ∀ g ∈ unscanned groups, g.Complete := fun g hg => h g (List.mem_of_mem_filter hg)
  have hscan : scanLeaf ⟨none, none⟩ (words (unscanned groups) ++ []) = _ :=
    scanLeaf_words hrest ⟨none, none⟩
  have hword : ∀ {word : String} (hword : isValue word = true) (rest : List String),
      scanLeaf ⟨none, none⟩ (word :: rest) =
        (scanLeaf ⟨none, none⟩ rest).map fun r => (r.1, word :: r.2) := fun hword rest =>
    scanLeaf_keep (value_free hword).2.2.1 (value_free hword).2.2.2
  rw [List.append_nil] at hscan
  rw [preScanLeafSelectors, hword hresource, hword hname, hscan]
  change Except.ok (_, resource :: name :: (words (kept groups) ++ [])) = _
  rw [List.append_nil]
  rfl

theorem version_line (hservice : isValue service = true) (hresource : isValue resource = true)
    (hname : isValue name = true) : (lineOf service resource name groups).any isVersion =
      (words groups).any isVersion := by
  have hword : ∀ {word : String}, isValue word = true → isVersion word = false := by
    intro word hvalue
    rw [isVersion, Bool.or_eq_false_iff, beq_eq_false_iff_ne, beq_eq_false_iff_ne]
    constructor
    · rintro rfl
      revert hvalue
      decide
    · rintro rfl
      revert hvalue
      decide
  rw [lineOf, List.any_cons, List.any_cons, List.any_cons, hword hservice, hword hresource,
    hword hname]
  rfl

theorem help_line (hresource : isValue resource = true) (hname : isValue name = true)
    (tokens : List String) : (resource :: name :: tokens).any isHelp = tokens.any isHelp := by
  have hword : ∀ {word : String}, isValue word = true → isHelp word = false := by
    intro word hvalue
    rw [isHelp, Bool.or_eq_false_iff, beq_eq_false_iff_ne, beq_eq_false_iff_ne]
    constructor
    · rintro rfl
      revert hvalue
      decide
    · rintro rfl
      revert hvalue
      decide
  rw [List.any_cons, List.any_cons, hword hresource, hword hname]
  rfl

/-- A line of complete flags leads to an operation just when nothing on it stops the invocation. -/
theorem prepare_line (hservice : isValue service = true)
    (hresource : startsWithDash resource = false) (hname : startsWithDash name = false)
    (h : ∀ g ∈ groups, g.Complete) :
    prepare schema (lineOf service resource name groups) = .ok prep ↔
      Leads schema resource name groups prep := by
  have hvalue : ∀ {word : String}, startsWithDash word = false → isValue word = true := by
    intro word hdash
    rw [isValue, hdash]
    rfl
  have hpositional : ¬ ((resource :: name :: words (kept groups)).filter
      fun word => !startsWithDash word).length ≤ 1 := by
    rw [List.filter_cons_of_pos (by rw [hresource]; rfl),
      List.filter_cons_of_pos (by rw [hname]; rfl), List.length_cons, List.length_cons]
    omega
  have hhelp := help_line (hvalue hresource) (hvalue hname) (words (kept groups))
  unfold prepare
  rw [scanGlobal_line hservice (hvalue hresource) (hvalue hname) h,
    version_line hservice (hvalue hresource) (hvalue hname)]
  constructor
  · intro hok
    obtain ⟨⟨applied, remaining⟩, hscan, hchecks⟩ := Checks.bind_eq_ok.mp hok
    cases hflags : applyGlobals noFlags groups with
    | error e =>
      rw [hflags] at hscan
      cases hscan
    | ok flags =>
      rw [hflags] at hscan
      obtain ⟨rfl, rfl⟩ := Prod.mk.inj (Except.ok.inj hscan)
      obtain ⟨_, hversion, hlimits⟩ := Checks.bind_eq_ok.mp hchecks
      obtain ⟨limited, hlimit, hscans⟩ := Checks.bind_eq_ok.mp hlimits
      obtain rfl := parsePageLimit_same hlimit
      obtain ⟨⟨selectors, stripped⟩, hleaf, hstops⟩ := Checks.bind_eq_ok.mp hscans
      change (preScanLeafSelectors (resource :: name :: words (unscanned groups))).mapError _ =
        _ at hleaf
      rw [scanLeaf_line (hvalue hresource) (hvalue hname) h] at hleaf
      obtain ⟨rfl, rfl⟩ := Prod.mk.inj (Except.ok.inj hleaf)
      obtain ⟨_, hnoHelp, hskeletons⟩ := Checks.bind_eq_ok.mp hstops
      obtain ⟨_, hskeleton, hfinds⟩ := Checks.bind_eq_ok.mp hskeletons
      obtain ⟨⟨r, method⟩, hfound, hresolves⟩ := Checks.bind_eq_ok.mp hfinds
      obtain ⟨contract, hresolve, hprep⟩ := Checks.bind_eq_ok.mp hresolves
      obtain rfl := Except.ok.inj hprep
      simp only [Checks.ensure_eq_ok, Bool.not_eq_true'] at hversion hskeleton
      simp only [Checks.ensure_eq_ok, hskeleton, Bool.false_or, hhelp, Bool.not_eq_true',
        Bool.or_eq_false_iff] at hnoHelp
      exact ⟨hflags, hversion, hlimit, rfl, rfl, hnoHelp.1, hskeleton, r, hfound,
        Checks.mapError_eq_ok.mp hresolve⟩
  · rintro ⟨hflags, hversion, hlimit, hselectors, htokens, hnoHelp, hskeleton, r, hfound, hresolve⟩
    rw [hflags]
    refine Checks.bind_eq_ok.mpr ⟨(prep.flags, _), rfl, ?_⟩
    refine Checks.bind_eq_ok.mpr ⟨(), Checks.ensure_eq_ok.mpr (by rw [hversion]; rfl), ?_⟩
    refine Checks.bind_eq_ok.mpr ⟨prep.flags, hlimit, ?_⟩
    refine Checks.bind_eq_ok.mpr
      ⟨(selected groups, resource :: name :: words (kept groups)), ?_, ?_⟩
    · change (preScanLeafSelectors (resource :: name :: words (unscanned groups))).mapError _ = _
      rw [scanLeaf_line (hvalue hresource) (hvalue hname) h]
      rfl
    · rw [htokens] at hnoHelp
      refine Checks.bind_eq_ok.mpr ⟨(), Checks.ensure_eq_ok.mpr ?_, ?_⟩
      · rw [hskeleton, hhelp, hnoHelp]
        simpa using hpositional
      · refine Checks.bind_eq_ok.mpr ⟨(), Checks.ensure_eq_ok.mpr (by rw [hskeleton]; rfl), ?_⟩
        refine Checks.bind_eq_ok.mpr ⟨(r, prep.method), hfound, ?_⟩
        rw [hselectors] at hresolve
        refine Checks.bind_eq_ok.mpr ⟨prep.contract, Checks.mapError_eq_ok.mpr hresolve, ?_⟩
        rw [← hselectors, ← htokens]
        rfl

end Lines

section Options

variable {c : Command} {g : Group} {groups : List Group} {rest : List String} {name word : String}

theorem toList_long (name : String) : ("--" ++ name).toList = '-' :: '-' :: name.toList :=
  String.toList_append

theorem splitInline_long (name : String) :
    splitInline ("--" ++ name) = ("--" ++ (splitInline name).1, (splitInline name).2) := by
  have hdrop : ('-' :: '-' :: name.toList).dropWhile (· ≠ '=') =
      name.toList.dropWhile (· ≠ '=') := rfl
  have hname : namePart ('-' :: '-' :: name.toList) = '-' :: '-' :: namePart name.toList := rfl
  unfold splitInline
  rw [toList_long, hdrop, hname]
  cases name.toList.dropWhile (· ≠ '=') with
  | nil => rfl
  | cons e value =>
    refine Prod.ext (String.toList_inj.mp ?_) rfl
    change (String.ofList ('-' :: '-' :: namePart name.toList)).toList =
      ("--" ++ String.ofList (namePart name.toList)).toList
    rw [toList_long, String.toList_ofList, String.toList_ofList]

theorem longOption_long (hname : name ≠ "") :
    longOption? ("--" ++ name) = some (splitInline name) := by
  unfold longOption?
  rw [toList_long]
  cases hchars : name.toList with
  | nil => exact absurd (String.toList_eq_nil_iff.mp hchars) hname
  | cons c cs =>
    change some (splitInline (String.ofList (c :: cs))) = _
    rw [← hchars, String.ofList_toList]

theorem long_of_longOption {found : String × Option String} (h : longOption? word = some found) :
    ∃ name, name ≠ "" ∧ word = "--" ++ name ∧ found = splitInline name := by
  unfold longOption? at h
  split at h
  · next c cs heq =>
    refine ⟨String.ofList (c :: cs), ?_, ?_, (Option.some.inj h).symm⟩
    · intro hempty
      have hnil := congrArg String.toList hempty
      rw [String.toList_ofList] at hnil
      cases hnil
    · refine String.toList_inj.mp ?_
      rw [heq, toList_long, String.toList_ofList]
  · cases h

def option? (c : Command) : Group → Option (String × String)
  | .word token =>
    match longOption? token with
    | some (long, some value) => (c.id? long).map fun id => (id, value)
    | _ => none
  | .pair flag value =>
    match longOption? flag with
    | some (long, none) => (c.id? long).map fun id => (id, value)
    | _ => none
  | .operand _ => none

theorem options_group (hg : g.Complete) (hglobal : g.isGlobal = false) :
    options c (g.tokens ++ rest) =
      (option? c g).bind fun arg => (options c rest).map fun given => arg :: given := by
  cases g with
  | word token =>
    obtain ⟨-, hkind⟩ := hg
    have hvalue : (splitInline token).2 ≠ none := by
      intro hnone
      rcases hkind with hswitch | hsome
      · have hsplit := splitInline_none hnone
        simp only [Group.isGlobal, Group.flag, Group.value?, hsplit, hswitch] at hglobal
        cases hglobal
      · rw [hnone] at hsome
        cases hsome
    have hword : token ≠ "--" := by
      rintro rfl
      exact hvalue (by decide)
    rw [Group.tokens, List.singleton_append, options.eq_def, option?]
    simp only [if_neg hword]
    cases hlong : longOption? token with
    | none => rfl
    | some found =>
      obtain ⟨long, value⟩ := found
      obtain ⟨name, -, rfl, hfound⟩ := long_of_longOption hlong
      cases value with
      | none =>
        rw [splitInline_long, ← hfound] at hvalue
        exact absurd rfl hvalue
      | some value =>
        cases hid : c.id? long with
        | none => simp [hid]
        | some id => cases options c rest <;> simp [hid]
  | pair flag value =>
    obtain ⟨-, hsplit, -, hvalue, -⟩ := hg
    rw [Group.tokens, List.cons_append, List.singleton_append, options.eq_def, option?]
    by_cases hword : flag = "--"
    · subst hword
      rfl
    · simp only [if_neg hword]
      cases hlong : longOption? flag with
      | none => rfl
      | some found =>
        obtain ⟨long, inline⟩ := found
        obtain ⟨name, -, rfl, hfound⟩ := long_of_longOption hlong
        cases inline with
        | none =>
          cases hid : c.id? long with
          | none => simp [hid]
          | some id => cases options c rest <;> simp [hid, hvalue]
        | some text =>
          rw [splitInline_long, ← hfound] at hsplit
          cases hsplit
  | operand token =>
    have hvalue : isValue token = true := hg
    have hword : token ≠ "--" := by
      rintro rfl
      revert hvalue
      decide
    have hlong : longOption? token = none := by
      rw [Option.eq_none_iff_forall_ne_some]
      intro found hfound
      obtain ⟨name, -, rfl, -⟩ := long_of_longOption hfound
      have hdash : startsWithDash ("--" ++ name) = true := by
        rw [startsWithDash, toList_long]
        rfl
      simp only [isValue, hdash, Bool.not_true, Bool.false_or, beq_iff_eq] at hvalue
      have hshort := congrArg String.toList hvalue
      rw [toList_long] at hshort
      cases hshort
    rw [Group.tokens, List.singleton_append, options.eq_def, option?]
    simp only [if_neg hword, hlong]
    rfl

/-- The arguments a line of complete flags gives, in order. -/
theorem options_words (h : ∀ g ∈ groups, g.Complete ∧ g.isGlobal = false) :
    options c (words groups ++ rest) =
      (groups.mapM (option? c)).bind fun given =>
        (options c rest).map fun more => given ++ more := by
  induction groups with
  | nil =>
    change options c rest = (options c rest).map fun more => [] ++ more
    cases options c rest <;> rfl
  | cons g groups ih =>
    obtain ⟨hg, hglobal⟩ := h g List.mem_cons_self
    rw [words, List.flatMap_cons, List.append_assoc, ← words, options_group hg hglobal,
      ih fun k hk => h k (List.mem_cons_of_mem g hk), List.mapM_cons]
    cases option? c g with
    | none => rfl
    | some arg =>
      cases groups.mapM (option? c) with
      | none => rfl
      | some given => cases options c rest <;> rfl

theorem mem_of_id {long id : String} (h : c.id? long = some id) : (id, long) ∈ c.args := by
  obtain ⟨⟨found, name⟩, hfind, rfl⟩ := Option.map_eq_some_iff.mp h
  have hname := List.find?_some hfind
  obtain rfl : name = long := of_decide_eq_true hname
  exact List.mem_of_find?_eq_some hfind

theorem id_of_mem (hc : c.Valid) {id long : String} (h : (id, long) ∈ c.args) :
    c.id? long = some id := by
  cases hfound : c.id? long with
  | none =>
    have hnone := List.find?_eq_none.mp (Option.map_eq_none_iff.mp hfound)
    exact absurd (decide_eq_true rfl) (hnone _ h)
  | some other =>
    have heq := List.inj_on_of_nodup_map hc.2 (mem_of_id hfound) h rfl
    exact congrArg some (Prod.mk.inj heq).1

theorem flag_of_option {arg : String × String} (hg : g.Complete) (h : option? c g = some arg) :
    ∃ long, c.id? long = some arg.1 ∧ g.flag = "--" ++ long := by
  cases g with
  | word token =>
    rw [option?] at h
    split at h
    · next long value hlong =>
      obtain ⟨id, hid, rfl⟩ := Option.map_eq_some_iff.mp h
      obtain ⟨name, -, rfl, hfound⟩ := long_of_longOption hlong
      refine ⟨long, hid, ?_⟩
      rw [Group.flag, splitInline_long, ← hfound]
    · cases h
  | pair flag value =>
    rw [option?] at h
    split at h
    · next long hlong =>
      obtain ⟨id, hid, rfl⟩ := Option.map_eq_some_iff.mp h
      obtain ⟨name, -, rfl, hfound⟩ := long_of_longOption hlong
      have hname := splitInline_none (congrArg Prod.snd hfound.symm)
      rw [hname] at hfound
      exact ⟨long, hid, by rw [Group.flag, (Prod.mk.inj hfound).1]⟩
    · cases h
  | operand token => cases h

/-- No group gives an argument whose flag is on none of them. -/
theorem not_given {id long : String} {given : List (String × String)} (hc : c.Valid)
    (hid : (id, long) ∈ c.args) (h : ∀ g ∈ groups, g.Complete)
    (hflag : ∀ g ∈ groups, g.flag ≠ "--" ++ long) (hgiven : groups.mapM (option? c) = some given) :
    id ∉ given.map Prod.fst := by
  induction groups generalizing given with
  | nil =>
    obtain rfl := Option.some.inj hgiven
    exact List.not_mem_nil
  | cons g groups ih =>
    rw [List.mapM_cons] at hgiven
    obtain ⟨arg, harg, hgiven⟩ := Option.bind_eq_some_iff.mp hgiven
    obtain ⟨more, hmore, hgiven⟩ := Option.bind_eq_some_iff.mp hgiven
    obtain rfl := Option.some.inj hgiven
    obtain ⟨other, hother, hname⟩ := flag_of_option (h g List.mem_cons_self) harg
    have hne : id ≠ arg.1 := by
      rintro rfl
      have heq := List.inj_on_of_nodup_map hc.1 (mem_of_id hother) hid rfl
      rw [(Prod.mk.inj heq).2] at hname
      exact hflag g List.mem_cons_self hname
    rw [List.map_cons, List.mem_cons, not_or]
    exact ⟨hne, ih (fun k hk => h k (List.mem_cons_of_mem g hk))
      (fun k hk => hflag k (List.mem_cons_of_mem g hk)) hmore⟩

end Options

end CommandLine
