import AgsCli.Invocation.HelpTree
import AgsCli.Telemetry.FlagCapture

/-! # The two scans of a command line

`pre_scan_global_flags` and `pre_scan_leaf_selectors` run over the argument vector before the
operation's own arguments are parsed. On a line of complete flags each takes its own flags out. -/
namespace Flags

open RequestTypes FlagCapture Strings
open HelpTree (LeafSelectors)

/-- `KNOWN_GLOBAL_FLAGS`: a flag and whether it takes a value. -/
def knownGlobalFlags : List (String × Bool) :=
  [("--verbose", false), ("-v", false), ("--quiet", false), ("-q", false), ("--no-input", false),
    ("--no-color", false), ("--yes", false), ("-y", false), ("--format", true), ("--ui", true),
    ("--namespace", true), ("-n", true), ("--output", true), ("--profile", true),
    ("--dry-run", false), ("--skeleton", false), ("--timeout", true), ("--page-all", false),
    ("--page-limit", true)]

def takesValue? (flag : String) : Option Bool :=
  (knownGlobalFlags.find? fun known => known.1 = flag).map (·.2)

def noFlags : GlobalFlags where
  verbosity := .normal
  isNoInput := false
  isNoColor := false
  isAutoConfirmed := false
  format := none
  ui := none
  «namespace» := none
  profile := none
  isDryRun := false
  isSkeleton := false
  timeout := none
  isPageAll := false
  pageLimitRaw := none
  output := none

def parseFormat (s : String) : Except String OutputFormat :=
  match s with
  | "human" => .ok .human
  | "json" => .ok .json
  | _ => .error s!"unknown --format value '{s}' (expected: human, json)"

def parseUi (s : String) : Except String UiFlag :=
  match s with
  | "auto" => .ok .auto
  | "plain" => .ok .plain
  | "inline" => .ok .inline
  | "fullscreen" => .ok .fullscreen
  | _ =>
    .error s!"unknown --ui value '{s}' (expected one of: auto, plain, inline, fullscreen)"

def parseTimeout (s : String) : Except String Nat :=
  match parseUsize s.toList with
  | none => .error s!"Invalid --timeout value '{s}'"
  | some 0 => .error "--timeout must be at least 1 second"
  | some n => .ok n

def parseOutput (s : String) : OutputDestination := if s = "-" then .stdout else .file s

def setNamespace (flags : GlobalFlags) (v : String) : GlobalFlags :=
  { flags with «namespace» := some v }

def withValue (flags : GlobalFlags) (value : Option String)
    (set : String → Except String GlobalFlags) : Except String GlobalFlags :=
  match value with
  | some v => set v
  | none => .ok flags

def applyFlag (flags : GlobalFlags) (flag : String) (value : Option String) :
    Except String GlobalFlags :=
  if flag = "--verbose" ∨ flag = "-v" then .ok { flags with verbosity := .verbose }
  else if flag = "--quiet" ∨ flag = "-q" then .ok { flags with verbosity := .quiet }
  else if flag = "--no-input" then .ok { flags with isNoInput := true }
  else if flag = "--no-color" then .ok { flags with isNoColor := true }
  else if flag = "--yes" ∨ flag = "-y" then .ok { flags with isAutoConfirmed := true }
  else if flag = "--format" then withValue flags value fun v =>
    (parseFormat v).map fun format => { flags with format := some format }
  else if flag = "--ui" then withValue flags value fun v =>
    (parseUi v).map fun ui => { flags with ui := some ui }
  else if flag = "--namespace" ∨ flag = "-n" then withValue flags value fun v =>
    if trim v = "" then .error "--namespace value cannot be empty" else .ok (setNamespace flags v)
  else if flag = "--output" then withValue flags value fun v =>
    .ok { flags with output := some (parseOutput v) }
  else if flag = "--profile" then withValue flags value fun v =>
    .ok { flags with profile := some v }
  else if flag = "--dry-run" then .ok { flags with isDryRun := true }
  else if flag = "--skeleton" then .ok { flags with isSkeleton := true }
  else if flag = "--timeout" then withValue flags value fun v =>
    (parseTimeout v).map fun timeout => { flags with timeout := some timeout }
  else if flag = "--page-all" then .ok { flags with isPageAll := true }
  else if flag = "--page-limit" then withValue flags value fun v =>
    .ok { flags with pageLimitRaw := some v }
  else .ok flags

/-- A flag that takes a value, with the value after `=`. -/
def inlineGlobal? (arg : String) : Option (String × String) :=
  match splitInline arg with
  | (flag, some value) => if takesValue? flag = some true then some (flag, value) else none
  | (_, none) => none

def isValue (word : String) : Bool := !startsWithDash word || word == "-"

def missingValue (flag : String) : String :=
  s!"A value is required for '{flag}' but none was supplied"

def scanGlobal (flags : GlobalFlags) : List String → Except String (GlobalFlags × List String)
  | [] => .ok (flags, [])
  | arg :: rest =>
    match inlineGlobal? arg with
    | some (flag, value) => do scanGlobal (← applyFlag flags flag (some value)) rest
    | none =>
      match takesValue? arg with
      | some true =>
        match rest with
        | [] => .error (missingValue arg)
        | next :: rest =>
          if isValue next then do scanGlobal (← applyFlag flags arg (some next)) rest
          else .error (missingValue arg)
      | some false => do scanGlobal (← applyFlag flags arg none) rest
      | none => do
        let (flags, remaining) ← scanGlobal flags rest
        return (flags, arg :: remaining)

def preScanGlobalFlags (args : List String) : Except String (GlobalFlags × List String) :=
  scanGlobal noFlags args

def selectorFlags : List String := ["--api-scope", "--api-version"]

def missingSelector (flag : String) : String :=
  s!"A value is required for '{flag} <{String.ofList (flag.toList.drop 2)}>' but none was supplied"

def setSelector (selectors : LeafSelectors) (flag value : String) : LeafSelectors :=
  if flag = "--api-scope" then { selectors with apiScope := some value }
  else { selectors with apiVersion := some value }

/-- The loop of `pre_scan_leaf_selectors`; the later value of a selector wins. -/
def scanLeaf (selectors : LeafSelectors) :
    List String → Except String (LeafSelectors × List String)
  | [] => .ok (selectors, [])
  | arg :: rest =>
    match splitInline arg with
    | (flag, some value) =>
      if flag ∈ selectorFlags then scanLeaf (setSelector selectors flag value) rest
      else do
        let (selectors, remaining) ← scanLeaf selectors rest
        return (selectors, arg :: remaining)
    | (_, none) =>
      if arg ∈ selectorFlags then
        match rest with
        | [] => .error (missingSelector arg)
        | next :: rest =>
          if startsWithDash next then .error (missingSelector arg)
          else scanLeaf (setSelector selectors arg next) rest
      else do
        let (selectors, remaining) ← scanLeaf selectors rest
        return (selectors, arg :: remaining)

def preScanLeafSelectors (args : List String) : Except String (LeafSelectors × List String) :=
  scanLeaf ⟨none, none⟩ args

section Groups

inductive Group
  | word (token : String)
  | pair (flag value : String)
  | operand (token : String)

namespace Group

def tokens : Group → List String
  | word token => [token]
  | pair flag value => [flag, value]
  | operand token => [token]

def flag : Group → String
  | word token => (splitInline token).1
  | pair flag _ => flag
  | operand token => token

def value? : Group → Option String
  | word token => (splitInline token).2
  | pair _ value => some value
  | operand _ => none

/-- A word is a switch or has its value after `=`; a pair has a flag that is no switch. -/
def Complete : Group → Prop
  | word token => startsWithDash token = true ∧
      (takesValue? token = some false ∨ (splitInline token).2.isSome = true)
  | pair flag value => startsWithDash flag = true ∧ (splitInline flag).2 = none ∧
      takesValue? flag ≠ some false ∧ isValue value = true ∧
      (flag ∈ selectorFlags → startsWithDash value = false)
  | operand token => isValue token = true

/-- Taken by the global scan: a switch alone, or a flag that takes a value with one. -/
def isGlobal (g : Group) : Bool := takesValue? g.flag == some g.value?.isSome

def isSelector (g : Group) : Bool := g.value?.isSome && selectorFlags.contains g.flag

end Group

def words (groups : List Group) : List String := groups.flatMap Group.tokens

variable {flags : GlobalFlags} {selectors : LeafSelectors} {arg flag : String}
  {rest : List String} {g : Group} {groups : List Group}

theorem splitInline_none (h : (splitInline arg).2 = none) : splitInline arg = (arg, none) := by
  unfold splitInline at h ⊢
  split at h
  · rfl
  · cases h

theorem startsWithDash_splitInline (h : startsWithDash (splitInline arg).1 = true) :
    startsWithDash arg = true := by
  unfold splitInline at h
  split at h
  · exact h
  · unfold startsWithDash at h ⊢
    rw [String.toList_ofList, namePart] at h
    cases hl : arg.toList with
    | nil =>
      rw [hl] at h
      cases h
    | cons c cs =>
      rw [hl, List.takeWhile_cons] at h
      split at h
      · exact h
      · cases h

theorem mem_of_takesValue {b : Bool} (h : takesValue? flag = some b) :
    (flag, b) ∈ knownGlobalFlags := by
  obtain ⟨⟨name, takes⟩, hfind, rfl⟩ := Option.map_eq_some_iff.mp h
  have hname := List.find?_some hfind
  obtain rfl : name = flag := of_decide_eq_true hname
  exact List.mem_of_find?_eq_some hfind

theorem dash_of_takesValue {b : Bool} (h : takesValue? flag = some b) :
    startsWithDash flag = true := by
  have hall : ∀ known ∈ knownGlobalFlags, startsWithDash known.1 = true := by
    simp [knownGlobalFlags, startsWithDash]
  exact hall _ (mem_of_takesValue h)

theorem plain_of_takesValue {b : Bool} (h : takesValue? flag = some b) :
    (splitInline flag).2 = none := by
  have hall : ∀ known ∈ knownGlobalFlags, (splitInline known.1).2 = none := by decide
  exact hall _ (mem_of_takesValue h)

theorem dash_of_selector (h : flag ∈ selectorFlags) : startsWithDash flag = true := by
  have hall : ∀ selector ∈ selectorFlags, startsWithDash selector = true := by decide
  exact hall flag h

/-- A value is neither a flag of a scan nor one with its value after an equals sign. -/
theorem value_free (h : isValue arg = true) : inlineGlobal? arg = none ∧ takesValue? arg = none ∧
    (splitInline arg).1 ∉ selectorFlags ∧ arg ∉ selectorFlags := by
  simp only [isValue, Bool.or_eq_true, Bool.not_eq_true', beq_iff_eq] at h
  rcases h with hdash | rfl
  · have hplain : ∀ {b : Bool}, takesValue? arg ≠ some b := fun hb => by
      rw [dash_of_takesValue hb] at hdash
      cases hdash
    have hname : ¬ startsWithDash (splitInline arg).1 = true := fun hname => by
      rw [startsWithDash_splitInline hname] at hdash
      cases hdash
    refine ⟨?_, Option.eq_none_iff_forall_ne_some.mpr fun b => hplain, fun hmem =>
      hname (dash_of_selector hmem), fun hmem => ?_⟩
    · unfold inlineGlobal?
      split
      · next name value heq =>
        rw [heq] at hname
        rw [if_neg fun htakes => hname (dash_of_takesValue htakes)]
      · rfl
    · rw [dash_of_selector hmem] at hdash
      cases hdash
  · decide

theorem scanGlobal_keep (hinline : inlineGlobal? arg = none) (htakes : takesValue? arg = none) :
    scanGlobal flags (arg :: rest) =
      (scanGlobal flags rest).map fun r => (r.1, arg :: r.2) := by
  rw [scanGlobal.eq_def]
  simp only [hinline, htakes]
  cases scanGlobal flags rest <;> rfl

theorem scanGlobal_group (hg : g.Complete) :
    scanGlobal flags (g.tokens ++ rest) =
      if g.isGlobal then (applyFlag flags g.flag g.value?).bind fun flags => scanGlobal flags rest
      else (scanGlobal flags rest).map fun r => (r.1, g.tokens ++ r.2) := by
  cases g with
  | word token =>
    obtain ⟨-, hkind⟩ := hg
    unfold Group.isGlobal Group.flag Group.value? Group.tokens
    rcases hsplit : splitInline token with ⟨name, value⟩
    rw [hsplit] at hkind
    cases value with
    | none =>
      rcases hkind with hswitch | hvalue
      · have hname := splitInline_none (by rw [hsplit])
        obtain rfl : name = token := (Prod.mk.inj (hsplit.symm.trans hname)).1
        rw [List.singleton_append, scanGlobal.eq_def]
        simp only [inlineGlobal?, hsplit, hswitch]
        rfl
      · cases hvalue
    | some value =>
      have htoken : takesValue? token = none := by
        refine Option.eq_none_iff_forall_ne_some.mpr fun b hb => ?_
        have hplain := plain_of_takesValue hb
        rw [hsplit] at hplain
        cases hplain
      by_cases htakes : takesValue? name = some true
      · rw [List.singleton_append, scanGlobal.eq_def]
        simp only [inlineGlobal?, hsplit, htakes]
        rfl
      · have hnot : (takesValue? name == some (some value).isSome) = false :=
          beq_eq_false_iff_ne.mpr htakes
        have hinline : inlineGlobal? token = none := by
          unfold inlineGlobal?
          rw [hsplit]
          exact if_neg htakes
        rw [List.singleton_append, scanGlobal_keep hinline htoken]
        simp only [hsplit, hnot]
        rfl
  | pair name value =>
    obtain ⟨-, hsplit, hswitch, hvalue, -⟩ := hg
    have hname := splitInline_none hsplit
    have hinline : inlineGlobal? name = none := by
      unfold inlineGlobal?
      rw [hname]
    unfold Group.isGlobal Group.flag Group.value? Group.tokens
    cases htakes : takesValue? name with
    | none =>
      have hfree := value_free hvalue
      rw [List.cons_append, List.singleton_append, scanGlobal_keep hinline htakes,
        scanGlobal_keep hfree.1 hfree.2.1]
      cases scanGlobal flags rest <;> rfl
    | some b =>
      cases b with
      | false => exact absurd htakes hswitch
      | true =>
        rw [List.cons_append, List.singleton_append, scanGlobal.eq_def]
        simp only [hinline, htakes, hvalue]
        rfl
  | operand value =>
    obtain ⟨hinline, htakes, -⟩ := value_free hg
    unfold Group.isGlobal Group.flag Group.value? Group.tokens
    rw [List.singleton_append, scanGlobal_keep hinline htakes, htakes]
    rfl

def applyGlobals (flags : GlobalFlags) (groups : List Group) : Except String GlobalFlags :=
  (groups.filter Group.isGlobal).foldlM (fun flags g => applyFlag flags g.flag g.value?) flags

theorem scanGlobal_words (h : ∀ g ∈ groups, g.Complete) (flags : GlobalFlags) :
    scanGlobal flags (words groups ++ rest) =
      (applyGlobals flags groups).bind fun flags => (scanGlobal flags rest).map fun r =>
        (r.1, words (groups.filter fun g => !g.isGlobal) ++ r.2) := by
  induction groups generalizing flags with
  | nil =>
    change scanGlobal flags rest = (scanGlobal flags rest).map fun r => (r.1, [] ++ r.2)
    cases scanGlobal flags rest <;> rfl
  | cons g groups ih =>
    have hrest := ih fun k hk => h k (List.mem_cons_of_mem g hk)
    rw [words, List.flatMap_cons, List.append_assoc, ← words,
      scanGlobal_group (h g List.mem_cons_self)]
    unfold applyGlobals at hrest ⊢
    cases hglobal : g.isGlobal with
    | true =>
      rw [List.filter_cons_of_pos hglobal, List.filter_cons_of_neg (by simp [hglobal]), if_pos rfl,
        List.foldlM_cons]
      cases applyFlag flags g.flag g.value? with
      | error e => rfl
      | ok next => exact hrest next
    | false =>
      rw [List.filter_cons_of_neg (by simp [hglobal]), List.filter_cons_of_pos (by simp [hglobal]),
        if_neg Bool.false_ne_true, hrest]
      cases (groups.filter Group.isGlobal).foldlM
          (fun flags g => applyFlag flags g.flag g.value?) flags with
      | error e => rfl
      | ok next =>
        change ((scanGlobal next rest).map _).map _ = (scanGlobal next rest).map _
        cases scanGlobal next rest with
        | error e => rfl
        | ok r => simp [Except.map, words, List.append_assoc]

theorem scanLeaf_keep (hinline : (splitInline arg).1 ∉ selectorFlags) (harg : arg ∉ selectorFlags) :
    scanLeaf selectors (arg :: rest) =
      (scanLeaf selectors rest).map fun r => (r.1, arg :: r.2) := by
  rw [scanLeaf.eq_def]
  rcases hsplit : splitInline arg with ⟨name, value⟩
  rw [hsplit] at hinline
  cases value with
  | none =>
    simp only [hsplit, if_neg harg]
    cases scanLeaf selectors rest <;> rfl
  | some value =>
    simp only [hsplit, if_neg hinline]
    cases scanLeaf selectors rest <;> rfl

/-- What a group does to the selectors. -/
def select (selectors : LeafSelectors) (g : Group) : LeafSelectors :=
  setSelector selectors g.flag (g.value?.getD "")

theorem scanLeaf_group (hg : g.Complete) :
    scanLeaf selectors (g.tokens ++ rest) =
      if g.isSelector then scanLeaf (select selectors g) rest
      else (scanLeaf selectors rest).map fun r => (r.1, g.tokens ++ r.2) := by
  cases g with
  | word token =>
    obtain ⟨-, hkind⟩ := hg
    unfold Group.isSelector select Group.flag Group.value? Group.tokens
    rcases hsplit : splitInline token with ⟨name, value⟩
    rw [hsplit] at hkind
    cases value with
    | none =>
      rcases hkind with hswitch | hvalue
      · have hall : ∀ selector ∈ selectorFlags, takesValue? selector = none := by decide
        have hname := splitInline_none (by rw [hsplit])
        obtain rfl : name = token := (Prod.mk.inj (hsplit.symm.trans hname)).1
        have hnot : name ∉ selectorFlags := fun hmem => by
          rw [hall name hmem] at hswitch
          cases hswitch
        rw [List.singleton_append, scanLeaf_keep (by rw [hsplit]; exact hnot) hnot]
        simp only [hsplit]
        rfl
      · cases hvalue
    | some value =>
      have hall : ∀ selector ∈ selectorFlags, (splitInline selector).2 = none := by decide
      have htoken : token ∉ selectorFlags := fun hmem => by
        have hplain := hall token hmem
        rw [hsplit] at hplain
        cases hplain
      by_cases hname : name ∈ selectorFlags
      · have hselector : selectorFlags.contains name = true := List.contains_iff_mem.mpr hname
        rw [List.singleton_append, scanLeaf.eq_def]
        simp only [hsplit, hselector, if_pos hname]
        rfl
      · have hselector : selectorFlags.contains name = false := by
          rw [Bool.eq_false_iff]
          exact fun hmem => hname (List.contains_iff_mem.mp hmem)
        rw [List.singleton_append, scanLeaf_keep (by rw [hsplit]; exact hname) htoken]
        simp only [hsplit, hselector]
        rfl
  | pair name value =>
    obtain ⟨-, hsplit, -, hvalue, hselects⟩ := hg
    have hname := splitInline_none hsplit
    have hfree := value_free hvalue
    unfold Group.isSelector select Group.flag Group.value? Group.tokens
    by_cases hmem : name ∈ selectorFlags
    · have hselector : selectorFlags.contains name = true := List.contains_iff_mem.mpr hmem
      rw [List.cons_append, List.singleton_append, scanLeaf.eq_def]
      simp only [hname, if_pos hmem, hselects hmem, hselector]
      rfl
    · have hselector : selectorFlags.contains name = false := by
        rw [Bool.eq_false_iff]
        exact fun hin => hmem (List.contains_iff_mem.mp hin)
      rw [List.cons_append, List.singleton_append, scanLeaf_keep (by rw [hname]; exact hmem) hmem,
        scanLeaf_keep hfree.2.2.1 hfree.2.2.2]
      simp only [hselector]
      cases scanLeaf selectors rest <;> rfl
  | operand value =>
    obtain ⟨-, -, hinline, hword⟩ := value_free hg
    unfold Group.isSelector Group.value? Group.tokens
    rw [List.singleton_append, scanLeaf_keep hinline hword]
    rfl

theorem scanLeaf_words (h : ∀ g ∈ groups, g.Complete) (selectors : LeafSelectors) :
    scanLeaf selectors (words groups ++ rest) =
      (scanLeaf ((groups.filter Group.isSelector).foldl select selectors) rest).map fun r =>
        (r.1, words (groups.filter fun g => !g.isSelector) ++ r.2) := by
  induction groups generalizing selectors with
  | nil =>
    change scanLeaf selectors rest = (scanLeaf selectors rest).map fun r => (r.1, [] ++ r.2)
    cases scanLeaf selectors rest <;> rfl
  | cons g groups ih =>
    have hrest := ih fun k hk => h k (List.mem_cons_of_mem g hk)
    rw [words, List.flatMap_cons, List.append_assoc, ← words,
      scanLeaf_group (h g List.mem_cons_self)]
    cases hselector : g.isSelector with
    | true =>
      rw [List.filter_cons_of_pos hselector, List.filter_cons_of_neg (by simp [hselector]),
        if_pos rfl, List.foldl_cons, hrest]
    | false =>
      have hkept : (g :: groups).filter (fun g => !g.isSelector) =
          g :: groups.filter fun g => !g.isSelector :=
        List.filter_cons_of_pos (by rw [hselector]; rfl)
      have htaken : (g :: groups).filter Group.isSelector = groups.filter Group.isSelector :=
        List.filter_cons_of_neg (by simp [hselector])
      rw [hkept, htaken, if_neg Bool.false_ne_true, hrest]
      cases scanLeaf ((groups.filter Group.isSelector).foldl select selectors) rest with
      | error e => rfl
      | ok r => simp [Except.map, words, List.append_assoc]

end Groups

end Flags
