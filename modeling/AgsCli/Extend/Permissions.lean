import AgsCli.Extend.CsmApi
import AgsCli.Library.HashMaps

/-! # Permission overrides

`RESOURCE [ACTION]` texts, and the overrides of the `--permission` flags: each is of an endpoint
that may be edited and parses. -/
namespace Permissions

open Strings CsmApi HashMaps

structure ParsedPermission where
  resource : String
  action : String
  deriving DecidableEq, Repr

structure Endpoint where
  method : String
  path : String
  operationId : String
  requireAuthentication : Bool
  permission : Option ParsedPermission
  deriving DecidableEq, Repr

def Endpoint.isPermissionEditable (endpoint : Endpoint) : Bool :=
  endpoint.requireAuthentication && endpoint.permission.isNone

/-- `[A-Za-z0-9:*_\x7b\x7d-]`. -/
def isResourceChar (c : Char) : Bool :=
  isAsciiLetter c || isAsciiDigit c || [':', '*', '_', '\x7b', '\x7d', '-'].contains c

def actions : List (List Char) := ["CREATE", "READ", "UPDATE", "DELETE"].map String.toList

def isAction (action : List Char) : Bool := (action.splitOn '|').all fun a => actions.contains a

/-- The captures of the permission regex: a resource, a blank, and bracketed actions to the end. -/
def captures (text : List Char) : Option ParsedPermission :=
  let resource := text.takeWhile isResourceChar
  match text.drop resource.length with
  | ' ' :: '[' :: rest =>
    if resource ≠ [] ∧ rest.getLast? = some ']' ∧ isAction rest.dropLast = true then
      some ⟨String.ofList resource, String.ofList rest.dropLast⟩
    else none
  | _ => none

def formatValidationError (namespace_ : String) : String :=
  s!"Must match the format RESOURCE [ACTION] — e.g. ADMIN:NAMESPACE:{namespace_}:SEASON " ++
    "[UPDATE]. Supported actions: CREATE, READ, UPDATE, DELETE."

def parsePermission (input namespace_ : String) : Except String ParsedPermission :=
  match captures (trim input).toList with
  | some parsed => .ok parsed
  | none => .error (formatValidationError namespace_)

def displayPermission (resource action : String) : String := s!"{resource} [{action}]"

example : (["a:b [READ]", " a:* [CREATE|READ]\n", "a [READ|]", "a[READ]", " [READ]"].map
    fun s => (parsePermission s "ns").toOption) =
    [some ⟨"a:b", "READ"⟩, some ⟨"a:*", "CREATE|READ"⟩, none, none, none] := by decide

abbrev Overrides := List (String × ParsedPermission)

section Overrides

variable (endpoints : List Endpoint) (namespace_ : String)

def resolveOverride (overrides : Overrides) (raw : String) : Except CliError Overrides :=
  match splitOnce '=' raw with
  | none => .error (.usage (s!"Invalid --permission value '{raw}' — " ++
      "expected <operationId>=<RESOURCE> [<ACTION>]") none)
  | some (operationId, permissionStr) =>
    match endpoints.find? (·.operationId = operationId) with
    | none => .error (.usage s!"--permission targets unknown operation id '{operationId}'" none)
    | some endpoint =>
      if endpoint.isPermissionEditable = false then
        .error (.usage (s!"--permission targets '{operationId}' ({endpoint.method} " ++
          s!"{endpoint.path}), which already has a discovered permission (or doesn't require " ++
          "authentication) and can't be overridden") none)
      else if (Entries.lookup operationId overrides).isSome then
        .error (.usage s!"--permission for '{operationId}' was given more than once" none)
      else match parsePermission permissionStr namespace_ with
        | .error message => .error (.usage message none)
        | .ok parsed => .ok (Entries.update operationId (fun _ => parsed) overrides)

def resolvePermissionOverrides (permissionFlags : List String) : Except CliError Overrides :=
  permissionFlags.foldlM (resolveOverride endpoints namespace_) []

end Overrides

section Reading

theorem range_of_resource {c : Char} (h : isResourceChar c = true) :
    42 ≤ c.toNat ∧ c.toNat ≤ 126 := by
  simp only [isResourceChar, isAsciiLetter, isAsciiLower, isAsciiUpper, isAsciiDigit,
    Bool.or_eq_true, Bool.and_eq_true, decide_eq_true_eq, List.contains_iff_mem] at h
  rcases h with ((⟨hlow, hhigh⟩ | ⟨hlow, hhigh⟩) | ⟨hlow, hhigh⟩) | hmem
  · exact ⟨Nat.le_trans (by decide) (show 'a'.toNat ≤ c.toNat from hlow),
      Nat.le_trans (show c.toNat ≤ 'z'.toNat from hhigh) (by decide)⟩
  · exact ⟨Nat.le_trans (by decide) (show 'A'.toNat ≤ c.toNat from hlow),
      Nat.le_trans (show c.toNat ≤ 'Z'.toNat from hhigh) (by decide)⟩
  · exact ⟨Nat.le_trans (by decide) (show '0'.toNat ≤ c.toNat from hlow),
      Nat.le_trans (show c.toNat ≤ '9'.toNat from hhigh) (by decide)⟩
  · have hall : [':', '*', '_', '\x7b', '\x7d', '-'].all
        (fun c => 42 ≤ c.toNat ∧ c.toNat ≤ 126) := by decide
    exact of_decide_eq_true (List.all_eq_true.mp hall c hmem)

theorem not_white_of_resource {c : Char} (h : isResourceChar c = true) :
    isWhiteSpace c = false := by
  obtain ⟨hlow, hhigh⟩ := range_of_resource h
  simp only [isWhiteSpace, Bool.or_eq_false_iff, Bool.and_eq_false_iff, decide_eq_false_iff_not,
    List.contains_eq_mem, List.mem_cons, List.not_mem_nil, or_false]
  omega

/-- Nothing is trimmed off a text that neither starts nor ends in white space. -/
theorem trim_eq {text : List Char} {first last : Char} {init rest : List Char}
    (hfirst : text = first :: rest) (hlast : text = init ++ [last])
    (hwhite : isWhiteSpace first = false) (hwhite' : isWhiteSpace last = false) :
    trim (String.ofList text) = String.ofList text := by
  rw [trim, String.toList_ofList]
  have hstart : text.dropWhile isWhiteSpace = text := by
    rw [hfirst, List.dropWhile_cons_of_neg (by rw [hwhite]; exact Bool.false_ne_true)]
  have hstop : text.reverse.dropWhile isWhiteSpace = text.reverse := by
    rw [hlast, List.reverse_append, List.reverse_singleton, List.singleton_append,
      List.dropWhile_cons_of_neg (by rw [hwhite']; exact Bool.false_ne_true)]
  rw [hstart, hstop, List.reverse_reverse]

theorem captures_some {text : List Char} {parsed : ParsedPermission}
    (h : captures text = some parsed) :
    text = parsed.resource.toList ++ ' ' :: '[' :: parsed.action.toList ++ [']'] ∧
    parsed.resource.toList ≠ [] ∧ (∀ c ∈ parsed.resource.toList, isResourceChar c = true) ∧
    isAction parsed.action.toList = true := by
  unfold captures at h
  simp only at h
  split at h
  · next rest hdrop =>
    split_ifs at h with hparts
    obtain ⟨hne, hlast, haction⟩ := hparts
    rw [← Option.some.inj h, String.toList_ofList, String.toList_ofList]
    obtain ⟨init, rfl⟩ := List.getLast?_eq_some_iff.mp hlast
    rw [List.dropLast_concat] at haction ⊢
    refine ⟨?_, hne, fun c hc => List.mem_takeWhile_imp hc, haction⟩
    have hfront : text.take (text.takeWhile isResourceChar).length =
        text.takeWhile isResourceChar :=
      (List.prefix_iff_eq_take.mp (List.takeWhile_prefix isResourceChar)).symm
    conv_lhs => rw [← List.take_append_drop (text.takeWhile isResourceChar).length text, hdrop]
    rw [hfront, List.append_assoc]
    rfl
  · cases h

/-- What is read is displayed in a form that is read as the same. -/
theorem parsePermission_display {input namespace_ : String} {parsed : ParsedPermission}
    (h : parsePermission input namespace_ = .ok parsed) (other : String) :
    parsePermission (displayPermission parsed.resource parsed.action) other = .ok parsed := by
  have hcaptures : captures (trim input).toList = some parsed := by
    unfold parsePermission at h
    cases hparts : captures (trim input).toList with
    | none =>
      rw [hparts] at h
      cases h
    | some found =>
      rw [hparts] at h
      rw [Except.ok.inj h]
  obtain ⟨-, hne, hresource, haction⟩ := captures_some hcaptures
  obtain ⟨first, rest, hfirst⟩ := List.exists_cons_of_ne_nil hne
  have htext : displayPermission parsed.resource parsed.action = String.ofList
      (parsed.resource.toList ++ ' ' :: '[' :: parsed.action.toList ++ [']']) := by
    rw [← String.toList_inj, String.toList_ofList]
    simp [displayPermission, toString]
  have htrim : trim (displayPermission parsed.resource parsed.action) =
      displayPermission parsed.resource parsed.action := by
    have hstart : parsed.resource.toList ++ ' ' :: '[' :: parsed.action.toList ++ [']'] =
        first :: (rest ++ ' ' :: '[' :: parsed.action.toList ++ [']']) := by
      rw [hfirst]
      rfl
    rw [htext]
    exact trim_eq hstart rfl
      (not_white_of_resource (hresource first (hfirst ▸ List.mem_cons_self))) (by decide)
  have hback : captures (parsed.resource.toList ++ ' ' :: '[' :: parsed.action.toList ++ [']']) =
      some parsed := by
    have htake : (parsed.resource.toList ++ ' ' :: '[' :: parsed.action.toList ++
        [']']).takeWhile isResourceChar = parsed.resource.toList := by
      rw [List.append_assoc, List.takeWhile_append_of_pos hresource, List.cons_append,
        List.takeWhile_cons_of_neg (by decide), List.append_nil]
    have hdrop : (parsed.resource.toList ++ ' ' :: '[' :: parsed.action.toList ++ [']']).drop
        parsed.resource.toList.length = ' ' :: '[' :: (parsed.action.toList ++ [']']) := by
      rw [List.append_assoc, List.drop_left]
      rfl
    simp only [captures, htake, hdrop]
    rw [List.dropLast_concat, if_pos ⟨hne, List.getLast?_concat, haction⟩, String.ofList_toList,
      String.ofList_toList]
  rw [parsePermission, htrim, htext, String.toList_ofList, hback]

end Reading

section Overridden

variable {endpoints : List Endpoint} {namespace_ : String}

def AllParse (overrides : Overrides) : Prop :=
  ∀ id parsed, Entries.lookup id overrides = some parsed →
    ∃ input ns, parsePermission input ns = .ok parsed

theorem resolveOverride_parses {overrides overrides' : Overrides} {raw : String}
    (h : resolveOverride endpoints namespace_ overrides raw = .ok overrides')
    (hparse : AllParse overrides) : AllParse overrides' := by
  unfold resolveOverride at h
  split at h
  · cases h
  · next operationId permissionStr hsplit =>
    split at h
    · cases h
    · next endpoint hendpoint =>
      split_ifs at h with heditable htwice
      split at h
      · cases h
      · next parsed hparsed =>
        cases h
        intro id found hlookup
        rw [Entries.lookup_update] at hlookup
        split_ifs at hlookup with hid
        · rw [← Option.some.inj hlookup]
          exact ⟨permissionStr, namespace_, hparsed⟩
        · exact hparse id found hlookup

theorem resolvePermissionOverrides_parses {flags : List String} {overrides : Overrides}
    (h : resolvePermissionOverrides endpoints namespace_ flags = .ok overrides) :
    AllParse overrides := by
  have hfold : ∀ (flags : List String) (start overrides : Overrides),
      flags.foldlM (resolveOverride endpoints namespace_) start = .ok overrides →
      AllParse start → AllParse overrides := by
    intro flags
    induction flags with
    | nil =>
      intro start overrides h hstart
      cases h
      exact hstart
    | cons raw flags ih =>
      intro start overrides h hstart
      rw [List.foldlM_cons] at h
      cases hstep : resolveOverride endpoints namespace_ start raw with
      | error e =>
        rw [hstep] at h
        cases h
      | ok next =>
        rw [hstep] at h
        exact ih next overrides h (resolveOverride_parses hstep hstart)
  exact hfold flags [] overrides h fun id parsed hlookup => by cases hlookup

end Overridden

end Permissions
