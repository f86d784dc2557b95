import AgsCli.Library.HashMaps
import AgsCli.Library.PullUp
import AgsCli.Protocol.Json
import AgsCli.Support.Casing

/-! # Response shaping

Which fields of a JSON response are shown, in what order and under what labels, and the table of a
list of items. -/
namespace Shape

open Casing HashMaps Json

inductive CommandIntent
  | action
  | inspect
  | list
  deriving DecidableEq, Repr

structure FieldEntry where
  label : String
  value : String
  deriving DecidableEq, Repr

structure Section where
  heading : String
  fields : List FieldEntry
  deriving DecidableEq, Repr

structure ListTable where
  headers : List String
  rows : List (List String)
  deriving DecidableEq, Repr

def specialLabels : List (String × String) :=
  [("id", "ID"), ("userId", "User ID"), ("clientId", "Client ID"), ("roleId", "Role ID"),
    ("namespaceId", "Namespace ID"), ("createdAt", "Created"), ("updatedAt", "Updated"),
    ("deletedAt", "Deleted"), ("baseUrl", "Base URL"), ("emailAddress", "Email"),
    ("displayName", "Display Name"), ("userName", "Username"), ("appName", "App Name"),
    ("namespace", "Namespace"), ("enable", "Enabled")]

/-- The keys of each priority, the most important first. -/
def priorities : List (List String) :=
  [["id", "userId", "clientId", "roleId", "namespaceId"],
    ["name", "displayName", "userName", "emailAddress", "appName"],
    ["status", "enabled", "active", "verified", "emailVerified", "banned"],
    ["namespace", "platform", "platformId"],
    ["createdBy", "updatedBy", "deletedBy"],
    ["createdAt", "updatedAt", "deletedAt", "lastLogin", "expiresAt"],
    ["description", "country", "dateOfBirth", "language", "timezone"],
    ["code", "errorCode", "errorMessage"]]

def noiseKeys : List String :=
  ["paging", "pagination", "links", "_links", "self", "next", "previous", "first", "last",
    "totalPages", "totalData", "headers", "metadata", "_metadata"]

def dash : String := "—"

def usizeMax : Nat := 2 ^ 64 - 1

def normalizeValue : Value → Option String
  | .null => none
  | .bool b => some (if b then "yes" else "no")
  | .string s => if s.isEmpty then none else some (Strings.stripTerminalControlSequences s)
  | .number n => some n.render
  | .array items =>
    if items.isEmpty then none
    else if items.length = 1 then some "1 item"
    else some s!"{items.length} items"
  | .object _ => none

def fieldPriority (key : String) : Nat := priorities.findIdx fun keys => keys.contains key

def isEmptyValue : Value → Bool
  | .null => true
  | .string s => s.isEmpty
  | .array items => items.isEmpty
  | .object members => members.isEmpty
  | _ => false

def shouldSuppressField (key : String) (value : Value) : Bool :=
  isEmptyValue value || noiseKeys.contains key

def fieldLimit : CommandIntent → Bool → Nat
  | .action, false => 5
  | .inspect, false => 8
  | .list, false => 4
  | .list, true => 8
  | _, true => usizeMax

variable (table : CaseTable)

/-- A character of a label, the first of it or a later one. -/
def labelChar (first : Bool) (character : Char) : List Char :=
  if table.isUppercase character && !first then
    [' ', (table.lower character).head?.getD character]
  else if first then [(table.upper character).head?.getD character]
  else [character]

def normalizeLabel (key : String) : String :=
  match specialLabels.lookup key with
  | some label => label
  | none =>
    match key.toList with
    | [] => ""
    | first :: rest =>
      String.ofList (labelChar table true first ++ rest.flatMap (labelChar table false))

def fieldEntry (member : String × Value) : Option FieldEntry :=
  (normalizeValue member.2).map fun value => ⟨normalizeLabel table member.1, value⟩

def nestedFields (isVerbose : Bool) (nested : List (String × Value)) : List FieldEntry :=
  let children := if isVerbose then nested
    else nested.filter fun e => !e.2.isObject && !e.2.isArray && !e.2.isNull
  children.filterMap (fieldEntry table)

def candidateSection (isVerbose : Bool) (member : String × Value) : Option Section :=
  if shouldSuppressField member.1 member.2 then none
  else match member.2 with
    | .object nested =>
      let fields := nestedFields table isVerbose nested
      if fields.isEmpty || (!isVerbose && 6 < fields.length) then none
      else some ⟨normalizeLabel table member.1, fields⟩
    | _ => none

def scalarEntry (member : String × Value) : Option (Nat × FieldEntry) :=
  if shouldSuppressField member.1 member.2 then none
  else match member.2 with
    | .object _ => none
    | _ => (fieldEntry table member).map fun entry => (fieldPriority member.1, entry)

def prioritizeFields (data : List (String × Value)) (intent : CommandIntent) (isVerbose : Bool) :
    List FieldEntry × List Section :=
  let scalarEntries := PullUp.sortByKey Prod.fst (data.filterMap (scalarEntry table))
  let candidateSections := data.filterMap (candidateSection table isVerbose)
  ((scalarEntries.take (fieldLimit intent isVerbose)).map Prod.snd,
    candidateSections.take (if isVerbose then usizeMax else 2))

variable (intent : CommandIntent) (isVerbose : Bool)

/-- The labels of the first item that shows a field. -/
def tableHeaders (items : List Value) : List String :=
  let labels : Value → Option (List String)
    | .object object =>
      let fields := (prioritizeFields table object intent isVerbose).1
      if fields.isEmpty then none else some (fields.map (·.label))
    | _ => none
  (items.findSome? labels).getD []

def scalarRow (item : Value) : Option (List String) := (normalizeValue item).map ([·])

def itemRow (headers : List String) : Value → Option (List String)
  | .object object =>
    let fields := (prioritizeFields table object intent isVerbose).1
    if fields.isEmpty then none
    else
      let byLabel := HashMap.collect (·.label) (fun f _ => f.value) fields
      some (headers.map fun h => (byLabel.get? h).getD dash)
  | item => scalarRow item

def buildListTable (items : List Value) (scalarHeader : String) : ListTable :=
  let headers := tableHeaders table intent isVerbose items
  if headers.isEmpty then
    let rows := items.filterMap scalarRow
    if rows.isEmpty then ⟨headers, []⟩ else ⟨[scalarHeader], rows⟩
  else ⟨headers, items.filterMap (itemRow table intent isVerbose headers)⟩

end Shape
