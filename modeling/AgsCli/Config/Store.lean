import AgsCli.Config.Keys
import AgsCli.Protocol.Error
import AgsCli.Protocol.Json

/-! # Config files

A config file as its two readers see it: the raw reader of one field and the typed loader of the
whole file; and the update of one field. -/
namespace ConfigStore

open OrderedMap Json ProtocolError Strings

section Fields

inductive OutputFormat
  | human
  | json
  deriving DecidableEq, Repr

inductive GrantType
  | authorizationCode
  | clientCredentials
  deriving DecidableEq, Repr

inductive FieldValue
  | string (s : String)
  | bool (b : Bool)
  | u64 (n : Nat)
  | format (f : OutputFormat)
  | grantType (g : GrantType)
  deriving DecidableEq, Repr

inductive FieldType
  | string
  | bool
  | u64
  | format
  | grantType
  deriving DecidableEq, Repr

def formatOf : String → Option OutputFormat
  | "human" => some .human
  | "json" => some .json
  | _ => none

def grantTypeOf : String → Option GrantType
  | "authorization-code" => some .authorizationCode
  | "client-credentials" => some .clientCredentials
  | _ => none

/-- A unit variant: its name, or an object of its name and null. -/
def variantName : Value → Option String
  | .string s => some s
  | .object [(name, .null)] => some name
  | _ => none

def decodeValue : FieldType → Value → Option FieldValue
  | .string, .string s => some (.string s)
  | .bool, .bool b => some (.bool b)
  | .u64, .number (.int n) => if 0 ≤ n ∧ n < 2 ^ 64 then some (.u64 n.toNat) else none
  | .format, v => ((variantName v).bind formatOf).map .format
  | .grantType, v => ((variantName v).bind grantTypeOf).map .grantType
  | _, _ => none

/-- A field that may be missing or null. -/
def decodeField (fieldType : FieldType) : Option Value → Option (Option FieldValue)
  | none | some .null => some none
  | some v => (decodeValue fieldType v).map some

def FieldType.parse (fieldType : FieldType) (s : String) : Option FieldValue :=
  match fieldType with
  | .string => some (.string s)
  | .bool => if s = "true" then some (.bool true) else if s = "false" then some (.bool false) else none
  | .u64 => (parseUsize s.toList).map .u64
  | .format => (formatOf s).map .format
  | .grantType => (grantTypeOf s).map .grantType

abbrev Fields := List (String × FieldType)

def globalFields : Fields :=
  [("active_profile", .string), ("format", .format), ("no_color", .bool), ("timeout", .u64),
   ("page_limit", .u64), ("update_check", .bool), ("first_run_hint_seen", .bool)]

def profileFields : Fields :=
  [("base_url", .string), ("client_id", .string), ("namespace", .string),
   ("grant_type", .grantType)]

/-- The values of a struct's fields that are set. -/
abbrev Typed := List (String × Option FieldValue)

def Typed.field (config : Typed) (name : String) : Option FieldValue :=
  (Entries.lookup name config).join

def defaultTyped (fields : Fields) : Typed := fields.map fun e => (e.1, none)

/-- The struct's members: those of an object, or the items of a sequence as long as the struct. -/
def membersOf (fields : Fields) : Value → Option (List (String × Value))
  | .object members => some members
  | .array items =>
    if items.length = fields.length then some ((fields.map Prod.fst).zip items) else none
  | _ => none

def decodeFields (fields : Fields) (members : List (String × Value)) : Option Typed :=
  fields.mapM fun e => (decodeField e.2 (Entries.lookup e.1 members)).map fun v => (e.1, v)

def typedOf (fields : Fields) (v : Value) : Option Typed :=
  (membersOf fields v).bind (decodeFields fields)

end Fields

/-- The text of a config file by what is read from it: a JSON value, and the struct. A value may
be refused where the struct is not: in members that the struct skips. -/
structure FileText (fields : Fields) where
  value : Except String Value
  typed : Except String Typed
  coherent : ∀ v config, value = .ok v → typed = .ok config → typedOf fields v = some config

/-- The text of a value that was written. -/
def written (fields : Fields) (v : Value) : FileText fields where
  value := .ok v
  typed := match typedOf fields v with
    | some config => .ok config
    | none => .error "invalid type"
  coherent v' config hv hconfig := by
    cases hv
    cases htyped : typedOf fields v with
    | none =>
      rw [htyped] at hconfig
      cases hconfig
    | some loaded =>
      rw [htyped] at hconfig
      cases hconfig
      rfl

section Helpers

def valueToString : Value → Option String
  | .string s => some s
  | .bool b => some (if b then "true" else "false")
  | .number n => some n.render
  | .null => none
  | v => some v.render

/-- `parse_json_value`: the type a value's text looks like. -/
def parseJsonValue (value : String) : Value :=
  if value = "true" then .bool true
  else if value = "false" then .bool false
  else match parseUsize value.toList with
    | some n => .number (.int n)
    | none => .string value

/-- `object[json_name] = v`, which panics on what is neither an object nor null. -/
def setMember (v : Value) (jsonName : String) (member : Value) : Option Value :=
  match v with
  | .object members => some (.object (Entries.insert jsonName member members))
  | .null => some (.object [(jsonName, member)])
  | _ => none

def removeMember (v : Value) (jsonName : String) : Value :=
  match v with
  | .object members => .object (Entries.erase jsonName members)
  | _ => v

variable {fields : Fields}

def loadJsonValue (file : Option (FileText fields)) (label jsonName : String) :
    Except RuntimeError (Option String) :=
  match file with
  | none => .ok none
  | some text =>
    match text.value with
    | .error e => .error (.internal s!"Failed to parse {label}: {e}")
    | .ok v => .ok ((v.get? jsonName).bind valueToString)

/-- The value an update starts from: an empty object where there is none to read. -/
def updateBase (file : Option (FileText fields)) : Value :=
  match file with
  | none => .object []
  | some text =>
    match text.value with
    | .error _ => .object []
    | .ok v => v

def updateJsonFileField (file : Option (FileText fields)) (jsonName : String)
    (value : Option String) : Option (FileText fields) :=
  match value with
  | some value =>
    (setMember (updateBase file) jsonName (parseJsonValue value)).map (written fields)
  | none => some (written fields (removeMember (updateBase file) jsonName))

def loadStruct (file : Option (FileText fields)) (label : String) : Except RuntimeError Typed :=
  match file with
  | none => .ok (defaultTyped fields)
  | some text =>
    match text.typed with
    | .error e => .error (.internal s!"Failed to parse {label}: {e}")
    | .ok config => .ok config

end Helpers

end ConfigStore
