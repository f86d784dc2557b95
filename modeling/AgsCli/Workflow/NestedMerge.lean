import AgsCli.Workflow.NestedPath

/-! # Nested merge

Writing a value into a JSON body at a parsed path, and reading it back. -/
namespace NestedMerge

open OrderedMap Json NestedPath

/-- An object's members; any other value is replaced by an empty object. -/
def membersOf : Value → List (String × Value)
  | .object members => members
  | _ => []

/-- An array's items; any other value is replaced by an empty array. -/
def itemsOf : Value → List Value
  | .array items => items
  | _ => []

def padTo (index : Nat) (items : List Value) : List Value :=
  items ++ List.replicate (index + 1 - items.length) .null

/-- `merge_nested_binding`: each key descends into an object and each index into an array,
creating or replacing what is there; the last segment writes the value. -/
def mergeNestedBinding (body : Value) : FieldPath → Value → Value
  | [], _ => body
  | [.key name], v => .object (Entries.insert name v (membersOf body))
  | .key name :: rest, v =>
    let child := (Entries.lookup name (membersOf body)).getD (.object [])
    .object (Entries.insert name (mergeNestedBinding child rest v) (membersOf body))
  | [.index index], v => .array ((padTo index (itemsOf body)).set index v)
  | .index index :: rest, v =>
    let items := padTo index (itemsOf body)
    let child := items.getD index .null
    .array (items.set index (mergeNestedBinding child rest v))

def readAt : Value → FieldPath → Option Value
  | v, [] => some v
  | v, .key name :: rest => (v.get? name).bind (readAt · rest)
  | v, .index index :: rest => (v.item? index).bind (readAt · rest)

end NestedMerge
