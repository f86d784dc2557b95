import AgsCli.Library.OrderedMap
import Mathlib.Data.String.Basic

/-! # JSON values

The value type the workflow engine computes with. Objects are entry lists accessed through
the ordered-map operations; a float is kept by its rendered text. -/
namespace Json

open OrderedMap

/-- `PosInt`/`NegInt` by their integer value, `Float` by its shortest rendering. -/
inductive Number
  | int (n : Int)
  | float (text : String)
  deriving DecidableEq, Repr

inductive Value
  | null
  | bool (b : Bool)
  | number (n : Number)
  | string (s : String)
  | array (items : List Value)
  | object (members : List (String × Value))
  deriving Inhabited

namespace Value

mutual

def decEq : (v w : Value) → Decidable (v = w)
  | .null, .null => isTrue rfl
  | .bool a, .bool b => decidable_of_iff (a = b) (by simp)
  | .number a, .number b => decidable_of_iff (a = b) (by simp)
  | .string a, .string b => decidable_of_iff (a = b) (by simp)
  | .array xs, .array ys =>
    match decEqItems xs ys with
    | isTrue h => isTrue (by rw [h])
    | isFalse h => isFalse (by simpa using h)
  | .object xs, .object ys =>
    match decEqMembers xs ys with
    | isTrue h => isTrue (by rw [h])
    | isFalse h => isFalse (by simpa using h)
  | .null, .bool _ | .null, .number _ | .null, .string _ | .null, .array _ | .null, .object _
  | .bool _, .null | .bool _, .number _ | .bool _, .string _ | .bool _, .array _
  | .bool _, .object _ | .number _, .null | .number _, .bool _ | .number _, .string _
  | .number _, .array _ | .number _, .object _ | .string _, .null | .string _, .bool _
  | .string _, .number _ | .string _, .array _ | .string _, .object _ | .array _, .null
  | .array _, .bool _ | .array _, .number _ | .array _, .string _ | .array _, .object _
  | .object _, .null | .object _, .bool _ | .object _, .number _ | .object _, .string _
  | .object _, .array _ => isFalse (by simp)

def decEqItems : (xs ys : List Value) → Decidable (xs = ys)
  | [], [] => isTrue rfl
  | [], _ :: _ | _ :: _, [] => isFalse (by simp)
  | x :: xs, y :: ys =>
    match decEq x y, decEqItems xs ys with
    | isTrue h, isTrue t => isTrue (by rw [h, t])
    | isFalse h, _ => isFalse (by simp [h])
    | _, isFalse t => isFalse (by simp [t])

def decEqMembers : (xs ys : List (String × Value)) → Decidable (xs = ys)
  | [], [] => isTrue rfl
  | [], _ :: _ | _ :: _, [] => isFalse (by simp)
  | (k, x) :: xs, (l, y) :: ys =>
    match decEq x y, decEqMembers xs ys with
    | isTrue h, isTrue t => decidable_of_iff (k = l) (by simp [h, t])
    | isFalse h, _ => isFalse (by simp [h])
    | _, isFalse t => isFalse (by simp [t])

end

instance : DecidableEq Value := decEq

/-- `Value::get` with a string: a member of an object, nothing of any other value. -/
def get? (v : Value) (key : String) : Option Value :=
  match v with
  | .object members => Entries.lookup key members
  | _ => none

/-- `Value::get` with a position: an item of an array, nothing of any other value. -/
def item? (v : Value) (index : Nat) : Option Value :=
  match v with
  | .array items => items[index]?
  | _ => none

def asStr? : Value → Option String
  | .string s => some s
  | _ => none

/-- `Value::as_i64`: only an integer that fits in 64 signed bits. -/
def asI64? : Value → Option Int
  | .number (.int n) => if -2 ^ 63 ≤ n ∧ n < 2 ^ 63 then some n else none
  | _ => none

def asObject? : Value → Option (List (String × Value))
  | .object members => some members
  | _ => none

def isNull : Value → Bool
  | .null => true
  | _ => false

def isBoolean : Value → Bool
  | .bool _ => true
  | _ => false

def isString : Value → Bool
  | .string _ => true
  | _ => false

def isNumber : Value → Bool
  | .number _ => true
  | _ => false

def isInteger : Value → Bool
  | .number (.int _) => true
  | _ => false

def isArray : Value → Bool
  | .array _ => true
  | _ => false

def isObject : Value → Bool
  | .object _ => true
  | _ => false

def ofPairs (pairs : List (String × Value)) : Value :=
  .object (pairs.foldl (fun acc e => Entries.insert e.1 e.2 acc) [])

end Value

def hexDigit (n : Nat) : Char := if n < 10 then Char.ofNat (48 + n) else Char.ofNat (87 + n)

def escapeChar (c : Char) : List Char :=
  if c = '"' then ['\\', '"']
  else if c = '\\' then ['\\', '\\']
  else if c.toNat = 8 then ['\\', 'b']
  else if c.toNat = 9 then ['\\', 't']
  else if c.toNat = 10 then ['\\', 'n']
  else if c.toNat = 12 then ['\\', 'f']
  else if c.toNat = 13 then ['\\', 'r']
  else if c.toNat < 32 then ['\\', 'u', '0', '0', hexDigit (c.toNat / 16), hexDigit (c.toNat % 16)]
  else [c]

def renderString (s : String) : String :=
  "\"" ++ String.ofList (s.toList.flatMap escapeChar) ++ "\""

def Number.render : Number → String
  | .int n => toString n
  | .float text => text

mutual

def Value.render : Value → String
  | .null => "null"
  | .bool b => if b then "true" else "false"
  | .number n => n.render
  | .string s => renderString s
  | .array items => "[" ++ renderItems items ++ "]"
  | .object members => "\x7b" ++ renderMembers members ++ "\x7d"

def renderItems : List Value → String
  | [] => ""
  | [v] => v.render
  | v :: w :: rest => v.render ++ "," ++ renderItems (w :: rest)

def renderMembers : List (String × Value) → String
  | [] => ""
  | [(k, v)] => renderString k ++ ":" ++ v.render
  | (k, v) :: e :: rest => renderString k ++ ":" ++ v.render ++ "," ++ renderMembers (e :: rest)

end

example : (Value.ofPairs [("b", .array [.bool true, .null]), ("a", .number (.int 3))]).render =
    "\x7b\"a\":3,\"b\":[true,null]\x7d" := by decide

end Json
