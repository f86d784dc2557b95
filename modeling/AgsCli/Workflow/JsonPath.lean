import AgsCli.Protocol.Json
import AgsCli.Support.Strings

/-! # JSONPath subset

Evaluation of `$`, `$.field`, `$[N]` chains, and the validator of such expressions. -/
namespace JsonPath

open Json Strings

inductive ScanMode
  | start
  | field
  | index
  deriving DecidableEq, Repr

/-- The rest of an expression after `$`, applied to `cursor`; `run` is the name or index being
read. -/
def evaluate : List Char → ScanMode → List Char → Value → Option Value
  | [], .start, _, cursor => some cursor
  | [], .field, run, cursor => if run.isEmpty then none else cursor.get? (String.ofList run)
  | [], .index, _, _ => none
  | c :: rest, .start, _, cursor =>
    if c = '.' then evaluate rest .field [] cursor
    else if c = '[' then evaluate rest .index [] cursor
    else none
  | c :: rest, .field, run, cursor =>
    if c = '.' then
      if run.isEmpty then none
      else (cursor.get? (String.ofList run)).bind (evaluate rest .field [])
    else if c = '[' then
      if run.isEmpty then none
      else (cursor.get? (String.ofList run)).bind (evaluate rest .index [])
    else evaluate rest .field (run ++ [c]) cursor
  | c :: rest, .index, run, cursor =>
    if c = ']' then
      match parseUsize run with
      | none => none
      | some index => (cursor.item? index).bind (evaluate rest .start [])
    else evaluate rest .index (run ++ [c]) cursor

section Equations

variable (c : Char) (rest run : List Char) (cursor : Value)

theorem evaluate_start : evaluate (c :: rest) .start run cursor =
    if c = '.' then evaluate rest .field [] cursor
    else if c = '[' then evaluate rest .index [] cursor else none := rfl

theorem evaluate_field : evaluate (c :: rest) .field run cursor =
    if c = '.' then
      if run.isEmpty then none
      else (cursor.get? (String.ofList run)).bind (evaluate rest .field [])
    else if c = '[' then
      if run.isEmpty then none
      else (cursor.get? (String.ofList run)).bind (evaluate rest .index [])
    else evaluate rest .field (run ++ [c]) cursor := rfl

theorem evaluate_index : evaluate (c :: rest) .index run cursor =
    if c = ']' then
      match parseUsize run with
      | none => none
      | some index => (cursor.item? index).bind (evaluate rest .start [])
    else evaluate rest .index (run ++ [c]) cursor := rfl

end Equations

def applyJsonpathSubset (value : Value) (expression : String) : Option Value :=
  match expression.toList with
  | '$' :: rest => evaluate rest .start [] value
  | _ => none

def plainName (run : List Char) : Bool :=
  !run.isEmpty && run.all fun c => !(c = '*' || c = '?' || c = '@' || c = '$')

def accepts : List Char → ScanMode → List Char → Bool
  | [], .start, _ => true
  | [], .field, run => plainName run
  | [], .index, _ => false
  | c :: rest, .start, _ =>
    if c = '.' then accepts rest .field []
    else if c = '[' then accepts rest .index []
    else false
  | c :: rest, .field, run =>
    if c = '.' then plainName run && accepts rest .field []
    else if c = '[' then plainName run && accepts rest .index []
    else accepts rest .field (run ++ [c])
  | c :: rest, .index, run =>
    if c = ']' then (parseUsize run).isSome && accepts rest .start []
    else accepts rest .index (run ++ [c])

section Equations

variable (c : Char) (rest run : List Char)

theorem accepts_start : accepts (c :: rest) .start run =
    if c = '.' then accepts rest .field [] else if c = '[' then accepts rest .index [] else false :=
  rfl

theorem accepts_field : accepts (c :: rest) .field run =
    if c = '.' then plainName run && accepts rest .field []
    else if c = '[' then plainName run && accepts rest .index []
    else accepts rest .field (run ++ [c]) := rfl

theorem accepts_index : accepts (c :: rest) .index run =
    if c = ']' then (parseUsize run).isSome && accepts rest .start []
    else accepts rest .index (run ++ [c]) := rfl

end Equations

def jsonpathIsValid (expression : String) : Bool :=
  match expression.toList with
  | '$' :: rest => accepts rest .start []
  | _ => false

example : applyJsonpathSubset
    (.ofPairs [("a", .array [.null, .ofPairs [("id", .string "x")]])]) "$.a[1].id" =
      some (.string "x") := by decide

end JsonPath
