import AgsCli.Protocol.Catalogue
import AgsCli.Support.Strings

/-! # Nested binding paths

The parser of binding fields (`data.items[0].id`) and the walk of a parsed path through an
operation's body schema. -/
namespace NestedPath

open Strings CatalogueTypes

inductive PathSegment
  | key (name : String)
  | index (n : Nat)
  deriving DecidableEq, Repr

abbrev FieldPath := List PathSegment

inductive FieldPathError
  | empty
  | unbalancedBrackets (path : String) (position : Nat)
  | invalidIndex (path : String) (position : Nat)
  | emptyKey (path : String) (position : Nat)
  deriving DecidableEq, Repr

def FieldPathError.message : FieldPathError → String
  | .empty => "Field path is empty"
  | .unbalancedBrackets path position =>
    s!"Field path '{path}' has unbalanced brackets at byte {position}"
  | .invalidIndex path position => s!"Field path '{path}' has invalid index at byte {position}"
  | .emptyKey path position => s!"Field path '{path}' has empty key segment at byte {position}"

inductive ScanMode
  | key
  | closed
  | index (bracketStart : Nat)
  deriving DecidableEq, Repr

def keySegment (run : List Char) : List PathSegment :=
  if run.isEmpty then [] else [.key (String.ofList run)]

/-- One pass over the characters: `position` is the byte offset of the next one and `run` what
was read since the last boundary. A dot right after a `]` is consumed with it. -/
def scan (path : String) : List Char → Nat → ScanMode → List Char → FieldPath →
    Except FieldPathError FieldPath
  | [], _, .index bracketStart, _, _ => .error (.unbalancedBrackets path bracketStart)
  | [], _, _, run, segments =>
    if path.toList.getLast? = some '.' then .error (.emptyKey path (path.utf8ByteSize - 1))
    else
      let segments := segments ++ keySegment run
      if segments.isEmpty then .error .empty else .ok segments
  | c :: rest, position, .index bracketStart, run, segments =>
    if c = ']' then
      match parseUsize run with
      | none => .error (.invalidIndex path (bracketStart + 1))
      | some n => scan path rest (position + 1) .closed [] (segments ++ [.index n])
    else scan path rest (position + c.utf8Size) (.index bracketStart) (run ++ [c]) segments
  | c :: rest, position, mode, run, segments =>
    if c = '.' then
      if mode = .closed then scan path rest (position + 1) .key [] segments
      else if run.isEmpty then .error (.emptyKey path position)
      else scan path rest (position + 1) .key [] (segments ++ [.key (String.ofList run)])
    else if c = '[' then
      scan path rest (position + 1) (.index position) [] (segments ++ keySegment run)
    else scan path rest (position + c.utf8Size) .key (run ++ [c]) segments

theorem scan_nil_eq (path : String) (position : Nat) {mode : ScanMode} (run : List Char)
    (segments : FieldPath) (h : ∀ start, mode ≠ .index start) :
    scan path [] position mode run segments =
      if path.toList.getLast? = some '.' then .error (.emptyKey path (path.utf8ByteSize - 1))
      else if (segments ++ keySegment run).isEmpty then .error .empty
      else .ok (segments ++ keySegment run) := by
  cases mode with
  | index start => exact absurd rfl (h start)
  | key | closed => rfl

theorem scan_cons_index (path : String) (c : Char) (rest : List Char)
    (position bracketStart : Nat) (run : List Char) (segments : FieldPath) :
    scan path (c :: rest) position (.index bracketStart) run segments =
      if c = ']' then
        match parseUsize run with
        | none => .error (.invalidIndex path (bracketStart + 1))
        | some n => scan path rest (position + 1) .closed [] (segments ++ [.index n])
      else scan path rest (position + c.utf8Size) (.index bracketStart) (run ++ [c]) segments := rfl

theorem scan_cons_closed (path : String) (c : Char) (rest : List Char) (position : Nat)
    (run : List Char) (segments : FieldPath) :
    scan path (c :: rest) position .closed run segments =
      if c = '.' then scan path rest (position + 1) .key [] segments
      else if c = '[' then
        scan path rest (position + 1) (.index position) [] (segments ++ keySegment run)
      else scan path rest (position + c.utf8Size) .key (run ++ [c]) segments := rfl

theorem scan_cons_key (path : String) (c : Char) (rest : List Char) (position : Nat)
    (run : List Char) (segments : FieldPath) :
    scan path (c :: rest) position .key run segments =
      if c = '.' then
        if run.isEmpty then .error (.emptyKey path position)
        else scan path rest (position + 1) .key [] (segments ++ [.key (String.ofList run)])
      else if c = '[' then
        scan path rest (position + 1) (.index position) [] (segments ++ keySegment run)
      else scan path rest (position + c.utf8Size) .key (run ++ [c]) segments := rfl

def parse (input : String) : Except FieldPathError FieldPath :=
  if input.toList.isEmpty then .error .empty else scan input input.toList 0 .key [] []

example : parse "data.items[0].id" =
    .ok [.key "data", .key "items", .index 0, .key "id"] := by decide

/-- `field.split(['.', '[']).next()`: the text before the first separator. -/
def rootName (field : String) : String :=
  String.ofList (field.toList.takeWhile fun c => c ≠ '.' && c ≠ '[')

def isNestedField (field : String) : Bool := field.toList.any fun c => c = '.' || c = '['

inductive PathResolution
  | schemaLeaf (field : BodyField)
  | structuralOnly

inductive PathResolveError
  | unknownSegment (parent segment : String)
  | segmentUnderNonObject (parent segment : String)
  deriving DecidableEq, Repr

def PathResolveError.message : PathResolveError → String
  | .unknownSegment parent segment => s!"Path segment '{segment}' not found under '{parent}'"
  | .segmentUnderNonObject parent segment =>
    s!"Path segment '{segment}' addresses a non-object field '{parent}'"

def BodyFieldType.isArray : BodyFieldType → Bool
  | .array _ => true
  | _ => false

def BodyFieldType.isReference : BodyFieldType → Bool
  | .reference _ => true
  | _ => false

def resolveSegments : FieldPath → List BodyField → String → Except PathResolveError PathResolution
  -- a parsed path has a segment, and its last one answers
  | [], _, _ => .ok .structuralOnly
  | .key name :: rest, currentFields, parentLabel =>
    match currentFields.find? (·.name = name) with
    | none => .error (.unknownSegment parentLabel name)
    | some field =>
      if rest.isEmpty then .ok (.schemaLeaf field)
      else if field.fieldType = .object && field.children.isEmpty then .ok .structuralOnly
      else if BodyFieldType.isReference field.fieldType then .ok .structuralOnly
      else if !(field.fieldType = .object || BodyFieldType.isArray field.fieldType) then
        .error (.segmentUnderNonObject parentLabel name)
      else resolveSegments rest field.children field.name
  | .index _ :: rest, currentFields, parentLabel =>
    if rest.isEmpty then .ok .structuralOnly
    else if currentFields.isEmpty then .ok .structuralOnly
    else resolveSegments rest currentFields parentLabel

def resolveAgainstSchema (path : FieldPath) (rootFields : List BodyField) :
    Except PathResolveError PathResolution :=
  resolveSegments path rootFields "<root>"

end NestedPath
