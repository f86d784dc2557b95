import AgsCli.Catalogue.OpenApi
import AgsCli.Library.Grouping
import AgsCli.Protocol.Catalogue
import AgsCli.Support.Strings
import Mathlib.Data.Finset.Basic
import Mathlib.Data.Prod.Lex

/-! # Catalogue parser

`parse_spec`: the operations of a spec that survive, accumulated by resource, method, scope and
version in hash maps and regrouped into a sorted schema. Debug assertions are off, as in a
release build. -/
namespace CatalogueParser

open Json HashMaps Grouping CatalogueTypes OpenApi Strings

/-- Text between the last `/` and the end. -/
def refShortName (refPath : String) : String :=
  String.ofList (refPath.toList.reverse.takeWhile (· ≠ '/')).reverse

def nonEmpty (s : String) : Option String := if s.isEmpty then none else some s

section Permissions

def strings? : List Value → Option (List String)
  | [] => some []
  | .string s :: rest => (strings? rest).map (s :: ·)
  | _ :: _ => none

def permissionList? : Value → Option (Option (List String))
  | .null => some none
  | .array items => (strings? items).map some
  | _ => none

/-- One `Item`: an object, or the sequence of its fields. -/
def permissionItem? : Value → Option (Option (List String))
  | .object members =>
    match Value.get? (.object members) "userPermissions" with
    | none => some none
    | some v => permissionList? v
  | .array [] => some none
  | .array [v] => permissionList? v
  | _ => none

def extractPermissions (xSecurity : Value) : List String :=
  match xSecurity with
  | .array items =>
    match items.mapM permissionItem? with
    | some parsed => (parsed.findSome? id).getD []
    | none => []
  | _ => []

end Permissions

section MutationClass

/-- The tokens between the last `[` and the first `]` after it. -/
def extractBracketedActions (permission : String) : List String :=
  let chars := permission.toList
  if chars.contains '[' then
    let inside := (chars.reverse.takeWhile (· ≠ '[')).reverse
    if inside.contains ']' then
      ((splitOn ',' (String.ofList (inside.takeWhile (· ≠ ']')))).map trim).filter (!·.isEmpty)
    else []
  else []

def classifyByPermissions (permissions : List String) : Option MutationClass :=
  let actions := permissions.flatMap extractBracketedActions
  if actions.isEmpty then none
  else if actions.any (· ≠ "READ") then some .mutating else some .readOnly

def readPrefixes : List String :=
  ["list", "get", "bulk-get", "search", "query", "export", "find", "fetch"]

def isReadOperationName (name : String) : Bool :=
  readPrefixes.any fun p => name = p || (p ++ "-").toList.isPrefixOf name.toList

def classifyMutationClass (method : HttpMethod) (name : String) (permissions : List String) :
    MutationClass :=
  if method = .get then .readOnly
  else if method ≠ .post then .mutating
  else match classifyByPermissions permissions with
    | some mutationClass => mutationClass
    | none => if isReadOperationName name then .readOnly else .mutating

end MutationClass

section Parameters

def parseHttpMethod (methodName : String) : Option HttpMethod :=
  match asciiUpper methodName with
  | "GET" => some .get
  | "POST" => some .post
  | "PUT" => some .put
  | "PATCH" => some .patch
  | "DELETE" => some .delete
  | _ => none

def parseParameterLocation : String → Option ParameterLocation
  | "path" => some .path
  | "query" => some .query
  | "header" => some .header
  | "body" => some .body
  | "formData" => some .formData
  | _ => none

def valueTypeFromParameter (typeName : String) (enumValues : Option (List String)) :
    Option ValueType :=
  match enumValues with
  | some values => some (.enum values)
  | none =>
    match typeName with
    | "string" => some .string
    | "integer" => some .integer
    | "number" => some .number
    | "boolean" => some .boolean
    | "array" => some (.array .string)
    | "file" => some .string
    | _ => none

def parseParameter (parameter : SwaggerParameter) : Option ParameterSchema := do
  let location ← parseParameterLocation parameter.location
  let valueType ← valueTypeFromParameter parameter.parameterType parameter.enumValues
  some { name := parameter.name, location, required := parameter.isRequired, valueType
         isFile := location = .formData && parameter.parameterType = "file"
         description := nonEmpty parameter.description, default := parameter.default }

def operationAt (spec : SwaggerSpec) (path httpMethod : String) : Option SwaggerOperation :=
  (spec.paths.get? path).bind fun item => item.get? (asciiLower httpMethod)

def getOperationParams (spec : SwaggerSpec) (path httpMethod : String) : List ParameterSchema :=
  match operationAt spec path httpMethod with
  | some operation =>
    (operation.parameters.filter (·.location ≠ "body")).filterMap parseParameter
  | none => []

end Parameters

section BodyFields

def scalarTypeFromSwagger : String → BodyFieldType
  | "string" => .string
  | "integer" => .integer
  | "boolean" => .boolean
  | "number" => .number
  | _ => .object

def computeFieldType (prop : SwaggerProperty) : BodyFieldType :=
  match prop.refPath with
  | some refPath => .reference (refShortName refPath)
  | none =>
    if prop.propertyType = "array" then
      .array (match prop.items with
        | some items =>
          match items.refPath with
          | some refPath => .reference (refShortName refPath)
          | none =>
            if items.propertyType.isEmpty then .object
            else scalarTypeFromSwagger items.propertyType
        | none => .object)
    else if prop.propertyType.isEmpty then .object
    else scalarTypeFromSwagger prop.propertyType

abbrev Visited := Finset String

/-- Expands a property: its children, whether they are an array's, and the set handed back. -/
abbrev Nested := SwaggerProperty → Visited → (List BodyField × Bool) × Visited

def bodyField (definition : SwaggerDefinition) (name : String) (prop : SwaggerProperty)
    (children : List BodyField) : BodyField :=
  { name
    fieldType := match prop.enumValues with
      | some values => .enum values
      | none => computeFieldType prop
    required := definition.required.contains name
    description := nonEmpty prop.description
    children, default := prop.default }

/-- The fields in the order of the properties, with the set threaded through. -/
def collectFields (nested : Nested) (definition : SwaggerDefinition) :
    List (String × SwaggerProperty) → Visited → List BodyField × Visited
  | [], visited => ([], visited)
  | (name, prop) :: rest, visited =>
    let ((children, _), visited) := nested prop visited
    let (fields, visited) := collectFields nested definition rest visited
    (bodyField definition name prop children :: fields, visited)

/-- Required first, then alphabetical. -/
def fieldOrder (field : BodyField) : Bool ×ₗ String := toLex (!field.required, field.name)

def resolveDefinitionFieldsRecursive (nested : Nested) (definition : SwaggerDefinition)
    (visited : Visited) : List BodyField × Visited :=
  let (fields, visited) := collectFields nested definition definition.properties.entries visited
  (sortBy fieldOrder fields, visited)

/-- What a reference to a definition expands to; `none` when there is no such definition. -/
def expandReference (spec : SwaggerSpec) (nested : Nested) (isArray : Bool) (refPath : String)
    (visited : Visited) : Option ((List BodyField × Bool) × Visited) :=
  let name := refShortName refPath
  if name ∈ visited then some (([], isArray), visited)
  else (spec.definitions.get? name).map fun definition =>
    let (children, visited) :=
      resolveDefinitionFieldsRecursive nested definition (insert name visited)
    ((children, isArray), visited.erase name)

/-- `resolve_nested`, by the levels left to the depth limit. -/
def resolveNested (spec : SwaggerSpec) : Nat → Nested
  | 0, _, visited => (([], false), visited)
  | left + 1, prop, visited =>
    match prop.refPath.bind fun refPath =>
        expandReference spec (resolveNested spec left) false refPath visited with
    | some found => found
    | none =>
      if prop.propertyType = "array" then
        match (prop.items.bind (·.refPath)).bind fun refPath =>
            expandReference spec (resolveNested spec left) true refPath visited with
        | some found => found
        | none => (([], false), visited)
      else (([], false), visited)

def maxDepth : Nat := 3

def resolveDefinitionFields (spec : SwaggerSpec) (definition : SwaggerDefinition) :
    List BodyField :=
  (resolveDefinitionFieldsRecursive (resolveNested spec maxDepth) definition ∅).1

def resolveObjectBody (spec : SwaggerSpec) (definitionName : String) (isArray : Bool) :
    Option BodySchema :=
  (spec.definitions.get? definitionName).bind fun definition =>
    let fields := resolveDefinitionFields spec definition
    if fields.isEmpty then none
    else some { definitionName, fields, isArray, itemType := none }

/-- An object, an array of objects or an array of scalars. -/
def resolveBodySchema (spec : SwaggerSpec) (path httpMethod : String) : Option BodySchema := do
  let operation ← operationAt spec path httpMethod
  let bodyParam ← operation.parameters.find? (·.location = "body")
  let schemaRef ← bodyParam.schema
  match schemaRef.refPath with
  | some refPath => resolveObjectBody spec (refShortName refPath) false
  | none =>
    if schemaRef.schemaType ≠ some "array" then none
    else
      let items ← schemaRef.items
      match items.refPath with
      | some refPath => resolveObjectBody spec (refShortName refPath) true
      | none =>
        let typeName ← items.schemaType
        let itemType := scalarTypeFromSwagger typeName
        if itemType = .object then none
        else some { definitionName := s!"array of {typeName}", fields := [], isArray := true
                    itemType := some itemType }

end BodyFields

section Operations

structure ParsedOperation where
  resource : String
  methodName : String
  scope : String
  apiVersion : Nat
  schema : OperationSchema

def parseApiVersion (s : String) : Option Nat :=
  match s.toList with
  | 'v' :: digits => parseU32 digits
  | digits => parseU32 digits

/-- The scope, resource, version and method of an id `service/scope/resource/version/method`. -/
def idSegments (xOperationId : String) : Option (String × String × String × String) :=
  match splitOn '/' xOperationId with
  | [_, scope, resource, version, method] => some (scope, resource, version, method)
  | _ => none

def parseOperation (spec : SwaggerSpec) (path httpMethodName : String)
    (operation : SwaggerOperation) : Option ParsedOperation := do
  let xOperationId ← operation.xOperationId.filter (!·.isEmpty)
  let (scope, resource, version, methodName) ← idSegments xOperationId
  if resource = "internal" then none
  else
    let apiVersion ← parseApiVersion version
    let httpMethodUpper := asciiUpper httpMethodName
    let httpMethod ← parseHttpMethod httpMethodUpper
    let permissions := extractPermissions operation.xSecurity
    some { resource, methodName, scope, apiVersion
           schema := {
             id := xOperationId, name := methodName, summary := trim operation.summary
             description := nonEmpty operation.description
             mutationClass := classifyMutationClass httpMethod methodName permissions
             httpMethod, pathTemplate := path
             parameters := getOperationParams spec path httpMethodUpper
             requestBody :=
               if operation.parameters.any (·.location = "body") then
                 resolveBodySchema spec path httpMethodUpper
               else none
             permissions, scope, apiVersion, deprecated := false
             responseContentType := operation.produces.head? } }

def httpMethodNames : List String := ["get", "post", "put", "patch", "delete"]

/-- The operations of one path that are kept, in the order of the methods. -/
def survivorsAt (spec : SwaggerSpec) (path : String) (methods : HashMap String SwaggerOperation) :
    List ParsedOperation :=
  httpMethodNames.filterMap fun httpMethodName =>
    match methods.get? httpMethodName with
    | none => none
    | some operation =>
      if operation.isDeprecated then none else parseOperation spec path httpMethodName operation

/-- The operations that survive, in the order the spec's paths are enumerated. -/
def survivors (spec : SwaggerSpec) : List ParsedOperation :=
  spec.paths.entries.flatMap fun e => survivorsAt spec e.1 e.2

end Operations

section Regrouping

variable (order : HashOrder)

end Regrouping

end CatalogueParser
