import AgsCli.Protocol.Catalogue
import AgsCli.Protocol.Workflow
import AgsCli.Library.Checks
import AgsCli.Workflow.NestedPath

/-! # Auto-derived step fields

JSON-schema fragments of operation fields, operation lookup, and the required fields of a step
that no binding covers. -/
namespace AutoDerive

open OrderedMap Json CatalogueTypes ProtocolError WorkflowTypes

def typeSchema (name : String) : Value := .ofPairs [("type", .string name)]

def enumSchema (values : List String) : Value :=
  .ofPairs [("type", .string "string"), ("enum", .array (values.map .string))]

def arraySchema (items : Value) : Value :=
  .ofPairs [("type", .string "array"), ("items", items)]

def valueTypeSchema : ValueType → Value
  | .string => typeSchema "string"
  | .integer => typeSchema "integer"
  | .number => typeSchema "number"
  | .boolean => typeSchema "boolean"
  | .array inner => arraySchema (valueTypeSchema inner)
  | .enum values => enumSchema values

def parameterSchema (param : ParameterSchema) : Value := valueTypeSchema param.valueType

def bodyFieldTypeSchema : BodyFieldType → Value
  | .string => typeSchema "string"
  | .integer => typeSchema "integer"
  | .number => typeSchema "number"
  | .boolean => typeSchema "boolean"
  | .enum values => enumSchema values
  | .array inner => arraySchema (bodyFieldTypeSchema inner)
  | .object => typeSchema "object"
  | .reference name => .ofPairs [("type", .string "object"), ("$ref", .string name)]

def withDescription (schema : Value) (description : Option String) : Value :=
  match schema, description with
  | .object members, some text => .object (Entries.insert "description" (.string text) members)
  | _, _ => schema

/-- `object_schema` from the children's own schemas, in order. -/
def objectSchemaOf (children : List BodyField) (schemas : List (String × Value)) : Value :=
  if children.isEmpty then typeSchema "object"
  else
    let required := (children.filter (·.required)).map (·.name)
    let properties := Value.ofPairs schemas
    if required.isEmpty then .ofPairs [("type", .string "object"), ("properties", properties)]
    else .ofPairs [("type", .string "object"), ("properties", properties),
      ("required", .array (required.map .string))]

mutual

def bodyFieldSchema : BodyField → Value
  | ⟨_, fieldType, _, _, children, _⟩ =>
    match fieldType with
    | .string => typeSchema "string"
    | .integer => typeSchema "integer"
    | .number => typeSchema "number"
    | .boolean => typeSchema "boolean"
    | .enum values => enumSchema values
    | .object | .reference _ => objectSchemaOf children (childSchemas children)
    | .array inner =>
      arraySchema (if children.isEmpty then bodyFieldTypeSchema inner
        else objectSchemaOf children (childSchemas children))

def childSchemas : List BodyField → List (String × Value)
  | [] => []
  | child :: rest =>
    (child.name, withDescription (bodyFieldSchema child) child.description) :: childSchemas rest

end

/-- Parameters first, then top-level body fields. -/
def operationFieldSchema (operation : OperationSchema) (name : String) : Option Value :=
  match operation.parameters.find? fun p => p.name = name && p.location ≠ .body with
  | some param => some (parameterSchema param)
  | none => (operation.bodyFields.find? (·.name = name)).map bodyFieldSchema

def findOperation (schema : ServiceSchema) (opId : String) : Option OperationSchema :=
  (schema.resources.flatMap (·.operations)).find? (·.id = opId)

def findOperationOrError (schema : ServiceSchema) (op : OperationReference) (context : String) :
    Except RuntimeError OperationSchema :=
  match findOperation schema op.operation with
  | some operation => .ok operation
  | none => .error (.internal
      s!"{context} references unknown operation '{op.service}.{op.operation}'")

/-- Every binding covers its field, and a nested one also its root field. -/
def boundFields (inputs : List StepInputBinding) : List String :=
  inputs.flatMap fun b =>
    let root := NestedPath.rootName b.field
    if root ≠ b.field then [b.field, root] else [b.field]

def scopeOf (workflowInputs : List WorkflowInputSpec) (name : String) : AutoDeriveScope :=
  if (workflowInputs.map (·.name)).contains name then .workflowInput name else .stepLocal name

def locationOf : ParameterLocation → StepFieldLocation
  | .path => .path
  | .query => .query
  | .header => .header
  | .formData => .formData
  | .body => .body

def derivedParameter (workflowInputs : List WorkflowInputSpec) (param : ParameterSchema) :
    AutoDerivedField :=
  { field := param.name
    schema := parameterSchema param
    required := true
    sensitive := false
    description := param.description
    scope := scopeOf workflowInputs param.name
    location := locationOf param.location }

def derivedBodyField (workflowInputs : List WorkflowInputSpec) (field : BodyField) :
    AutoDerivedField :=
  { field := field.name
    schema := bodyFieldSchema field
    required := true
    sensitive := false
    description := field.description
    scope := scopeOf workflowInputs field.name
    location := .body }

/-- `auto_derive_step`: the required parameters and body fields no binding covers. -/
def autoDeriveStep (step : StepDefinition) (serviceSchema : ServiceSchema)
    (workflowInputs : List WorkflowInputSpec) : Except RuntimeError (List AutoDerivedField) := do
  let opRef ← match step.operation with
    | some opRef => .ok opRef
    | none => .error (.internal
        s!"step '{step.id}': API step reached auto_derive_step without an operation")
  let operation ← findOperationOrError serviceSchema opRef s!"step '{step.id}'"
  let bound := boundFields step.inputs
  let params := operation.requiredParameters.filter fun p => !bound.contains p.name
  let fields := operation.requiredBodyFields.filter fun f => !bound.contains f.name
  .ok (params.map (derivedParameter workflowInputs) ++ fields.map (derivedBodyField workflowInputs))

end AutoDerive
