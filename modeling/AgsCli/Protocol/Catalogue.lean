import AgsCli.Protocol.Json
import AgsCli.Protocol.Error

/-! # Catalogue types

A service schema: its resources, their methods by scope and version, and the operations with
their parameters and body fields. -/
namespace CatalogueTypes

open Json ProtocolError

inductive HttpMethod
  | get
  | post
  | put
  | patch
  | delete
  deriving DecidableEq, Repr

def HttpMethod.asStr : HttpMethod → String
  | .get => "GET"
  | .post => "POST"
  | .put => "PUT"
  | .patch => "PATCH"
  | .delete => "DELETE"

inductive MutationClass
  | readOnly
  | mutating
  | diagnostic
  deriving DecidableEq, Repr

inductive ParameterLocation
  | path
  | query
  | header
  | body
  | formData
  deriving DecidableEq, Repr

inductive ValueType
  | string
  | integer
  | boolean
  | number
  | enum (values : List String)
  | array (inner : ValueType)
  deriving DecidableEq, Repr

inductive BodyFieldType
  | string
  | integer
  | boolean
  | number
  | enum (values : List String)
  | array (inner : BodyFieldType)
  | object
  | reference (name : String)
  deriving DecidableEq, Repr

structure ParameterSchema where
  name : String
  location : ParameterLocation
  required : Bool
  valueType : ValueType
  isFile : Bool
  description : Option String
  default : Option Value
  deriving DecidableEq

structure BodyField where
  name : String
  fieldType : BodyFieldType
  required : Bool
  description : Option String
  children : List BodyField
  default : Option Value

structure BodySchema where
  definitionName : String
  fields : List BodyField
  isArray : Bool
  itemType : Option BodyFieldType

structure OperationSchema where
  id : String
  name : String
  summary : String
  description : Option String
  mutationClass : MutationClass
  httpMethod : HttpMethod
  pathTemplate : String
  parameters : List ParameterSchema
  requestBody : Option BodySchema
  permissions : List String
  scope : String
  apiVersion : Nat
  deprecated : Bool
  responseContentType : Option String

structure ScopeEntry where
  scope : String
  defaultVersion : Nat
  contracts : List OperationSchema

structure MethodSchema where
  name : String
  summary : String
  defaultScope : Option String
  scopes : List ScopeEntry

structure ResourceSchema where
  name : String
  description : String
  methods : List MethodSchema

structure ServiceSchema where
  name : String
  description : String
  resources : List ResourceSchema

structure Catalogue where
  getOrLoad : String → Except RuntimeError ServiceSchema

/-- Every operation across all methods, scopes and versions. -/
def ResourceSchema.operations (resource : ResourceSchema) : List OperationSchema :=
  (resource.methods.flatMap (·.scopes)).flatMap (·.contracts)

def OperationSchema.requiredParameters (operation : OperationSchema) : List ParameterSchema :=
  operation.parameters.filter fun p => p.required && p.location ≠ .body

/-- The declared top-level body fields; none without a body. -/
def OperationSchema.bodyFields (operation : OperationSchema) : List BodyField :=
  match operation.requestBody with
  | some body => body.fields
  | none => []

def OperationSchema.requiredBodyFields (operation : OperationSchema) : List BodyField :=
  operation.bodyFields.filter (·.required)

end CatalogueTypes
