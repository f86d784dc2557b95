import AgsCli.Library.HashMaps
import AgsCli.Protocol.Json

/-! # OpenAPI 2.0 wire types

The part of a raw spec the catalogue parser reads. Its maps enumerate in no particular order. -/
namespace OpenApi

open Json HashMaps

structure SwaggerItemsRef where
  refPath : Option String
  schemaType : Option String

structure SwaggerSchemaRef where
  refPath : Option String
  schemaType : Option String
  items : Option SwaggerItemsRef

structure SwaggerParameter where
  name : String
  location : String
  isRequired : Bool
  parameterType : String
  description : String
  enumValues : Option (List String)
  schema : Option SwaggerSchemaRef
  default : Option Value

structure SwaggerOperation where
  isDeprecated : Bool
  summary : String
  description : String
  parameters : List SwaggerParameter
  xSecurity : Value
  xOperationId : Option String
  produces : List String

structure SwaggerProperty where
  propertyType : String
  description : String
  refPath : Option String
  items : Option SwaggerProperty
  enumValues : Option (List String)
  default : Option Value

structure SwaggerDefinition where
  properties : HashMap String SwaggerProperty
  required : List String

structure SwaggerSpec where
  paths : HashMap String (HashMap String SwaggerOperation)
  definitions : HashMap String SwaggerDefinition

end OpenApi
