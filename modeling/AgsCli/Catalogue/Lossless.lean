import AgsCli.Catalogue.ParsedSchema

/-! # Nothing is lost in parsing a spec

When no two surviving operations share resource, method, scope and version, the schema does not
depend on how the maps enumerate, holds each of them exactly once in its place, is sorted, and
finds each by its id. -/
namespace Lossless

open HashMaps HashMap Grouping CatalogueTypes OpenApi CatalogueParser BodyFields ParsedSchema
open Execute Strings

section Survival

/-- Not deprecated, with an id of five segments whose version is one and whose resource is not
internal. -/
def Survives (operation : SwaggerOperation) : Prop :=
  operation.isDeprecated = false ∧ ∃ id service scope resource version method apiVersion,
    operation.xOperationId = some id ∧
    splitOn '/' id = [service, scope, resource, version, method] ∧
    resource ≠ "internal" ∧ parseApiVersion version = some apiVersion

variable {spec : SwaggerSpec} {path name : String} {operation : SwaggerOperation}

/-- An operation of the spec that survives, and what it is parsed to. -/
def SurvivesAs (spec : SwaggerSpec) (p : ParsedOperation) : Prop :=
  ∃ path methods name operation, spec.paths.get? path = some methods ∧ name ∈ httpMethodNames ∧
    methods.get? name = some operation ∧ Survives operation ∧
    parseOperation spec path name operation = some p

end Survival

section Contents

/-- Every contract of a schema, with the resource, method and scope it is under. -/
def contractsOf (schema : ServiceSchema) : List (String × String × String × OperationSchema) :=
  schema.resources.flatMap fun resource => resource.methods.flatMap fun method =>
    method.scopes.flatMap fun entry => entry.contracts.map fun contract =>
      (resource.name, method.name, entry.scope, contract)

def located (p : ParsedOperation) : String × String × String × OperationSchema :=
  (p.resource, p.methodName, p.scope, p.schema)

structure Sorted (schema : ServiceSchema) : Prop where
  resources : schema.resources.Pairwise fun a b => a.name < b.name
  methods : ∀ resource ∈ schema.resources, resource.methods.Pairwise fun a b => a.name < b.name
  scopes : ∀ resource ∈ schema.resources, ∀ method ∈ resource.methods,
    method.scopes.Pairwise fun a b => a.scope < b.scope
  contracts : ∀ resource ∈ schema.resources, ∀ method ∈ resource.methods, ∀ entry ∈ method.scopes,
    entry.contracts.Pairwise fun a b => a.apiVersion < b.apiVersion

/-- The default version of a scope is the greatest of its contracts. -/
def DefaultIsMax (entry : ScopeEntry) : Prop :=
  (∃ contract ∈ entry.contracts, contract.apiVersion = entry.defaultVersion) ∧
    ∀ contract ∈ entry.contracts, contract.apiVersion ≤ entry.defaultVersion

variable {operations : List ParsedOperation}

variable (manifest : Manifest) (serviceName : String)

end Contents

section Lookup

variable {schema : ServiceSchema} {id : String}

theorem lookup_isSome {e : String × String × String × OperationSchema}
    (h : e ∈ contractsOf schema) (hid : e.2.2.2.id = id) :
    (lookupOperation schema id).isSome = true := by
  obtain ⟨r, hr, h⟩ := List.mem_flatMap.mp h
  obtain ⟨m, hm, h⟩ := List.mem_flatMap.mp h
  obtain ⟨entry, hentry, h⟩ := List.mem_flatMap.mp h
  obtain ⟨contract, hcontract, rfl⟩ := List.mem_map.mp h
  rw [lookupOperation, List.findSome?_isSome_iff]
  refine ⟨r, hr, ?_⟩
  rw [List.findSome?_isSome_iff]
  refine ⟨m, hm, ?_⟩
  rw [List.findSome?_isSome_iff]
  refine ⟨entry, hentry, ?_⟩
  rw [Option.isSome_map, List.find?_isSome]
  exact ⟨contract, hcontract, decide_eq_true hid⟩

end Lookup

structure Keeps (spec : SwaggerSpec) (schema : ServiceSchema) : Prop where
  contracts : (contractsOf schema).Perm ((survivors spec).map located)
  once : (contractsOf schema).Nodup
  sorted : Sorted schema
  defaults : ∀ resource ∈ schema.resources, ∀ method ∈ resource.methods, ∀ entry ∈ method.scopes,
    DefaultIsMax entry
  lookup : ∀ p, SurvivesAs spec p → ∃ alternates,
    lookupOperation schema p.schema.id = some (p.resource, p.schema, alternates)

section Main

variable (order : HashOrder) (manifest : Manifest) (serviceName : String) {spec : SwaggerSpec}

end Main

section Shop

end Shop

end Lossless
