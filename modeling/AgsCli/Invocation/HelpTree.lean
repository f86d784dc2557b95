import AgsCli.Dispatch.SeparatorDrift
import AgsCli.Protocol.Catalogue
import AgsCli.Support.DisplayTextFacts

/-! # The help tree

`build_service_command_tree`: which operation a method shows, and the texts its command is given.
A slice that panics leaves no tree. -/
namespace HelpTree

open ByteSlices Casing CatalogueTypes DisplayText Strings
open String (utf8Len)
open SeparatorDrift (textBefore)

section Contracts

inductive ResolutionError
  | missingScope (command : String) (supported : List String)
  | unsupportedScope (command requested : String) (supported : List String)
  | unsupportedVersion (command requested scope : String) (supported : List Nat)
  deriving DecidableEq, Repr

structure ResolvedContract where
  scope : String
  apiVersion : Nat
  operation : OperationSchema

structure LeafSelectors where
  apiScope : Option String
  apiVersion : Option String

def versionText (version : Nat) : String := s!"v{version}"

def parseVersion (raw : String) : Option Nat :=
  parseU32 (((stripPrefix? "v" raw).or (stripPrefix? "V" raw)).getD raw).toList

def resolve (command : String) (method : MethodSchema)
    (explicitScope explicitVersion : Option String) :
    Except ResolutionError ResolvedContract :=
  let supportedScopes := method.scopes.map (·.scope)
  match explicitScope.or method.defaultScope with
  | none => .error (.missingScope command supportedScopes)
  | some scopeName =>
    match method.scopes.find? fun entry => entry.scope = scopeName with
    | none => .error (.unsupportedScope command scopeName supportedScopes)
    | some entry =>
      let unsupported := .unsupportedVersion command
        (explicitVersion.getD (versionText entry.defaultVersion)) scopeName
        (entry.contracts.map (·.apiVersion))
      let version := match explicitVersion with
        | some raw => parseVersion raw
        | none => some entry.defaultVersion
      match version.bind fun v => entry.contracts.find? fun c => c.apiVersion = v with
      | none => .error unsupported
      | some operation => .ok ⟨scopeName, operation.apiVersion, operation⟩

def latest : List OperationSchema → Option OperationSchema
  | [] => none
  | first :: rest =>
    some (rest.foldl (fun best c => if best.apiVersion ≤ c.apiVersion then c else best) first)

def fallbackDefaultContract (method : MethodSchema) : Option ResolvedContract := do
  let named := method.defaultScope.bind fun name =>
    method.scopes.find? fun entry => entry.scope = name
  let entry ← named.or method.scopes.head?
  let contract ← (entry.contracts.find? fun c => c.apiVersion = entry.defaultVersion).or
    (latest entry.contracts)
  return ⟨entry.scope, contract.apiVersion, contract⟩

def shownContract (command : String) (method : MethodSchema) (selectors : LeafSelectors) :
    Option ResolvedContract :=
  match resolve command method selectors.apiScope selectors.apiVersion with
  | .ok contract => some contract
  | .error _ => fallbackDefaultContract method

end Contracts

section Commands

structure Arg where
  name : String
  help : String

structure OperationCommand where
  name : String
  about : String
  longAbout : String
  args : List Arg

structure ResourceCommand where
  name : String
  about : String
  operations : List OperationCommand

structure ServiceCommand where
  name : String
  about : String
  resources : List ResourceCommand

def formatPermission (permission : String) : String :=
  let action := permission.toList.reverse.takeWhile (· ≠ '[')
  if action.length = permission.toList.length then s!"  {permission}"
  else
    let resource := permission.toList.take (permission.toList.length - action.length - 1)
    let action := trim (trimEndMatches ']' (String.ofList action.reverse))
    s!"  {action} on {trim (String.ofList resource)}"

variable (table : CaseTable)

def parameterArg (parameter : ParameterSchema) : Option Arg := do
  let description ← normalizeDescription table (parameter.description.getD "").toList
  let help :=
    if parameter.isFile then
      if parameter.required then "Required. Path to local file to upload."
      else "Path to local file to upload."
    else if parameter.required then
      String.ofList (trimEnd ("Required. ".toList ++ description))
    else String.ofList description
  return ⟨parameter.name, help⟩

def bodyText (operation : OperationSchema) : Option String :=
  let rawDescription := operation.description.getD ""
  if rawDescription = "" then some (capitalizeFirst table operation.summary)
  else do
    let normalized ← normalizeDescription table rawDescription.toList
    return String.ofList (← splitLongSentences table normalized)

def operationCommand (contract : ResolvedContract) : Option OperationCommand := do
  let operation := contract.operation
  let summary ← truncateSummary operation.summary.toList 80
  let body ← bodyText table operation
  let permissions :=
    if operation.permissions = [] then ""
    else "\n\nRequires permission:\n" ++ join "\n" (operation.permissions.map formatPermission)
  let longAbout := body ++ permissions
  let contractBlock := s!"Default contract:\n  scope:   {contract.scope}\n  version: " ++
    versionText contract.apiVersion
  let longAbout := if longAbout = "" then contractBlock else s!"{longAbout}\n\n{contractBlock}"
  let args ← operation.parameters.mapM (parameterArg table)
  return ⟨operation.name, String.ofList summary, longAbout, args⟩

variable (serviceName : String) (selectors : LeafSelectors)

def methodCommands (resource : ResourceSchema) (method : MethodSchema) :
    Option (List OperationCommand) :=
  match shownContract s!"ags {serviceName} {resource.name} {method.name}" method selectors with
  | some contract => (operationCommand table contract).map fun command => [command]
  | none => some []

def resourceCommand (resource : ResourceSchema) : Option ResourceCommand := do
  let operations ← resource.methods.mapM (methodCommands table serviceName selectors resource)
  return ⟨resource.name, resource.description, operations.flatten⟩

def buildServiceCommandTree (schema : ServiceSchema) : Option ServiceCommand := do
  let resources ← schema.resources.mapM (resourceCommand table serviceName selectors)
  return ⟨serviceName, schema.description, resources⟩

end Commands

section Safety

variable (table : CaseTable) (serviceName : String) (selectors : LeafSelectors)

/-- The tree is built, and its two rewriters of long texts keep every character but white space. -/
structure TextsSafe (schema : ServiceSchema) : Prop where
  built : (buildServiceCommandTree table serviceName selectors schema).isSome = true
  sentences : ∀ text, ∃ out, splitLongSentences table text = some out ∧ solid out = solid text
  spaces : ∀ line out, collapseSpaces line = some out → solid out = solid line

/-- A description whose "action code", if it has one, is not moved into a character by lower
casing. -/
def DescriptionAligned (description : String) : Prop :=
  ∀ flat, flatten description.toList = some flat → CodeAligned table flat

structure OperationAligned (operation : OperationSchema) : Prop where
  summary : utf8Len operation.summary.toList ≤ 80 ∨ Boundary 77 operation.summary.toList
  description : DescriptionAligned table (operation.description.getD "")
  parameters : ∀ p ∈ operation.parameters, DescriptionAligned table (p.description.getD "")

theorem descriptionAligned_empty : DescriptionAligned table "" := by
  intro flat hflat
  have hnil : flat = [] := by
    have hempty : flatten "".toList = some [] := by decide
    rw [hempty] at hflat
    exact (Option.some.inj hflat).symm
  rw [hnil]
  exact fun before h => (nomatch h)

theorem parameterArg_isSome (parameter : ParameterSchema) :
    (parameterArg table parameter).isSome = true ↔
      DescriptionAligned table (parameter.description.getD "") := by
  rw [DescriptionAligned, ← normalizeDescription_isSome]
  unfold parameterArg
  cases normalizeDescription table (parameter.description.getD "").toList <;> rfl

theorem bodyText_isSome (operation : OperationSchema) :
    (bodyText table operation).isSome = true ↔
      DescriptionAligned table (operation.description.getD "") := by
  unfold bodyText
  dsimp only
  split_ifs with hempty
  · rw [hempty]
    exact ⟨fun _ => descriptionAligned_empty table, fun _ => rfl⟩
  · rw [DescriptionAligned, ← normalizeDescription_isSome]
    cases normalizeDescription table (operation.description.getD "").toList with
    | none => rfl
    | some normalized =>
      obtain ⟨out, hout, -⟩ := splitLongSentences_spec table normalized
      simp only [Option.bind_eq_bind, Option.bind_some, hout]
      rfl

theorem operationCommand_isSome (contract : ResolvedContract) :
    (operationCommand table contract).isSome = true ↔
      OperationAligned table contract.operation := by
  have hargs := mapM_isSome (f := parameterArg table) (l := contract.operation.parameters)
  simp only [parameterArg_isSome] at hargs
  have hsummary := truncateSummary_isSome contract.operation.summary.toList
  have hbody := bodyText_isSome table contract.operation
  have hparts : (operationCommand table contract).isSome = true ↔
      (truncateSummary contract.operation.summary.toList 80).isSome = true ∧
        (bodyText table contract.operation).isSome = true ∧
          (contract.operation.parameters.mapM (parameterArg table)).isSome = true := by
    unfold operationCommand
    dsimp only
    cases truncateSummary contract.operation.summary.toList 80 with
    | none => simp
    | some summary =>
      cases bodyText table contract.operation with
      | none => simp
      | some body => cases contract.operation.parameters.mapM (parameterArg table) <;> simp
  rw [hparts, hsummary, hbody, hargs]
  exact ⟨fun h => ⟨h.1, h.2.1, h.2.2⟩, fun h => ⟨h.summary, h.description, h.parameters⟩⟩

/-- Building the tree is safe exactly when the texts it shows are aligned. -/
theorem buildServiceCommandTree_safe_iff (schema : ServiceSchema) :
    TextsSafe table serviceName selectors schema ↔
      ∀ resource ∈ schema.resources, ∀ method ∈ resource.methods, ∀ contract,
        shownContract s!"ags {serviceName} {resource.name} {method.name}" method selectors =
          some contract → OperationAligned table contract.operation := by
  have hmethod : ∀ resource : ResourceSchema, ∀ method : MethodSchema,
      (methodCommands table serviceName selectors resource method).isSome = true ↔
        ∀ contract, shownContract s!"ags {serviceName} {resource.name} {method.name}" method
          selectors = some contract → OperationAligned table contract.operation := by
    intro resource method
    unfold methodCommands
    cases shownContract s!"ags {serviceName} {resource.name} {method.name}" method selectors with
    | none => exact ⟨fun _ _ h => (nomatch h), fun _ => rfl⟩
    | some contract =>
      simp only [Option.isSome_map, operationCommand_isSome, Option.some.injEq, forall_eq']
  have hresource : ∀ resource : ResourceSchema,
      (resourceCommand table serviceName selectors resource).isSome = true ↔
        ∀ method ∈ resource.methods,
          (methodCommands table serviceName selectors resource method).isSome = true := by
    intro resource
    rw [← mapM_isSome]
    unfold resourceCommand
    cases resource.methods.mapM (methodCommands table serviceName selectors resource) <;> rfl
  have hbuilt : (buildServiceCommandTree table serviceName selectors schema).isSome = true ↔
      ∀ resource ∈ schema.resources,
        (resourceCommand table serviceName selectors resource).isSome = true := by
    rw [← mapM_isSome]
    unfold buildServiceCommandTree
    cases schema.resources.mapM (resourceCommand table serviceName selectors) <;> rfl
  simp only [hresource, hmethod] at hbuilt
  exact ⟨fun h => hbuilt.mp h.built, fun h => ⟨hbuilt.mpr h, splitLongSentences_spec table,
    fun _ _ => solid_collapseSpaces⟩⟩

/-- One operation whose summary has an accented character at byte 76. -/
def accentedSchema : ServiceSchema :=
  let summary := String.ofList (List.replicate 76 'a' ++ 'é' :: List.replicate 10 'a')
  { name := "iam", description := "", resources := [{
      name := "users", description := "", methods := [{
        name := "get", summary := "", defaultScope := some "admin", scopes := [{
          scope := "admin", defaultVersion := 3, contracts := [{
            id := "", name := "get", summary, description := none, mutationClass := .readOnly,
            httpMethod := .get, pathTemplate := "", parameters := [], requestBody := none,
            permissions := [], scope := "admin", apiVersion := 3, deprecated := false,
            responseContentType := none }] }] }] }] }

/-- The long summary is cut inside the accented character. -/
theorem accented_unaligned {operation : OperationSchema} (h : operation.summary =
    String.ofList (List.replicate 76 'a' ++ 'é' :: List.replicate 10 'a')) (scope : String) :
    operationCommand sampleTable ⟨scope, 3, operation⟩ = none := by
  have hnot : ¬ OperationAligned sampleTable operation := by
    rintro ⟨hsummary, -, -⟩
    rw [h, String.toList_ofList] at hsummary
    revert hsummary
    decide
  rw [← Option.not_isSome_iff_eq_none, operationCommand_isSome]
  exact hnot

theorem accented_summary_panics : ¬∀ (table : CaseTable) (serviceName : String)
    (selectors : LeafSelectors) (schema : ServiceSchema),
    TextsSafe table serviceName selectors schema := by
  intro h
  have hbuilt := (h sampleTable "iam" ⟨none, none⟩ accentedSchema).built
  simp only [buildServiceCommandTree, accentedSchema, List.mapM_cons, resourceCommand,
    methodCommands, shownContract, resolve] at hbuilt
  simp [accented_unaligned] at hbuilt

end Safety

end HelpTree
