import AgsCli.Dispatch.Execute
import AgsCli.Workflow.Assemble
import AgsCli.Workflow.ScriptedHost

/-! # Parameters on the wire

What of an assembled request is in the HTTP request that is sent: its path parameters, where the
placeholders of the template keep apart, its query, and none of its header parameters. -/
namespace WireParameters

open OrderedMap Json CatalogueTypes ProtocolError WorkflowTypes RequestTypes Http PathTemplate
  WorkflowContext Resolve Assemble Execute

def paramsAt (request : CommandRequest) : ParameterLocation → BTreeMap String String
  | .path => request.pathParams
  | .query => request.queryParams
  | .header => request.headerParams
  | .body | .formData => .empty

/-- The request has every non-body parameter the resolver has a value for, and those the
operation requires. -/
def Accepted (operation : OperationSchema) (scope : StepScope) (request : CommandRequest) : Prop :=
  ∀ param ∈ operation.parameters, isNonBody param = true →
    (∀ v, resolveFieldValue scope param.name = .ok (some v) →
      (paramsAt request param.location).get? param.name = some (jsonToParamString v)) ∧
    (param.required = true → ((paramsAt request param.location).get? param.name).isSome = true)

structure Carries (w : WordClass) (baseUrl : String) (operation : OperationSchema)
    (request : CommandRequest) (http : HttpRequest) : Prop where
  path : http.url =
    trimEndSlashes baseUrl ++ filledPath w operation.pathTemplate request.pathParams
  query : ∀ e ∈ request.queryParams.entries, e ∈ http.query
  header : ∀ e ∈ request.headerParams.entries, e ∈ http.headers

def nonAuth (headers : List (String × String)) : List (String × String) :=
  headers.filter (·.1 ≠ "Authorization")

/-- The dry run reports what is sent, but for the token. -/
def Reported (w : WordClass) (runtime : Runtime) (request : CommandRequest)
    (http : HttpRequest) : Prop :=
  ∃ report, dryRunCommand w runtime request = .ok report ∧ report.url = http.url ∧
    report.query = http.query ∧ nonAuth report.headers = nonAuth http.headers ∧
    report.body = http.body

/-- The only header there is is the token's. -/
def HeadersCarried (token : String) (request : CommandRequest) : Prop :=
  ∀ e ∈ request.headerParams.entries, e = ("Authorization", bearer token)

instance (token : String) (request : CommandRequest) : Decidable (HeadersCarried token request) :=
  inferInstanceAs (Decidable (∀ e ∈ _, _))

section Assembled

variable {step : CompiledStep} {scope : StepScope}

def locate (params : NonBodyParams) : ParameterLocation → BTreeMap String String
  | .path => params.path
  | .query => params.query
  | .header => params.header
  | .body | .formData => .empty

theorem locate_put (params : NonBodyParams) {param : ParameterSchema} (value key : String)
    (h : isNonBody param = true) (other : ParameterLocation) :
    (locate (params.put param.location param.name value) other).get? key =
      if other = param.location ∧ key = param.name then some value
      else (locate params other).get? key := by
  obtain ⟨name, location, required, valueType, isFile, description, default⟩ := param
  cases location with
  | body => cases h
  | formData => cases h
  | path => cases other <;> simp [locate, NonBodyParams.put, BTreeMap.get?_insert]
  | query => cases other <;> simp [locate, NonBodyParams.put, BTreeMap.get?_insert]
  | header => cases other <;> simp [locate, NonBodyParams.put, BTreeMap.get?_insert]

/-- Every entry is a value the resolver has for its name. -/
def Resolved (scope : StepScope) (params : NonBodyParams) : Prop :=
  ∀ location name x, (locate params location).get? name = some x →
    ∃ v, resolveFieldValue scope name = .ok (some v) ∧ x = jsonToParamString v

def Has (params : NonBodyParams) (location : ParameterLocation) (name : String) : Prop :=
  ((locate params location).get? name).isSome = true

structure CollectedFrom (scope : StepScope) (parameters : List ParameterSchema)
    (params final : NonBodyParams) : Prop where
  resolved : Resolved scope final
  kept : ∀ location name, Has params location name → Has final location name
  declared : ∀ location name, Has final location name → Has params location name ∨
    ∃ param ∈ parameters, isNonBody param = true ∧ param.name = name
  collected : ∀ param ∈ parameters, isNonBody param = true →
    (param.required = true ∨ ∃ v, resolveFieldValue scope param.name = .ok (some v)) →
    Has final param.location param.name

theorem collectParams_collects {parameters : List ParameterSchema} {params final : NonBodyParams}
    (h : collectParams step scope parameters params = .ok final) (hresolved : Resolved scope params) :
    CollectedFrom scope parameters params final := by
  induction parameters generalizing params with
  | nil =>
    cases Except.ok.inj h
    exact ⟨hresolved, fun _ _ hhas => hhas, fun _ _ => Or.inl,
      fun _ hmem => absurd hmem List.not_mem_nil⟩
  | cons param rest ih =>
    have hlater : ∀ name, (∃ other ∈ rest, isNonBody other = true ∧ other.name = name) →
        ∃ other ∈ param :: rest, isNonBody other = true ∧ other.name = name :=
      fun _ ⟨other, hmem, hother⟩ => ⟨other, List.mem_cons_of_mem _ hmem, hother⟩
    rw [collectParams] at h
    by_cases hbody : isNonBody param = true
    · rw [hbody, Bool.not_true, if_neg Bool.false_ne_true] at h
      cases hvalue : resolveFieldValue scope param.name with
      | error e =>
        rw [hvalue] at h
        cases h
      | ok value =>
        rw [hvalue] at h
        cases value with
        | none =>
          simp only at h
          split_ifs at h with hrequired
          obtain ⟨hfinal, hkept, hdeclared, hcollected⟩ := ih h hresolved
          refine ⟨hfinal, hkept, fun l n hhas => (hdeclared l n hhas).imp_right (hlater n), ?_⟩
          intro other hmem hother hneeded
          rcases List.mem_cons.mp hmem with rfl | hmem
          · rcases hneeded with hneeded | ⟨v, hv⟩
            · exact absurd hneeded hrequired
            · rw [hvalue] at hv
              cases hv
          · exact hcollected other hmem hother hneeded
        | some v =>
          have hput := locate_put params (jsonToParamString v) (h := hbody)
          obtain ⟨hfinal, hkept, hdeclared, hcollected⟩ := ih h (by
            intro location name x hx
            rw [hput] at hx
            split_ifs at hx with heq
            · exact ⟨v, heq.2 ▸ hvalue, (Option.some.inj hx).symm⟩
            · exact hresolved location name x hx)
          have hhas : Has final param.location param.name := hkept _ _ (by
            rw [Has, hput, if_pos ⟨rfl, rfl⟩]
            rfl)
          refine ⟨hfinal, ?_, ?_, ?_⟩
          · intro location name hold
            refine hkept location name ?_
            rw [Has, hput]
            split_ifs
            · rfl
            · exact hold
          · intro location name hhas
            rcases hdeclared location name hhas with hold | hrest
            · rw [Has, hput] at hold
              split_ifs at hold with heq
              · exact Or.inr ⟨param, List.mem_cons_self, hbody, heq.2.symm⟩
              · exact Or.inl hold
            · exact Or.inr (hlater name hrest)
          · intro other hmem hother hneeded
            rcases List.mem_cons.mp hmem with rfl | hmem
            · exact hhas
            · exact hcollected other hmem hother hneeded
    · rw [Bool.not_eq_true] at hbody
      rw [hbody, Bool.not_false, if_pos rfl] at h
      obtain ⟨hfinal, hkept, hdeclared, hcollected⟩ := ih h hresolved
      refine ⟨hfinal, hkept, fun l n hhas => (hdeclared l n hhas).imp_right (hlater n), ?_⟩
      intro other hmem hother hneeded
      rcases List.mem_cons.mp hmem with rfl | hmem
      · rw [hbody] at hother
        cases hother
      · exact hcollected other hmem hother hneeded

theorem resolved_empty (scope : StepScope) : Resolved scope .empty := by
  intro location name x hx
  cases location <;> cases hx

/-- The dispatch looks up the operation the resolver read. -/
theorem lookupOperation_operation (schema : ServiceSchema) (id : String) :
    (lookupOperation schema id).map (·.2.1) = AutoDerive.findOperation schema id := by
  unfold lookupOperation AutoDerive.findOperation
  rw [List.find?_flatMap, List.map_findSome?]
  refine congrArg (fun f => List.findSome? f schema.resources) (funext fun resource => ?_)
  rw [ResourceSchema.operations, List.flatMap_assoc, List.find?_flatMap, Function.comp_apply,
    List.map_findSome?]
  refine congrArg (fun f => List.findSome? f resource.methods) (funext fun method => ?_)
  rw [List.find?_flatMap, Function.comp_apply, List.map_findSome?]
  refine congrArg (fun f => List.findSome? f method.scopes) (funext fun entry => ?_)
  rw [Function.comp_apply, Option.map_map]
  cases entry.contracts.find? (·.id = id) with
  | none => rfl
  | some contract => rfl

variable {files : String → FileStatus} {ctx : Context} {supplied stepLocal : Values}
  {specs : List WorkflowInputSpec} {schema : ServiceSchema} {«namespace» : Option String}
  {options : RunOptions} {request : CommandRequest} {operation : OperationSchema}

structure AssembledFrom (files : String → FileStatus) (operation : OperationSchema)
    (step : CompiledStep) (scope : StepScope) (options : RunOptions) (params : NonBodyParams)
    (parts : List FormPart) (request : CommandRequest) : Prop where
  resolved : resolveNonBodyParams operation step scope = .ok params
  collected : collectFormParts files step scope operation.parameters = .ok parts
  placed : ∀ location, paramsAt request location = locate params location
  body : if parts.isEmpty then ∃ json, assembleBody operation step scope options = .ok json ∧
      request.body = json.map .json else request.body = some (.multipart parts)

theorem assembled_parts
    (h : assembleCommandRequest files step ctx supplied stepLocal specs schema «namespace» options =
      .ok request) : ∃ opRef found params parts,
      step.operation = some opRef ∧
      AutoDerive.findOperationOrError schema opRef s!"step '{step.id}'" = .ok found ∧
      request.operationId = opRef.operation ∧
      AssembledFrom files found step (stepScope step ctx supplied stepLocal specs) options params
        parts request := by
  unfold assembleCommandRequest at h
  cases hstep : step.operation with
  | none =>
    rw [hstep] at h
    cases h
  | some opRef =>
    rw [hstep] at h
    obtain ⟨_, hreference, h⟩ := Checks.bind_eq_ok.mp h
    obtain rfl := Except.ok.inj hreference
    obtain ⟨found, hfound, h⟩ := Checks.bind_eq_ok.mp h
    obtain ⟨params, hparams, h⟩ := Checks.bind_eq_ok.mp h
    obtain ⟨formParts, hform, h⟩ := Checks.bind_eq_ok.mp h
    obtain ⟨parts, hparts, hform⟩ := Checks.bind_eq_ok.mp hform
    obtain rfl := Except.ok.inj hform
    refine ⟨opRef, found, params, parts, rfl, hfound, ?_⟩
    cases hempty : parts.isEmpty with
    | true =>
      rw [hempty] at h
      obtain ⟨json, hjson, h⟩ := Checks.bind_eq_ok.mp h
      obtain rfl := Except.ok.inj h
      refine ⟨rfl, hparams, hparts, fun location => by cases location <;> rfl, ?_⟩
      rw [hempty]
      exact ⟨json, hjson, rfl⟩
    | false =>
      rw [hempty] at h
      obtain rfl := Except.ok.inj h
      refine ⟨rfl, hparams, hparts, fun location => by cases location <;> rfl, ?_⟩
      rw [hempty]
      rfl

theorem accepted_of_assembled
    (h : assembleCommandRequest files step ctx supplied stepLocal specs schema «namespace» options =
      .ok request) (hop : AutoDerive.findOperation schema request.operationId = some operation) :
    Accepted operation (stepScope step ctx supplied stepLocal specs) request := by
  obtain ⟨opRef, found, params, parts, -, hfound, hid, hfrom⟩ := assembled_parts h
  have hsame : found = operation := by
    unfold AutoDerive.findOperationOrError at hfound
    rw [hid] at hop
    rw [hop] at hfound
    exact (Except.ok.inj hfound).symm
  rw [hsame] at hfrom
  have hcollects := collectParams_collects hfrom.resolved (resolved_empty _)
  intro param hmem hnonBody
  rw [hfrom.placed]
  constructor
  · intro v hv
    obtain ⟨x, hx⟩ := Option.isSome_iff_exists.mp
      (hcollects.collected param hmem hnonBody (Or.inr ⟨v, hv⟩))
    obtain ⟨v', hv', rfl⟩ := hcollects.resolved _ _ _ hx
    rw [hv] at hv'
    rw [hx, Option.some.inj (Except.ok.inj hv')]
  · exact fun hrequired => hcollects.collected param hmem hnonBody (Or.inl hrequired)

end Assembled

section Sending

variable {w : WordClass} {runtime : Runtime} {schema : ServiceSchema} {request : CommandRequest}
  {http : HttpRequest} {resource : String} {operation : OperationSchema} {alternates : Bool}

theorem sentRequest_ok (hload : runtime.catalogue.getOrLoad request.service = .ok schema)
    (hop : lookupOperation schema request.operationId = some (resource, operation, alternates))
    (h : sentRequest w runtime request = .ok http) :
    ∃ path, substitutePathParams w operation.pathTemplate request.pathParams = .ok path ∧
      http = ⟨operation.httpMethod, trimEndSlashes runtime.baseUrl ++ path,
        [("Authorization", bearer runtime.accessToken)], request.queryParams.entries,
        request.body⟩ := by
  simp only [sentRequest, findOperation, hload, hop, buildBaseRequest] at h
  cases hpath : substitutePathParams w operation.pathTemplate request.pathParams with
  | error e =>
    rw [hpath] at h
    cases h
  | ok path =>
    rw [hpath] at h
    exact ⟨path, rfl, (Except.ok.inj h).symm⟩

/-- The dry run always reports what is sent. -/
theorem reported (hload : runtime.catalogue.getOrLoad request.service = .ok schema)
    (hop : lookupOperation schema request.operationId = some (resource, operation, alternates))
    (h : sentRequest w runtime request = .ok http) : Reported w runtime request http := by
  obtain ⟨path, hpath, rfl⟩ := sentRequest_ok hload hop h
  have hreport : dryRunCommand w runtime request = .ok ⟨operation.httpMethod,
      trimEndSlashes runtime.baseUrl ++ path, [("Authorization", bearer "<token>")],
      request.queryParams.entries, request.body⟩ := by
    simp only [dryRunCommand, findOperation, hload, hop, hpath]
  exact ⟨_, hreport, rfl, rfl, rfl, rfl⟩

theorem carries_iff (hload : runtime.catalogue.getOrLoad request.service = .ok schema)
    (hop : lookupOperation schema request.operationId = some (resource, operation, alternates))
    (h : sentRequest w runtime request = .ok http) :
    Carries w runtime.baseUrl operation request http ↔
      HeadersCarried runtime.accessToken request ∧
        PlaceholdersApart w operation.pathTemplate request.pathParams := by
  obtain ⟨path, hpath, rfl⟩ := sentRequest_ok hload hop h
  have hiff := substituted_iff hpath
  constructor
  · rintro ⟨hurl, -, hheader⟩
    have hurl : trimEndSlashes runtime.baseUrl ++ path =
        trimEndSlashes runtime.baseUrl ++ filledPath w operation.pathTemplate request.pathParams :=
      hurl
    refine ⟨fun e he => List.mem_singleton.mp (hheader e he), hiff.mp ?_⟩
    exact String.append_right_inj _ |>.mp hurl
  · rintro ⟨hheaders, hapart⟩
    refine ⟨?_, fun e he => he, fun e he => List.mem_singleton.mpr (hheaders e he)⟩
    rw [hiff.mpr hapart]

end Sending

/-- Every accepted parameter is on the wire, and the dry run shows it, exactly when the request
has no header parameter but the token's and the placeholders keep apart. -/
theorem reaches_wire_iff {w : WordClass} {runtime : Runtime} {files : String → FileStatus}
    {step : CompiledStep} {ctx : Context} {supplied stepLocal : Values}
    {specs : List WorkflowInputSpec} {schema : ServiceSchema} {«namespace» : Option String}
    {options : RunOptions} {request : CommandRequest} {resource : String}
    {operation : OperationSchema} {alternates : Bool} {http : HttpRequest}
    (hassemble : assembleCommandRequest files step ctx supplied stepLocal specs schema «namespace»
      options = .ok request)
    (hload : runtime.catalogue.getOrLoad request.service = .ok schema)
    (hop : lookupOperation schema request.operationId = some (resource, operation, alternates))
    (hsent : sentRequest w runtime request = .ok http) :
    (Accepted operation (stepScope step ctx supplied stepLocal specs) request ∧
      Carries w runtime.baseUrl operation request http ∧ Reported w runtime request http) ↔
      HeadersCarried runtime.accessToken request ∧
        PlaceholdersApart w operation.pathTemplate request.pathParams := by
  have hfind : AutoDerive.findOperation schema request.operationId = some operation := by
    rw [← lookupOperation_operation, hop]
    rfl
  have haccepted := accepted_of_assembled hassemble hfind
  have hreported := reported hload hop hsent
  rw [← carries_iff hload hop hsent]
  exact ⟨fun h => h.2.1, fun h => ⟨haccepted, h, hreported⟩⟩

section Concrete

def asciiWord : WordClass := ⟨fun c => c.isAlphanum || c = '_', by decide, by decide⟩

def showOperation : OperationSchema :=
  { Executor.csmOperation "Show" "/csm/apps/{app}" none with
    parameters := [⟨"app", .path, true, .string, false, none, none⟩,
      ⟨"limit", .query, false, .integer, false, none, none⟩,
      ⟨"x-trace", .header, false, .string, false, none, none⟩] }

def showSchema : ServiceSchema :=
  ⟨"csm", "", [⟨"app", "", [⟨"show", "", some "admin", [⟨"admin", 1, [showOperation]⟩]⟩]⟩]⟩

def showRuntime : Runtime := ⟨"https://demo.test/", "t0", ⟨fun _ => .ok showSchema⟩⟩

def showStep (inputs : List StepInputBinding) : CompiledStep :=
  Compile.compiledStep (Executor.apiStep "show" "Show" inputs []) 0 []

def literalInput (field value : String) : StepInputBinding :=
  ⟨field, .literal ⟨.string value, false⟩, true, none⟩

def showRequest (headerParams : BTreeMap String String) : CommandRequest :=
  { service := "csm", operationId := "Show", «namespace» := none
    pathParams := .ofList [("app", "demo/1")], queryParams := .ofList [("limit", "5")]
    headerParams, body := none, outputFormat := .human, pagination := .auto
    verbosity := .normal, output := none }

theorem show_found :
    lookupOperation showSchema "Show" = some ("app", showOperation, false) := rfl

theorem show_assembles : assembleCommandRequest (fun _ => .missing)
    (showStep [literalInput "app" "demo/1", literalInput "limit" "5"]) .new .empty .empty []
    showSchema none .default = .ok (showRequest .empty) := rfl

theorem show_assembles_header : assembleCommandRequest (fun _ => .missing)
    (showStep [literalInput "app" "demo/1", literalInput "limit" "5", literalInput "x-trace" "on"])
    .new .empty .empty [] showSchema none .default =
      .ok (showRequest (.ofList [("x-trace", "on")])) := rfl

def showHttp : HttpRequest :=
  ⟨.post, "https://demo.test/csm/apps/demo%2F1", [("Authorization", "Bearer t0")],
    [("limit", "5")], none⟩

theorem show_sent (headerParams : BTreeMap String String) :
    sentRequest asciiWord showRuntime (showRequest headerParams) = .ok showHttp := rfl

/-- Without a header parameter everything is on the wire. -/
theorem reaches_wire_show :
    Accepted showOperation (stepScope
        (showStep [literalInput "app" "demo/1", literalInput "limit" "5"]) .new .empty .empty [])
        (showRequest .empty) ∧
      Carries asciiWord showRuntime.baseUrl showOperation (showRequest .empty) showHttp ∧
      Reported asciiWord showRuntime (showRequest .empty) showHttp :=
  (reaches_wire_iff show_assembles rfl show_found (show_sent .empty)).mpr (by decide)

/-- A resolved header parameter is in no header of the request. -/
theorem header_not_carried :
    assembleCommandRequest (fun _ => .missing)
        (showStep [literalInput "app" "demo/1", literalInput "limit" "5",
          literalInput "x-trace" "on"])
        .new .empty .empty [] showSchema none .default =
          .ok (showRequest (.ofList [("x-trace", "on")])) ∧
      sentRequest asciiWord showRuntime (showRequest (.ofList [("x-trace", "on")])) =
        .ok showHttp ∧
      ¬ Carries asciiWord showRuntime.baseUrl showOperation
        (showRequest (.ofList [("x-trace", "on")])) showHttp := by
  refine ⟨show_assembles_header, show_sent _, fun h => ?_⟩
  have hheader := h.header ("x-trace", "on") (by decide)
  exact absurd hheader (by decide)

end Concrete

end WireParameters
