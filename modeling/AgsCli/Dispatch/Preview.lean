import AgsCli.Dispatch.PathShape

/-! # The URL on the confirm card

`preview_command` fills the template with the values as they are, one parameter after the other;
the dispatch fills it with encoded ones. When the two show the same path. -/
namespace Preview

open OrderedMap CatalogueTypes ProtocolError RequestTypes PathTemplate Execute PathShape Templates
  Strings

/-- Every parameter of the request in key order, wherever its placeholder then is. -/
def previewPath (template : String) (params : BTreeMap String String) : String :=
  String.ofList (params.entries.foldl (fun path e =>
    replace ('\x7b' :: (e.1.toList ++ ['\x7d'])) (stripTerminalControlSequences e.2).toList path)
    template.toList)

def previewCommand (runtime : Runtime) (request : CommandRequest) :
    Except RuntimeError CommandPreview :=
  match findOperation runtime request with
  | .error e => .error e
  | .ok (_, operation, _) =>
    let method := operation.httpMethod.asStr
    .ok { service := request.service
          operationId := request.operationId
          summary := s!"This will issue a {method} request"
          httpMethod := operation.httpMethod
          url := trimEndSlashes runtime.baseUrl ++
            previewPath operation.pathTemplate request.pathParams }

section Shown

variable {w : WordClass} {template : String} {params : BTreeMap String String}

def plainValue (params : BTreeMap String String) (name : List Char) : List Char :=
  ((params.get? (String.ofList name)).getD "").toList

def decodedPath (w : WordClass) (template : String) (params : BTreeMap String String) : String :=
  String.ofList (Brackets.fill (plainValue params) (w.brackets.parse template.toList))

structure ShowsSent (w : WordClass) (template : String) (params : BTreeMap String String)
    (shown sent : String) : Prop where
  sent : sent = filledPath w template params
  decoded : ∀ name ∈ placeholders w template, ∀ value, params.get? name = some value →
    percentDecode (percentEncode value) = some value
  shown : shown = decodedPath w template params

/-- No parameter's placeholder is found where the template has none. -/
def PreviewApart (w : WordClass) (template : String) (params : BTreeMap String String) : Prop :=
  w.brackets.Undisturbed (plainValue params) (params.keys.map String.toList)
    (w.brackets.parse template.toList)

instance (template : String) (params : BTreeMap String String) :
    Decidable (PreviewApart w template params) :=
  inferInstanceAs (Decidable (w.brackets.Undisturbed _ _ _))

/-- No value has anything the terminal would act on. -/
def NoControlSequences (params : BTreeMap String String) : Prop :=
  ∀ e ∈ params.entries, stripTerminalControlSequences e.2 = e.2

instance : Decidable (NoControlSequences params) := inferInstanceAs (Decidable (∀ e ∈ _, _))

theorem previewPath_run (hplain : NoControlSequences params) : (previewPath template params).toList =
    w.brackets.run (plainValue params) (params.keys.map String.toList) template.toList := by
  have hrun : ∀ (entries : List (String × String)) (path : List Char), entries ⊆ params.entries →
      entries.foldl (fun path e => replace ('\x7b' :: (e.1.toList ++ ['\x7d']))
        (stripTerminalControlSequences e.2).toList path) path =
      w.brackets.run (plainValue params) (entries.map fun e => e.1.toList) path := by
    intro entries
    induction entries with
    | nil => exact fun path _ => rfl
    | cons e rest ih =>
      intro path hsub
      obtain ⟨he, hrest⟩ := List.cons_subset.mp hsub
      have hvalue : plainValue params e.1.toList = (stripTerminalControlSequences e.2).toList := by
        rw [plainValue, String.ofList_toList, BTreeMap.get?_of_mem he, Option.getD_some,
          hplain e he]
      rw [List.foldl_cons, ih _ hrest, List.map_cons, Brackets.run, Brackets.run, List.foldl_cons,
        hvalue]
      rfl
  rw [previewPath, String.toList_ofList, hrun _ _ (List.Subset.refl _), BTreeMap.keys, List.map_map]
  rfl

/-- Each placeholder of a path that can be substituted is a parameter. -/
theorem holes_subset_keys {path : String} (h : substitutePathParams w template params = .ok path) :
    ∀ hole ∈ (w.brackets.parse template.toList).holes, hole.1 ∈ params.keys.map String.toList := by
  intro hole hmem
  have hname : String.ofList hole.1 ∈ placeholders w template := List.mem_map_of_mem hmem
  obtain ⟨value, hvalue, -⟩ := substituteNames_values h _ hname
  refine List.mem_map.mpr ⟨String.ofList hole.1, BTreeMap.mem_keys.mpr ?_, String.toList_ofList⟩
  rw [hvalue]
  rfl

theorem shown_of_apart {path : String} (h : substitutePathParams w template params = .ok path)
    (hplain : NoControlSequences params) (hapart : PreviewApart w template params) :
    previewPath template params = decodedPath w template params := by
  have hrun := Brackets.run_eq_fill_of_undisturbed (Brackets.named_parse _)
    (holes_subset_keys h) hapart
  rw [Brackets.flatten_parse, ← previewPath_run hplain] at hrun
  rw [decodedPath, ← hrun, String.ofList_toList]

/-- Between names, and with values that have no bracket, nothing else shows the same. -/
theorem apart_of_shown {path : String} (h : substitutePathParams w template params = .ok path)
    (hplain : NoControlSequences params)
    (hnames : ∀ e ∈ params.entries, w.brackets.IsName e.1.toList ∧ '\x7b' ∉ e.2.toList)
    (hshown : previewPath template params = decodedPath w template params) :
    PreviewApart w template params := by
  have hword : ∀ name ∈ params.keys.map String.toList, w.brackets.IsName name := by
    intro name hname
    obtain ⟨key, hkey, rfl⟩ := List.mem_map.mp hname
    obtain ⟨e, he, rfl⟩ := List.mem_map.mp hkey
    exact (hnames e he).1
  have hvalue : ∀ name ∈ params.keys.map String.toList, '\x7b' ∉ plainValue params name := by
    intro name hname
    obtain ⟨key, hkey, rfl⟩ := List.mem_map.mp hname
    obtain ⟨e, he, rfl⟩ := List.mem_map.mp hkey
    rw [plainValue, String.ofList_toList, BTreeMap.get?_of_mem he, Option.getD_some]
    exact (hnames e he).2
  refine (Brackets.undisturbed_iff hword).mpr
    ((Brackets.run_eq_fill_iff hword hvalue (Brackets.named_parse _)
      (holes_subset_keys h)).mp ?_)
  rw [Brackets.flatten_parse, ← previewPath_run hplain, hshown, decodedPath, String.toList_ofList]

end Shown

/-- The card shows what is sent where neither loop finds a placeholder the template does not have;
between named parameters whose values have no bracket only then. -/
theorem shows_sent {w : WordClass} {template path : String} {params : BTreeMap String String}
    (h : substitutePathParams w template params = .ok path)
    (hplain : NoControlSequences params) :
    (PlaceholdersApart w template params ∧ PreviewApart w template params →
      ShowsSent w template params (previewPath template params) path) ∧
    ((∀ e ∈ params.entries, w.brackets.IsName e.1.toList ∧ '\x7b' ∉ e.2.toList) →
      ShowsSent w template params (previewPath template params) path →
      PlaceholdersApart w template params ∧ PreviewApart w template params) := by
  constructor
  · rintro ⟨hplaceholders, hpreview⟩
    exact ⟨(substituted_iff h).mpr hplaceholders,
      fun _ _ value _ => percentDecode_percentEncode value, shown_of_apart h hplain hpreview⟩
  · intro hnames hshows
    exact ⟨(substituted_iff h).mp hshows.sent, apart_of_shown h hplain hnames hshows.shown⟩

/-- The card and the request have the same base and method, and these paths. -/
theorem previewCommand_sent {w : WordClass} {runtime : Runtime} {request : CommandRequest}
    {resource : String} {operation : OperationSchema} {alternates : Bool} {http : Http.HttpRequest}
    {preview : CommandPreview}
    (hfind : findOperation runtime request = .ok (resource, operation, alternates))
    (hpreview : previewCommand runtime request = .ok preview)
    (hsent : sentRequest w runtime request = .ok http) :
    ∃ path, substitutePathParams w operation.pathTemplate request.pathParams = .ok path ∧
      preview.httpMethod = http.method ∧ http.url = trimEndSlashes runtime.baseUrl ++ path ∧
      preview.url = trimEndSlashes runtime.baseUrl ++
        previewPath operation.pathTemplate request.pathParams := by
  simp only [previewCommand, hfind] at hpreview
  simp only [sentRequest, hfind, buildBaseRequest] at hsent
  cases hpath : substitutePathParams w operation.pathTemplate request.pathParams with
  | error e =>
    rw [hpath] at hsent
    cases hsent
  | ok path =>
    rw [hpath] at hsent
    rw [← Except.ok.inj hpreview, ← Except.ok.inj hsent]
    exact ⟨path, rfl, rfl, rfl, rfl⟩

section Concrete

def memberTemplate : String := "/iam/v3/namespaces/{namespace}/users/{userId}"

def memberParams («namespace» : String) : BTreeMap String String :=
  .ofList [("namespace", «namespace»), ("userId", "u 1")]

/-- A plain value is shown as it is sent. -/
theorem shows_sent_plain :
    ShowsSent WireParameters.asciiWord memberTemplate (memberParams "demo")
      (previewPath memberTemplate (memberParams "demo"))
      "/iam/v3/namespaces/demo/users/u%201" :=
  (shows_sent (by decide +kernel) (by decide +kernel)).1 ⟨by decide +kernel, by decide +kernel⟩

/-- A value that is a placeholder is filled in on the card, but sent as it is. -/
theorem braces_shown_filled :
    substitutePathParams WireParameters.asciiWord memberTemplate (memberParams "\x7buserId\x7d") =
        .ok "/iam/v3/namespaces/%7BuserId%7D/users/u%201" ∧
      NoControlSequences (memberParams "\x7buserId\x7d") ∧
      previewPath memberTemplate (memberParams "\x7buserId\x7d") =
        "/iam/v3/namespaces/u 1/users/u 1" ∧
      decodedPath WireParameters.asciiWord memberTemplate (memberParams "\x7buserId\x7d") =
        "/iam/v3/namespaces/\x7buserId\x7d/users/u 1" ∧
      ¬ ShowsSent WireParameters.asciiWord memberTemplate (memberParams "\x7buserId\x7d")
        (previewPath memberTemplate (memberParams "\x7buserId\x7d"))
        "/iam/v3/namespaces/%7BuserId%7D/users/u%201" := by
  refine ⟨by decide +kernel, by decide +kernel, by decide +kernel, by decide +kernel, fun hshows => ?_⟩
  have hshown := hshows.shown
  revert hshown
  decide +kernel

end Concrete

end Preview
