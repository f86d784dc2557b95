import AgsCli.Dispatch.Pagination
import AgsCli.Dispatch.WireParameters

/-! # Requests of a paginated call

`execute_operation` with the requests it sends, against a service whose answers may depend on
everything sent before: the first request and, for an operation that is paginated, the ones that
ask for the pages after it. -/
namespace PageRequests

open OrderedMap Json CatalogueTypes ProtocolError RequestTypes Http PathTemplate Pagination Execute

/-- Answers to a request after the ones already sent. -/
abbrev Service := List HttpRequest → HttpClient

def pageRequest (resolvedUrl token : String) (query : Query) : HttpRequest :=
  ⟨.get, resolvedUrl, [("Authorization", bearer token)], query, none⟩

section Fetching

variable (service : Service) (parse : String → Except String Value) (resolvedUrl token : String)
  (strategy : PaginationStrategy) (baseQuery : Query) (pageSize pageLimit : Nat)

def paginateLoop (cursor : String) (items : List Value) (lastPaging : Value) (pagesFetched : Nat)
    (sent : List HttpRequest) : Except RuntimeError Value × List HttpRequest :=
  if effectivePageLimit pageLimit ≤ pagesFetched then
    (.ok (buildMergedResponse items lastPaging), [])
  else
    let query := buildNextQuery baseQuery strategy cursor pagesFetched pageSize
    let request := pageRequest resolvedUrl token query
    match fetchNextPage (service sent) parse resolvedUrl token query (pagesFetched + 1) with
    | .error e => (.error e, [request])
    | .ok page =>
      match extractDataArray page with
      | none | some [] => (.ok (buildMergedResponse items lastPaging), [request])
      | some data =>
        let items := items ++ data
        let lastPaging := (page.get? "paging").getD (.object [])
        match extractNextCursor page with
        | none => (.ok (buildMergedResponse items lastPaging), [request])
        | some cursor =>
          let (result, more) :=
            paginateLoop cursor items lastPaging (pagesFetched + 1) (sent ++ [request])
          (result, request :: more)
termination_by effectivePageLimit pageLimit - pagesFetched

end Fetching

def fetchAllPages (service : Service) (parse : String → Except String Value)
    (resolvedUrl token : String) (operation : OperationSchema) (initialResponse : Value)
    (initialQuery : Query) (pageLimit : Nat) (sent : List HttpRequest) :
    Except RuntimeError Value × List HttpRequest :=
  match extractNextCursor initialResponse with
  | none => (.ok initialResponse, [])
  | some cursor =>
    match detectStrategy operation with
    | none => (.ok initialResponse, [])
    | some strategy =>
      paginateLoop service parse resolvedUrl token strategy initialQuery
        (pageSizeFromQuery initialQuery) pageLimit cursor
        ((extractDataArray initialResponse).getD [])
        ((initialResponse.get? "paging").getD (.object [])) 1 sent

/-- What the call makes of the answers, before it is shaped, written out or classified. -/
inductive Answer
  | binary (status : Nat) (contentType : String) (bytes : List UInt8)
  | written (bodyText : String)
  | json (value : Value)
  | text (bodyText : String)
  | empty
  | rejected (status : Nat) (bodyText : String)

/-- The body of the first answer goes to the output the user named. -/
def writesText (request : CommandRequest) : Bool :=
  request.output.isSome && request.outputFormat = .human

/-- The page limit of a hint that follows pages; zero is no limit of the user's. -/
def pageLimit? : PaginationHint → Option Nat
  | .limit limit => some limit
  | .all => some 0
  | .auto | .firstPageOnly => none

section Executing

variable (w : WordClass) (service : Service) (parse : String → Except String Value)
  (baseUrl token : String) (operation : OperationSchema) (request : CommandRequest)

def executeOperation : Except RuntimeError Answer × List HttpRequest :=
  match buildBaseRequest w baseUrl token operation request with
  | .error e => (.error e, [])
  | .ok (url, query, http) =>
    let first := { http with body := request.body }
    match service [] first with
    | .error e => (.error e, [first])
    | .ok ⟨status, .binary contentType bytes⟩ => (.ok (.binary status contentType bytes), [first])
    | .ok ⟨status, .text bodyText⟩ =>
      if 200 ≤ status ∧ status < 300 then
        if writesText request then (.ok (.written bodyText), [first])
        else match parse bodyText with
          | .error _ => (.ok (if bodyText = "" then .empty else .text bodyText), [first])
          | .ok value =>
            match pageLimit? request.pagination with
            | none => (.ok (.json value), [first])
            | some limit =>
              let (result, more) :=
                fetchAllPages service parse url token operation value query limit [first]
              (result.map .json, first :: more)
      else (.ok (.rejected status bodyText), [first])

def firstPage : Option Value :=
  match buildBaseRequest w baseUrl token operation request with
  | .error _ => none
  | .ok (_, _, http) =>
    match service [] { http with body := request.body } with
    | .ok ⟨status, .text bodyText⟩ =>
      if 200 ≤ status ∧ status < 300 ∧ writesText request = false then (parse bodyText).toOption
      else none
    | _ => none

/-- There is a page after the first, and the call is to fetch it. -/
def HasNextPage : Prop :=
  (((firstPage w service parse baseUrl token operation request).bind extractNextCursor).isSome ∧
    (detectStrategy operation).isSome) ∧
  ∃ limit, pageLimit? request.pagination = some limit ∧ 1 < effectivePageLimit limit

end Executing

structure SameCall (first other : HttpRequest) : Prop where
  method : other.method = first.method
  url : other.url = first.url
  headers : other.headers = first.headers
  body : other.body = first.body
  query : ∃ name ∈ ["offset", "after"],
    other.query.filter (·.1 ≠ name) = first.query.filter (·.1 ≠ name) ∧
      (other.query.filter (·.1 = name)).length = 1

def SameCalls : List HttpRequest → Prop
  | [] => True
  | first :: more => ∀ other ∈ more, SameCall first other

section Loop

variable {service : Service} {parse : String → Except String Value} {resolvedUrl token : String}
  {strategy : PaginationStrategy} {baseQuery : Query} {pageSize pageLimit : Nat}

def IsPage (resolvedUrl token : String) (strategy : PaginationStrategy) (baseQuery : Query)
    (request : HttpRequest) : Prop :=
  ∃ cursor fetched pageSize, request =
    pageRequest resolvedUrl token (buildNextQuery baseQuery strategy cursor fetched pageSize)

theorem isPage_of_mem {cursor : String} {items : List Value} {lastPaging : Value} {fetched : Nat}
    {sent : List HttpRequest} : ∀ request ∈ (paginateLoop service parse resolvedUrl token strategy
      baseQuery pageSize pageLimit cursor items lastPaging fetched sent).2,
    IsPage resolvedUrl token strategy baseQuery request := by
  intro request hmem
  induction hleft : effectivePageLimit pageLimit - fetched
    generalizing cursor items lastPaging fetched sent with
  | zero =>
    rw [paginateLoop, if_pos (by omega)] at hmem
    exact absurd hmem List.not_mem_nil
  | succ left ih =>
    rw [paginateLoop, if_neg (by omega)] at hmem
    have hone : request = pageRequest resolvedUrl token
        (buildNextQuery baseQuery strategy cursor fetched pageSize) →
        IsPage resolvedUrl token strategy baseQuery request :=
      fun heq => ⟨cursor, fetched, pageSize, heq⟩
    dsimp only at hmem
    split at hmem
    · exact hone (List.mem_singleton.mp hmem)
    · split at hmem
      · exact hone (List.mem_singleton.mp hmem)
      · exact hone (List.mem_singleton.mp hmem)
      · split at hmem
        · exact hone (List.mem_singleton.mp hmem)
        · rcases List.mem_cons.mp hmem with heq | hmore
          · exact hone heq
          · exact ih hmore (by omega)

theorem exists_mem_loop {cursor : String} {items : List Value} {lastPaging : Value}
    {fetched : Nat} {sent : List HttpRequest} (h : fetched < effectivePageLimit pageLimit) :
    ∃ request, request ∈ (paginateLoop service parse resolvedUrl token strategy baseQuery
      pageSize pageLimit cursor items lastPaging fetched sent).2 := by
  refine ⟨pageRequest resolvedUrl token
    (buildNextQuery baseQuery strategy cursor fetched pageSize), ?_⟩
  rw [paginateLoop, if_neg (Nat.not_le_of_lt h)]
  dsimp only
  split
  · exact List.mem_singleton_self _
  · split
    · exact List.mem_singleton_self _
    · exact List.mem_singleton_self _
    · split
      · exact List.mem_singleton_self _
      · exact List.mem_cons_self

/-- Against a service that answers each request alike the loop is the one without a log. -/
theorem paginateLoop_result (client : HttpClient) {cursor : String} {items : List Value}
    {lastPaging : Value} {fetched : Nat} {sent : List HttpRequest} :
    (paginateLoop (fun _ => client) parse resolvedUrl token strategy baseQuery pageSize pageLimit
      cursor items lastPaging fetched sent).1 =
      (Pagination.paginateLoop client parse resolvedUrl token strategy baseQuery pageSize pageLimit
        cursor items lastPaging fetched).1 := by
  induction hleft : effectivePageLimit pageLimit - fetched
    generalizing cursor items lastPaging fetched sent with
  | zero =>
    have hstop : effectivePageLimit pageLimit ≤ fetched := by omega
    rw [paginateLoop, Pagination.paginateLoop, if_pos hstop, if_pos hstop]
  | succ left ih =>
    have hmore : ¬ effectivePageLimit pageLimit ≤ fetched := by omega
    rw [paginateLoop, Pagination.paginateLoop, if_neg hmore, if_neg hmore]
    dsimp only
    cases fetchNextPage client parse resolvedUrl token
        (buildNextQuery baseQuery strategy cursor fetched pageSize) (fetched + 1) with
    | error e => rfl
    | ok page =>
      dsimp only
      rcases extractDataArray page with - | - | ⟨item, data⟩
      · rfl
      · rfl
      · dsimp only
        cases extractNextCursor page with
        | none => rfl
        | some cursor => exact ih (by omega)

end Loop

section Query

variable {query : Query} {name value : String}

theorem filter_replaced : (query.filter (·.1 ≠ name) ++ [(name, value)]).filter (·.1 ≠ name) =
    query.filter (·.1 ≠ name) := by
  have hlast : [(name, value)].filter (·.1 ≠ name) = [] := by simp
  rw [List.filter_append, hlast, List.append_nil, List.filter_filter]
  simp

theorem entry_replaced :
    (query.filter (·.1 ≠ name) ++ [(name, value)]).filter (·.1 = name) = [(name, value)] := by
  have hlast : [(name, value)].filter (·.1 = name) = [(name, value)] := by simp
  rw [List.filter_append, hlast, List.filter_filter]
  simp

theorem query_of_next (strategy : PaginationStrategy) (cursor : String) (fetched pageSize : Nat) :
    ∃ name ∈ ["offset", "after"],
      (buildNextQuery query strategy cursor fetched pageSize).filter (·.1 ≠ name) =
        query.filter (·.1 ≠ name) ∧
      ((buildNextQuery query strategy cursor fetched pageSize).filter (·.1 = name)).length = 1 := by
  cases strategy with
  | cursor =>
    refine ⟨"after", by simp, filter_replaced, ?_⟩
    rw [buildNextQuery, entry_replaced, List.length_singleton]
  | offset =>
    refine ⟨"offset", by simp, filter_replaced, ?_⟩
    rw [buildNextQuery, entry_replaced, List.length_singleton]

end Query

section Runs

variable {w : WordClass} {service : Service} {parse : String → Except String Value}
  {baseUrl token : String} {operation : OperationSchema} {request : CommandRequest}

theorem buildBaseRequest_ok {url : String} {query : Query} {http : HttpRequest}
    (h : buildBaseRequest w baseUrl token operation request = .ok (url, query, http)) :
    http = ⟨operation.httpMethod, url, [("Authorization", bearer token)], query, none⟩ := by
  unfold buildBaseRequest at h
  split at h
  · cases h
  · obtain ⟨rfl, hrest⟩ := Prod.mk.inj (Except.ok.inj h)
    obtain ⟨rfl, rfl⟩ := Prod.mk.inj hrest
    rfl

theorem sameCall_iff {url : String} {query : Query} {strategy : PaginationStrategy}
    {first other : HttpRequest} (hfirst : first = ⟨operation.httpMethod, url,
      [("Authorization", bearer token)], query, request.body⟩)
    (hother : IsPage url token strategy query other) :
    SameCall first other ↔ operation.httpMethod = .get ∧ request.body = none := by
  obtain ⟨cursor, fetched, pageSize, rfl⟩ := hother
  subst hfirst
  constructor
  · intro hsame
    exact ⟨hsame.method.symm, hsame.body.symm⟩
  · rintro ⟨hget, hbody⟩
    exact ⟨hget.symm, rfl, rfl, hbody.symm, query_of_next strategy cursor fetched pageSize⟩

/-- What a call sends: nothing, its first request alone, or requests for pages after it. -/
inductive Sends (w : WordClass) (service : Service) (parse : String → Except String Value)
    (baseUrl token : String) (operation : OperationSchema) (request : CommandRequest) :
    List HttpRequest → Prop
  | nothing (h : ¬ HasNextPage w service parse baseUrl token operation request) :
      Sends w service parse baseUrl token operation request []
  | first (http : HttpRequest) (h : ¬ HasNextPage w service parse baseUrl token operation request) :
      Sends w service parse baseUrl token operation request [http]
  | pages {url : String} {query : Query} (strategy : PaginationStrategy) (more : List HttpRequest)
      (h : HasNextPage w service parse baseUrl token operation request) (hmore : more ≠ [])
      (hpages : ∀ other ∈ more, IsPage url token strategy query other) :
      Sends w service parse baseUrl token operation request
        (⟨operation.httpMethod, url, [("Authorization", bearer token)], query, request.body⟩ ::
          more)

theorem firstPage_ok {url : String} {query : Query} {http : HttpRequest}
    (hbuild : buildBaseRequest w baseUrl token operation request = .ok (url, query, http))
    {status : Nat} {bodyText : String}
    (hanswer : service [] { http with body := request.body } = .ok ⟨status, .text bodyText⟩) :
    firstPage w service parse baseUrl token operation request =
      if 200 ≤ status ∧ status < 300 ∧ writesText request = false then (parse bodyText).toOption
      else none := by
  simp only [firstPage, hbuild, hanswer]

theorem not_hasNextPage
    (h : firstPage w service parse baseUrl token operation request = none) :
    ¬ HasNextPage w service parse baseUrl token operation request := by
  rintro ⟨⟨hcursor, -⟩, -⟩
  rw [h] at hcursor
  cases hcursor

/-- The pages after a first one the call reads. -/
theorem fetchAllPages_requests {url : String} {query : Query} {page : Value} {limit : Nat}
    {sent : List HttpRequest}
    (hpage : firstPage w service parse baseUrl token operation request = some page)
    (hlimit : pageLimit? request.pagination = some limit) :
    ((fetchAllPages service parse url token operation page query limit sent).2 = [] ∧
        ¬ HasNextPage w service parse baseUrl token operation request) ∨
      ∃ strategy, HasNextPage w service parse baseUrl token operation request ∧
        (fetchAllPages service parse url token operation page query limit sent).2 ≠ [] ∧
        ∀ other ∈ (fetchAllPages service parse url token operation page query limit sent).2,
          IsPage url token strategy query other := by
  cases hcursor : extractNextCursor page with
  | none =>
    refine Or.inl ⟨by simp only [fetchAllPages, hcursor], fun h => ?_⟩
    have hsome := h.1.1
    rw [hpage, Option.bind_some, hcursor] at hsome
    cases hsome
  | some cursor =>
    cases hstrategy : detectStrategy operation with
    | none =>
      refine Or.inl ⟨by simp only [fetchAllPages, hcursor, hstrategy], fun h => ?_⟩
      have hsome := h.1.2
      rw [hstrategy] at hsome
      cases hsome
    | some strategy =>
      have hrun : fetchAllPages service parse url token operation page query limit sent =
          paginateLoop service parse url token strategy query (pageSizeFromQuery query) limit
            cursor ((extractDataArray page).getD []) ((page.get? "paging").getD (.object [])) 1
            sent := by
        simp only [fetchAllPages, hcursor, hstrategy]
      rw [hrun]
      by_cases hone : 1 < effectivePageLimit limit
      · refine Or.inr ⟨strategy, ⟨⟨?_, ?_⟩, limit, hlimit, hone⟩, ?_, isPage_of_mem⟩
        · rw [hpage, Option.bind_some, hcursor]
          rfl
        · rw [hstrategy]
          rfl
        · obtain ⟨other, hother⟩ := exists_mem_loop hone
          exact List.ne_nil_of_mem hother
      · refine Or.inl ⟨?_, ?_⟩
        · rw [paginateLoop, if_pos (Nat.le_of_not_lt hone)]
        · rintro ⟨-, limit', hlimit', hone'⟩
          rw [hlimit] at hlimit'
          exact hone (Option.some.inj hlimit' ▸ hone')

theorem sends : Sends w service parse baseUrl token operation request
    (executeOperation w service parse baseUrl token operation request).2 := by
  cases hbuild : buildBaseRequest w baseUrl token operation request with
  | error e =>
    simp only [executeOperation, hbuild]
    exact .nothing (not_hasNextPage (by simp only [firstPage, hbuild]))
  | ok built =>
    obtain ⟨url, query, http⟩ := built
    cases hanswer : service [] { http with body := request.body } with
    | error e =>
      simp only [executeOperation, hbuild, hanswer]
      exact .first _ (not_hasNextPage (by simp only [firstPage, hbuild, hanswer]))
    | ok response =>
      obtain ⟨status, body⟩ := response
      cases body with
      | binary contentType bytes =>
        simp only [executeOperation, hbuild, hanswer]
        exact .first _ (not_hasNextPage (by simp only [firstPage, hbuild, hanswer]))
      | text bodyText =>
        have hfirst := @firstPage_ok _ _ parse _ _ _ _ _ _ _ hbuild _ _ hanswer
        simp only [executeOperation, hbuild, hanswer]
        by_cases hstatus : 200 ≤ status ∧ status < 300
        · rw [if_pos hstatus]
          cases hwrites : writesText request with
          | true =>
            refine .first _ (not_hasNextPage ?_)
            rw [hfirst, if_neg fun h => by simp [hwrites] at h]
          | false =>
            rw [if_pos ⟨hstatus.1, hstatus.2, hwrites⟩] at hfirst
            cases hparse : parse bodyText with
            | error e =>
              refine .first _ (not_hasNextPage ?_)
              rw [hfirst, hparse]
              rfl
            | ok page =>
              rw [hparse] at hfirst
              cases hlimit : pageLimit? request.pagination with
              | none =>
                refine .first _ ?_
                rintro ⟨-, limit, hsome, -⟩
                rw [hlimit] at hsome
                cases hsome
              | some limit =>
                dsimp only
                rcases @fetchAllPages_requests w service parse baseUrl token operation request url
                  query page limit [{ http with body := request.body }] hfirst hlimit with
                  ⟨hnone, hnext⟩ | ⟨strategy, hnext, hmore, hpages⟩
                · simp only [hnone]
                  exact .first _ hnext
                · have hhttp := buildBaseRequest_ok hbuild
                  subst hhttp
                  exact .pages strategy _ hnext hmore hpages
        · rw [if_neg hstatus]
          refine .first _ (not_hasNextPage ?_)
          rw [hfirst, if_neg fun h => hstatus ⟨h.1, h.2.1⟩]

/-- The first request is the one `run_command` is known to send. -/
theorem sent_head {runtime : Runtime} {resource : String} {alternates : Bool}
    (hfind : findOperation runtime request = .ok (resource, operation, alternates)) :
    (executeOperation w service parse runtime.baseUrl runtime.accessToken operation
      request).2.head? = (sentRequest w runtime request).toOption := by
  cases hbuild : buildBaseRequest w runtime.baseUrl runtime.accessToken operation request with
  | error e => simp only [executeOperation, sentRequest, hfind, hbuild]; rfl
  | ok built =>
    obtain ⟨url, query, http⟩ := built
    simp only [executeOperation, sentRequest, hfind, hbuild]
    cases service [] { http with body := request.body } with
    | error e => rfl
    | ok response =>
      obtain ⟨status, body⟩ := response
      cases body with
      | binary contentType bytes => rfl
      | text bodyText =>
        by_cases hstatus : 200 ≤ status ∧ status < 300
        · simp only [if_pos hstatus]
          cases writesText request with
          | true => rfl
          | false =>
            cases parse bodyText with
            | error e => rfl
            | ok page => cases pageLimit? request.pagination <;> rfl
        · simp only [if_neg hstatus]
          rfl

/-- Every page after the first is asked for by the same call exactly when the call is a GET
without a body, or there is no such page. -/
theorem sameCalls_iff :
    SameCalls (executeOperation w service parse baseUrl token operation request).2 ↔
      (operation.httpMethod = .get ∧ request.body = none) ∨
        ¬ HasNextPage w service parse baseUrl token operation request := by
  have hsends := @sends w service parse baseUrl token operation request
  generalize (executeOperation w service parse baseUrl token operation request).2 = sent at hsends
  cases hsends with
  | nothing hnext => exact ⟨fun _ => Or.inr hnext, fun _ => trivial⟩
  | first http hnext =>
    exact ⟨fun _ => Or.inr hnext, fun _ other hmem => absurd hmem List.not_mem_nil⟩
  | pages strategy more hnext hmore hpages =>
    constructor
    · intro hsame
      obtain ⟨other, hother⟩ := List.exists_mem_of_ne_nil more hmore
      exact Or.inl ((sameCall_iff rfl (hpages other hother)).mp (hsame other hother))
    · rintro (hget | hnone)
      · exact fun other hother => (sameCall_iff rfl (hpages other hother)).mpr hget
      · exact absurd hnext hnone

end Runs

section Concrete

/-- The list of apps: a POST with a filter in its body and a page in its query. -/
def listApps : OperationSchema :=
  { Executor.csmOperation "ListApps" "/csm/v2/admin/namespaces/{namespace}/apps" none with
    parameters := [⟨"namespace", .path, true, .string, false, none, none⟩,
      ⟨"limit", .query, false, .integer, false, none, none⟩,
      ⟨"offset", .query, false, .integer, false, none, none⟩] }

def listAppsRequest : CommandRequest :=
  { service := "csm", operationId := "ListApps", «namespace» := some "demo"
    pathParams := .ofList [("namespace", "demo")], queryParams := .ofList [("limit", "1")]
    headerParams := .empty, body := some (.json (.object [("appNames", .array [.string "a"])]))
    outputFormat := .human, pagination := .limit 2, verbosity := .normal, output := none }

def appsPage : Value :=
  .object [("data", .array [.string "a"]), ("paging", .object [("next", .string "p2")])]

def appsService : Service := fun _ _ => .ok ⟨200, .text "page"⟩

def appsUrl : String := "https://demo.test/csm/v2/admin/namespaces/demo/apps"

theorem apps_built : buildBaseRequest WireParameters.asciiWord "https://demo.test" "t0" listApps
    listAppsRequest = .ok (appsUrl, [("limit", "1")],
      ⟨.post, appsUrl, [("Authorization", "Bearer t0")], [("limit", "1")], none⟩) := rfl

theorem apps_pages (sent : List HttpRequest) :
    (fetchAllPages appsService (fun _ => .ok appsPage) appsUrl "t0" listApps appsPage
      [("limit", "1")] 2 sent).2 =
      [pageRequest appsUrl "t0" [("limit", "1"), ("offset", "1")]] := by
  have hrun : fetchAllPages appsService (fun _ => .ok appsPage) appsUrl "t0" listApps appsPage
      [("limit", "1")] 2 sent =
      paginateLoop appsService (fun _ => .ok appsPage) appsUrl "t0" .offset [("limit", "1")] 1 2
        "p2" [.string "a"] (.object [("next", .string "p2")]) 1 sent := rfl
  have hfetch : fetchNextPage (appsService sent) (fun _ => .ok appsPage) appsUrl "t0"
      (buildNextQuery [("limit", "1")] .offset "p2" 1 1) 2 = .ok appsPage := rfl
  have hstop : effectivePageLimit 2 ≤ 2 := by decide
  rw [hrun, paginateLoop, if_neg (by decide)]
  have hdata : extractDataArray appsPage = some [.string "a"] := rfl
  have hcursor : extractNextCursor appsPage = some "p2" := rfl
  simp only [hfetch, hdata, hcursor]
  rw [paginateLoop, if_pos hstop]
  rfl

/-- The second page of a POST is asked for with a GET. -/
theorem post_pages_by_get :
    (executeOperation WireParameters.asciiWord appsService (fun _ => .ok appsPage)
      "https://demo.test" "t0" listApps listAppsRequest).2.map
        (fun sent => (sent.method, sent.url, sent.body.isSome)) =
      [(.post, appsUrl, true), (.get, appsUrl, false)] ∧
    ¬ SameCalls (executeOperation WireParameters.asciiWord appsService (fun _ => .ok appsPage)
      "https://demo.test" "t0" listApps listAppsRequest).2 := by
  have hsent : (executeOperation WireParameters.asciiWord appsService (fun _ => .ok appsPage)
      "https://demo.test" "t0" listApps listAppsRequest).2 =
      [⟨.post, appsUrl, [("Authorization", "Bearer t0")], [("limit", "1")], listAppsRequest.body⟩,
        pageRequest appsUrl "t0" [("limit", "1"), ("offset", "1")]] := by
    have hpages := apps_pages [⟨.post, appsUrl, [("Authorization", "Bearer t0")],
      [("limit", "1")], listAppsRequest.body⟩]
    simp only [executeOperation, apps_built]
    exact congrArg _ hpages
  rw [hsent]
  refine ⟨rfl, fun hsame => ?_⟩
  have hmethod := (hsame _ (List.mem_singleton_self _)).method
  cases hmethod

end Concrete

end PageRequests
