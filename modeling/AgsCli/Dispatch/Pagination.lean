import AgsCli.Dispatch.Http
import AgsCli.Support.Strings

/-! # Automatic pagination

`fetch_all_pages`: after a first page with a cursor, fetch the pages that follow and merge their
items. A run answers its result with the progress events it emits. -/
namespace Pagination

open Json CatalogueTypes ProtocolError RequestTypes Http Strings

def hardPageCap : Nat := 100

def defaultPageSize : Nat := 100

abbrev Query := List (String × String)

inductive PaginationStrategy
  | offset
  | cursor
  deriving DecidableEq, Repr

def hasQueryParam (operation : OperationSchema) (name : String) : Bool :=
  operation.parameters.any fun p => p.name = name && p.location = .query

def detectStrategy (operation : OperationSchema) : Option PaginationStrategy :=
  if hasQueryParam operation "after" then some .cursor
  else if hasQueryParam operation "offset" then some .offset
  else none

def extractNextCursor (response : Value) : Option String :=
  (((response.get? "paging").bind (·.get? "next")).bind Value.asStr?).filter (!·.isEmpty)

def extractDataArray (response : Value) : Option (List Value) :=
  match response.get? "data" with
  | some (.array items) => some items
  | _ => none

def buildMergedResponse (items : List Value) (lastPaging : Value) : Value :=
  .ofPairs [("data", .array items), ("paging", lastPaging)]

/-- `u64` multiplication as a release build does it. -/
def wrappingMul (a b : Nat) : Nat := a * b % 2 ^ 64

def buildNextQuery (baseQuery : Query) (strategy : PaginationStrategy) (cursor : String)
    (pagesFetched pageSize : Nat) : Query :=
  match strategy with
  | .cursor => baseQuery.filter (·.1 ≠ "after") ++ [("after", cursor)]
  | .offset =>
    baseQuery.filter (·.1 ≠ "offset") ++ [("offset", toString (wrappingMul pagesFetched pageSize))]

def pageSizeFromQuery (query : Query) : Nat :=
  ((query.find? (·.1 = "limit")).bind fun e => parseUsize e.2.toList).getD defaultPageSize

def effectivePageLimit (userLimit : Nat) : Nat :=
  if userLimit = 0 then hardPageCap else min userLimit hardPageCap

def limitMessageText (pageLimit pagesFetched itemCount : Nat) : String :=
  if pageLimit = 0 then
    let pages := pluralize "page" hardPageCap
    s!"Stopped after {hardPageCap} {pages}. For larger datasets, use the API directly or process in batches"
  else
    let pages := pluralize "page" pagesFetched
    let items := pluralize "item" itemCount
    s!"Stopped after {pagesFetched} {pages} ({itemCount} {items}). Use --page-limit to increase"

section Fetching

variable (client : HttpClient) (parse : String → Except String Value) (resolvedUrl token : String)

def upstream (status : Nat) (message : String) : RuntimeError :=
  { kind := .upstream status none, message, details := none, hint := none }

def fetchNextPage (query : Query) (pageNumber : Nat) : Except RuntimeError Value :=
  match client ⟨.get, resolvedUrl, [("Authorization", bearer token)], query, none⟩ with
  | .error e => .error e
  | .ok ⟨status, .binary contentType bytes⟩ =>
    let size := bytes.length
    .error (upstream status
      s!"Paginated endpoint returned binary body ({contentType}, {size} bytes) — unsupported.")
  | .ok ⟨status, .text bodyText⟩ =>
    if ¬ (200 ≤ status ∧ status < 300) then
      .error (upstream status s!"HTTP {status} error on page {pageNumber}")
    else match parse bodyText with
      | .error e => .error (.internal s!"Failed to parse page {pageNumber} response: {e}")
      | .ok page => .ok page

variable (strategy : PaginationStrategy) (baseQuery : Query) (pageSize pageLimit : Nat)

/-- The loop: a page without items, or without a cursor, is the last. -/
def paginateLoop (cursor : String) (items : List Value) (lastPaging : Value)
    (pagesFetched : Nat) : Except RuntimeError Value × List ProgressEvent :=
  if effectivePageLimit pageLimit ≤ pagesFetched then
    (.ok (buildMergedResponse items lastPaging),
      [.message (limitMessageText pageLimit pagesFetched items.length)])
  else
    let query := buildNextQuery baseQuery strategy cursor pagesFetched pageSize
    let event := ProgressEvent.page (pagesFetched + 1) none
    match fetchNextPage client parse resolvedUrl token query (pagesFetched + 1) with
    | .error e => (.error e, [event])
    | .ok page =>
      match extractDataArray page with
      | none | some [] => (.ok (buildMergedResponse items lastPaging), [event])
      | some data =>
        let items := items ++ data
        let lastPaging := (page.get? "paging").getD (.object [])
        match extractNextCursor page with
        | none => (.ok (buildMergedResponse items lastPaging), [event])
        | some cursor =>
          let (result, events) := paginateLoop cursor items lastPaging (pagesFetched + 1)
          (result, event :: events)
termination_by effectivePageLimit pageLimit - pagesFetched

end Fetching

def fetchAllPages (client : HttpClient) (parse : String → Except String Value)
    (resolvedUrl token : String) (operation : OperationSchema) (initialResponse : Value)
    (initialQuery : Query) (pageLimit : Nat) : Except RuntimeError Value × List ProgressEvent :=
  match extractNextCursor initialResponse with
  | none => (.ok initialResponse, [])
  | some cursor =>
    match detectStrategy operation with
    | none => (.ok initialResponse, [])
    | some strategy =>
      paginateLoop client parse resolvedUrl token strategy initialQuery
        (pageSizeFromQuery initialQuery) pageLimit cursor
        ((extractDataArray initialResponse).getD [])
        ((initialResponse.get? "paging").getD (.object [])) 1

end Pagination
