import AgsCli.Dispatch.PageRequests
import AgsCli.Support.Decimals

/-! # The two page mergers

`fetch_all_pages_at_path` next to `fetch_all_pages`. Both fetch the same way and differ in the page
size they step by and in the envelope they keep; what a run reads is stated once for both. -/
namespace PageMergers

open OrderedMap Json CatalogueTypes ProtocolError RequestTypes Http PageRequests
open Pagination hiding paginateLoop fetchAllPages

def itemsKey? (itemsPath : String) : Option String :=
  match itemsPath.toList with
  | '$' :: '.' :: key =>
    if key ≠ [] ∧ '.' ∉ key ∧ '[' ∉ key then some (String.ofList key) else none
  | _ => none

def arrayAt (key : String) (response : Value) : Option (List Value) :=
  match response.get? key with
  | some (.array items) => some items
  | _ => none

def putArray (key : String) (items : List Value) : Value → Value
  | .object members => .object (Entries.insert key (.array items) members)
  | other => other

def optionsPageSize (query : Query) : Nat :=
  match (query.find? (·.1 = "count")).bind fun e => Strings.parseUsize e.2.toList with
  | some count => count
  | none => pageSizeFromQuery query

section Fetching

variable (service : Service) (parse : String → Except String Value) (resolvedUrl token : String)
  (strategy : PaginationStrategy) (baseQuery : Query) (pageSize pageLimit : Nat) (key : String)

/-- The loop of `fetch_all_pages_at_path` with the requests it sends. -/
def pathLoop (cursor : String) (items : List Value) (lastResponse : Value) (pagesFetched : Nat)
    (sent : List HttpRequest) : Except RuntimeError Value × List HttpRequest :=
  if effectivePageLimit pageLimit ≤ pagesFetched then (.ok (putArray key items lastResponse), [])
  else
    let query := buildNextQuery baseQuery strategy cursor pagesFetched pageSize
    let request := pageRequest resolvedUrl token query
    match fetchNextPage (service sent) parse resolvedUrl token query (pagesFetched + 1) with
    | .error e => (.error e, [request])
    | .ok page =>
      match arrayAt key page with
      | none | some [] => (.ok (putArray key items lastResponse), [request])
      | some data =>
        let items := items ++ data
        match extractNextCursor page with
        | none => (.ok (putArray key items page), [request])
        | some cursor =>
          let (result, more) := pathLoop cursor items page (pagesFetched + 1) (sent ++ [request])
          (result, request :: more)
termination_by effectivePageLimit pageLimit - pagesFetched

end Fetching

def fetchAllPagesAtPath (service : Service) (parse : String → Except String Value)
    (resolvedUrl token : String) (operation : OperationSchema) (initialResponse : Value)
    (initialQuery : Query) (pageLimit : Nat) (itemsPath : String) (sent : List HttpRequest) :
    Except RuntimeError Value × List HttpRequest :=
  match itemsKey? itemsPath with
  | none => (.ok initialResponse, [])
  | some key =>
    match extractNextCursor initialResponse with
    | none => (.ok initialResponse, [])
    | some cursor =>
      match detectStrategy operation with
      | none => (.ok initialResponse, [])
      | some strategy =>
        pathLoop service parse resolvedUrl token strategy initialQuery
          (optionsPageSize initialQuery) pageLimit key cursor
          ((arrayAt key initialResponse).getD []) initialResponse 1 sent

section Reading

variable (service : Service) (parse : String → Except String Value) (resolvedUrl token : String)
  (ask : String → Nat → Query) (pageLimit : Nat)

/-- What both loops read: the items so far and the last page that has some. -/
def readPages (cursor : String) (items : List Value) (last : Value) (pagesFetched : Nat)
    (sent : List HttpRequest) : Except RuntimeError (List Value × Value) × List HttpRequest :=
  if effectivePageLimit pageLimit ≤ pagesFetched then (.ok (items, last), [])
  else
    let request := pageRequest resolvedUrl token (ask cursor pagesFetched)
    match fetchNextPage (service sent) parse resolvedUrl token (ask cursor pagesFetched)
        (pagesFetched + 1) with
    | .error e => (.error e, [request])
    | .ok page =>
      match extractDataArray page with
      | none | some [] => (.ok (items, last), [request])
      | some data =>
        match extractNextCursor page with
        | none => (.ok (items ++ data, page), [request])
        | some cursor =>
          let (result, more) :=
            readPages cursor (items ++ data) page (pagesFetched + 1) (sent ++ [request])
          (result, request :: more)
termination_by effectivePageLimit pageLimit - pagesFetched

def HasItems (page : Value) : Prop := ∃ item data, extractDataArray page = some (item :: data)

inductive Reads : String → Nat → List HttpRequest → Nat → Value → Prop
  | next {cursor : String} {n : Nat} {sent : List HttpRequest} {page : Value} :
    fetchNextPage (service sent) parse resolvedUrl token (ask cursor n) (n + 1) = .ok page →
    Reads cursor n sent (n + 1) page
  | later {cursor cursor' : String} {n m : Nat} {sent : List HttpRequest} {page other : Value} :
    fetchNextPage (service sent) parse resolvedUrl token (ask cursor n) (n + 1) = .ok page →
    HasItems page → extractNextCursor page = some cursor' →
    Reads cursor' (n + 1) (sent ++ [pageRequest resolvedUrl token (ask cursor n)]) m other →
    Reads cursor n sent m other

end Reading

/-- The envelope of `fetch_all_pages` around what was read. -/
def mergedPage (read : List Value × Value) : Value :=
  buildMergedResponse read.1 ((read.2.get? "paging").getD (.object []))

section Loops

variable {service : Service} {parse : String → Except String Value} {resolvedUrl token : String}
  {strategy : PaginationStrategy} {baseQuery : Query} {pageSize pageLimit : Nat}

theorem paginateLoop_eq {cursor : String} {items : List Value} {last : Value} {n : Nat}
    {sent : List HttpRequest} :
    paginateLoop service parse resolvedUrl token strategy baseQuery pageSize pageLimit cursor items
      ((last.get? "paging").getD (.object [])) n sent =
    let read := readPages service parse resolvedUrl token
      (fun cursor n => buildNextQuery baseQuery strategy cursor n pageSize) pageLimit
      cursor items last n sent
    (read.1.map mergedPage, read.2) := by
  induction hleft : effectivePageLimit pageLimit - n generalizing cursor items last n sent with
  | zero =>
    have hstop : effectivePageLimit pageLimit ≤ n := by omega
    rw [paginateLoop, readPages, if_pos hstop, if_pos hstop]
    rfl
  | succ left ih =>
    have hmore : ¬effectivePageLimit pageLimit ≤ n := by omega
    rw [paginateLoop, readPages, if_neg hmore, if_neg hmore]
    dsimp only
    cases fetchNextPage (service sent) parse resolvedUrl token
        (buildNextQuery baseQuery strategy cursor n pageSize) (n + 1) with
    | error e => rfl
    | ok page =>
      dsimp only
      rcases extractDataArray page with - | - | ⟨item, data⟩
      · rfl
      · rfl
      · dsimp only
        cases extractNextCursor page with
        | none => rfl
        | some cursor =>
          dsimp only
          rw [ih (by omega)]

theorem pathLoop_eq {cursor : String} {items : List Value} {last : Value} {n : Nat}
    {sent : List HttpRequest} :
    pathLoop service parse resolvedUrl token strategy baseQuery pageSize pageLimit "data" cursor
      items last n sent =
    let read := readPages service parse resolvedUrl token
      (fun cursor n => buildNextQuery baseQuery strategy cursor n pageSize) pageLimit
      cursor items last n sent
    (read.1.map fun r => putArray "data" r.1 r.2, read.2) := by
  induction hleft : effectivePageLimit pageLimit - n generalizing cursor items last n sent with
  | zero =>
    have hstop : effectivePageLimit pageLimit ≤ n := by omega
    rw [pathLoop, readPages, if_pos hstop, if_pos hstop]
    rfl
  | succ left ih =>
    have hmore : ¬effectivePageLimit pageLimit ≤ n := by omega
    rw [pathLoop, readPages, if_neg hmore, if_neg hmore]
    dsimp only
    cases fetchNextPage (service sent) parse resolvedUrl token
        (buildNextQuery baseQuery strategy cursor n pageSize) (n + 1) with
    | error e => rfl
    | ok page =>
      dsimp only
      have hsame : arrayAt "data" page = extractDataArray page := rfl
      rw [hsame]
      rcases extractDataArray page with - | - | ⟨item, data⟩
      · rfl
      · rfl
      · dsimp only
        cases extractNextCursor page with
        | none => rfl
        | some cursor =>
          dsimp only
          rw [ih (by omega)]

end Loops

section Pages

variable {service : Service} {parse : String → Except String Value} {resolvedUrl token : String}
  {ask : String → Nat → Query} {pageLimit : Nat}

variable (service parse resolvedUrl token ask) in
theorem readPages_cases (cursor : String) (items : List Value) (last : Value) {n : Nat}
    (sent : List HttpRequest) (h : n < effectivePageLimit pageLimit) :
    let request := pageRequest resolvedUrl token (ask cursor n)
    let read := readPages service parse resolvedUrl token ask pageLimit cursor items last n sent
    (∃ e, fetchNextPage (service sent) parse resolvedUrl token (ask cursor n) (n + 1) = .error e ∧
      read = (.error e, [request])) ∨
    ∃ page, fetchNextPage (service sent) parse resolvedUrl token (ask cursor n) (n + 1) = .ok page ∧
      ((¬HasItems page ∧ read = (.ok (items, last), [request])) ∨
        ∃ item data, extractDataArray page = some (item :: data) ∧
          ((extractNextCursor page = none ∧
              read = (.ok (items ++ item :: data, page), [request])) ∨
            ∃ cursor', extractNextCursor page = some cursor' ∧
              let rest := readPages service parse resolvedUrl token ask pageLimit cursor'
                (items ++ item :: data) page (n + 1) (sent ++ [request])
              read = (rest.1, request :: rest.2))) := by
  intro request read
  have hread : read = readPages service parse resolvedUrl token ask pageLimit cursor items last n
      sent := rfl
  rw [readPages, if_neg (Nat.not_le_of_lt h)] at hread
  cases hfetch : fetchNextPage (service sent) parse resolvedUrl token (ask cursor n) (n + 1) with
  | error e =>
    rw [hfetch] at hread
    exact Or.inl ⟨e, rfl, hread⟩
  | ok page =>
    rw [hfetch] at hread
    refine Or.inr ⟨page, rfl, ?_⟩
    cases hdata : extractDataArray page with
    | none =>
      simp only [hdata] at hread
      refine Or.inl ⟨?_, hread⟩
      rintro ⟨item, data, hsome⟩
      rw [hdata] at hsome
      cases hsome
    | some data =>
      cases data with
      | nil =>
        simp only [hdata] at hread
        refine Or.inl ⟨?_, hread⟩
        rintro ⟨item, data, hsome⟩
        rw [hdata] at hsome
        cases hsome
      | cons item data =>
        refine Or.inr ⟨item, data, rfl, ?_⟩
        cases hcursor : extractNextCursor page with
        | none =>
          simp only [hdata, hcursor] at hread
          exact Or.inl ⟨rfl, hread⟩
        | some cursor' =>
          simp only [hdata, hcursor] at hread
          exact Or.inr ⟨cursor', rfl, hread⟩

theorem readPages_stop {cursor : String} {items : List Value} {last : Value} {n : Nat}
    {sent : List HttpRequest} (h : effectivePageLimit pageLimit ≤ n) :
    readPages service parse resolvedUrl token ask pageLimit cursor items last n sent =
      (.ok (items, last), []) := by
  rw [readPages, if_pos h]

/-- The first page and the requested ones are within the limit. -/
theorem readPages_length {cursor : String} {items : List Value} {last : Value} {n : Nat}
    {sent : List HttpRequest} (h : n ≤ effectivePageLimit pageLimit) :
    (readPages service parse resolvedUrl token ask pageLimit cursor items last n sent).2.length +
      n ≤ effectivePageLimit pageLimit := by
  induction hleft : effectivePageLimit pageLimit - n generalizing cursor items last n sent with
  | zero =>
    rw [readPages_stop (by omega)]
    simpa using h
  | succ left ih =>
    have hone : ∀ request : HttpRequest, [request].length + n ≤ effectivePageLimit pageLimit := by
      intro request
      rw [List.length_singleton]
      omega
    have hlt : n < effectivePageLimit pageLimit := by omega
    rcases readPages_cases service parse resolvedUrl token ask cursor items last sent hlt with
      ⟨e, -, heq⟩ | ⟨page, -, ⟨-, heq⟩ | ⟨item, data, -, ⟨-, heq⟩ | ⟨cursor', -, heq⟩⟩⟩
    · rw [heq]
      exact hone _
    · rw [heq]
      exact hone _
    · rw [heq]
      exact hone _
    · rw [heq]
      have hrest := @ih cursor' (items ++ item :: data) page (n + 1)
        (sent ++ [pageRequest resolvedUrl token (ask cursor n)]) (by omega) (by omega)
      rw [List.length_cons]
      omega

theorem object_of_get {v w : Value} {key : String} (h : v.get? key = some w) :
    ∃ members, v = .object members := by
  cases v with
  | object members => exact ⟨members, rfl⟩
  | _ => cases h

theorem object_of_items {page : Value} {data : List Value} (h : extractDataArray page = some data) :
    ∃ members, page = .object members := by
  unfold extractDataArray at h
  split at h
  · rename_i hget
    exact object_of_get hget
  · cases h

theorem readPages_object {cursor : String} {items : List Value} {last : Value} {n : Nat}
    {sent : List HttpRequest} {read : List Value × Value}
    (hlast : ∃ members, last = .object members)
    (h : (readPages service parse resolvedUrl token ask pageLimit cursor items last n sent).1 =
      .ok read) : ∃ members, read.2 = .object members := by
  induction hleft : effectivePageLimit pageLimit - n generalizing cursor items last n sent with
  | zero =>
    rw [readPages_stop (by omega)] at h
    obtain rfl := Except.ok.inj h
    exact hlast
  | succ left ih =>
    have hlt : n < effectivePageLimit pageLimit := by omega
    rcases readPages_cases service parse resolvedUrl token ask cursor items last sent hlt with
      ⟨e, -, heq⟩ | ⟨page, -, ⟨-, heq⟩ | ⟨item, data, hdata, ⟨-, heq⟩ | ⟨cursor', -, heq⟩⟩⟩
    · rw [heq] at h
      cases h
    · rw [heq] at h
      obtain rfl := Except.ok.inj h
      exact hlast
    · rw [heq] at h
      obtain rfl := Except.ok.inj h
      exact object_of_items hdata
    · rw [heq] at h
      exact ih (object_of_items hdata) h (by omega)

/-- With items on every page before the limit, a cursor is left only at the limit. -/
theorem readPages_next {cursor : String} {items : List Value} {last : Value} {n : Nat}
    {sent : List HttpRequest} {read : List Value × Value} (hn : n ≤ effectivePageLimit pageLimit)
    (hitems : ∀ m page, Reads service parse resolvedUrl token ask cursor n sent m page →
      m < effectivePageLimit pageLimit → HasItems page)
    (h : (readPages service parse resolvedUrl token ask pageLimit cursor items last n sent).1 =
      .ok read) (hnext : (extractNextCursor read.2).isSome = true) :
    (readPages service parse resolvedUrl token ask pageLimit cursor items last n sent).2.length +
      n = effectivePageLimit pageLimit := by
  induction hleft : effectivePageLimit pageLimit - n generalizing cursor items last n sent with
  | zero =>
    rw [readPages_stop (by omega), List.length_nil]
    omega
  | succ left ih =>
    have hlt : n < effectivePageLimit pageLimit := by omega
    rcases readPages_cases service parse resolvedUrl token ask cursor items last sent hlt with
      ⟨e, -, heq⟩ |
        ⟨page, hfetch, ⟨hempty, heq⟩ | ⟨item, data, hdata, ⟨hnone, heq⟩ | ⟨cursor', hsome, heq⟩⟩⟩
    · rw [heq] at h
      cases h
    · rw [heq, List.length_singleton]
      have hlast : ¬n + 1 < effectivePageLimit pageLimit := fun hlt =>
        hempty (hitems (n + 1) page (.next hfetch) hlt)
      omega
    · rw [heq] at h
      obtain rfl := Except.ok.inj h
      rw [hnone] at hnext
      cases hnext
    · rw [heq] at h ⊢
      have hrest := ih (by omega)
        (fun m other hreads => hitems m other (.later hfetch ⟨item, data, hdata⟩ hsome hreads))
        h (by omega)
      rw [List.length_cons]
      omega

theorem lt_of_reads {cursor : String} {n m : Nat} {sent : List HttpRequest} {page : Value}
    (h : Reads service parse resolvedUrl token ask cursor n sent m page) : n < m := by
  induction h with
  | next _ => exact Nat.lt_succ_self _
  | later _ _ _ _ ih => omega

/-- Behind a page without items the cursor that led to it is left. -/
theorem readPages_stale {cursor : String} (items : List Value) {last : Value} {n m : Nat}
    {sent : List HttpRequest} {page : Value}
    (h : Reads service parse resolvedUrl token ask cursor n sent m page)
    (hm : m ≤ effectivePageLimit pageLimit) (hempty : ¬HasItems page)
    (hlast : (extractNextCursor last).isSome = true) :
    ∃ read, (readPages service parse resolvedUrl token ask pageLimit cursor items last n sent).1 =
        .ok read ∧ (extractNextCursor read.2).isSome = true ∧
      (readPages service parse resolvedUrl token ask pageLimit cursor items last n sent).2.length +
        n = m := by
  induction h generalizing items last with
  | @next cursor n sent page hfetch =>
    rcases readPages_cases service parse resolvedUrl token ask cursor items last sent hm with
      ⟨e, herror, -⟩ | ⟨other, hother, ⟨-, heq⟩ | ⟨item, data, hdata, -⟩⟩
    · rw [hfetch] at herror
      cases herror
    · rw [heq]
      exact ⟨_, rfl, hlast, by rw [List.length_singleton, Nat.add_comm]⟩
    · rw [hfetch] at hother
      obtain rfl := Except.ok.inj hother
      exact absurd ⟨item, data, hdata⟩ hempty
  | @later cursor cursor' n m sent page other hfetch hpage hcursor hreads ih =>
    have hlt : n < effectivePageLimit pageLimit := by
      have := lt_of_reads hreads
      omega
    rcases readPages_cases service parse resolvedUrl token ask cursor items last sent hlt with
      ⟨e, herror, -⟩ |
        ⟨found, hfound, ⟨hnot, -⟩ | ⟨item, data, hdata, ⟨hnone, -⟩ | ⟨cursor'', hsome, heq⟩⟩⟩
    · rw [hfetch] at herror
      cases herror
    · rw [hfetch] at hfound
      obtain rfl := Except.ok.inj hfound
      exact absurd hpage hnot
    · rw [hfetch] at hfound
      obtain rfl := Except.ok.inj hfound
      rw [hcursor] at hnone
      cases hnone
    · rw [hfetch] at hfound
      obtain rfl := Except.ok.inj hfound
      rw [hcursor] at hsome
      obtain rfl := Option.some.inj hsome
      obtain ⟨read, hok, hread, hlength⟩ :=
        ih (items ++ item :: data) hm hempty (by rw [hcursor]; rfl)
      rw [heq]
      refine ⟨read, hok, hread, ?_⟩
      rw [List.length_cons]
      omega

end Pages

section Envelopes

variable {read : List Value × Value}

theorem data_mergedPage (read : List Value × Value) :
    extractDataArray (mergedPage read) = some read.1 := by
  simp [mergedPage, buildMergedResponse, extractDataArray, Value.ofPairs, Value.get?,
    Entries.lookup_insert]

theorem next_mergedPage (read : List Value × Value) :
    extractNextCursor (mergedPage read) = extractNextCursor read.2 := by
  have hpaging : (mergedPage read).get? "paging" =
      some ((read.2.get? "paging").getD (.object [])) := by
    simp [mergedPage, buildMergedResponse, Value.ofPairs, Value.get?]
  unfold extractNextCursor
  rw [hpaging]
  cases read.2.get? "paging" with
  | none => rfl
  | some paging => rfl

theorem data_putArray {items : List Value} {envelope : Value}
    (h : ∃ members, envelope = .object members) :
    extractDataArray (putArray "data" items envelope) = some items := by
  obtain ⟨members, rfl⟩ := h
  simp [putArray, extractDataArray, Value.get?]

theorem next_putArray (items : List Value) (envelope : Value) :
    extractNextCursor (putArray "data" items envelope) = extractNextCursor envelope := by
  cases envelope with
  | object members =>
    have hpaging : (putArray "data" items (.object members)).get? "paging" =
        (Value.object members).get? "paging" := by
      simp [putArray, Value.get?, Entries.lookup_insert_of_ne]
    unfold extractNextCursor
    rw [hpaging]
  | _ => rfl

theorem object_of_cursor {response : Value} {cursor : String}
    (h : extractNextCursor response = some cursor) : ∃ members, response = .object members := by
  cases hpaging : response.get? "paging" with
  | none =>
    rw [extractNextCursor, hpaging] at h
    cases h
  | some paging => exact object_of_get hpaging

end Envelopes

section Agreement

variable {service : Service} {parse : String → Except String Value} {resolvedUrl token : String}
  {operation : OperationSchema} {initial : Value} {query : Query} {limit : Nat}
  {sent : List HttpRequest} {cursor : String} {strategy : PaginationStrategy}

theorem fetchAllPages_eq (hcursor : extractNextCursor initial = some cursor)
    (hstrategy : detectStrategy operation = some strategy) :
    fetchAllPages service parse resolvedUrl token operation initial query limit sent =
      let read := readPages service parse resolvedUrl token
        (fun cursor n => buildNextQuery query strategy cursor n (pageSizeFromQuery query)) limit
        cursor ((extractDataArray initial).getD []) initial 1 sent
      (read.1.map mergedPage, read.2) := by
  rw [fetchAllPages, hcursor]
  simp only [hstrategy]
  exact paginateLoop_eq

theorem fetchAllPagesAtPath_eq (hcursor : extractNextCursor initial = some cursor)
    (hstrategy : detectStrategy operation = some strategy) :
    fetchAllPagesAtPath service parse resolvedUrl token operation initial query limit "$.data"
      sent =
      let read := readPages service parse resolvedUrl token
        (fun cursor n => buildNextQuery query strategy cursor n (optionsPageSize query)) limit
        cursor ((extractDataArray initial).getD []) initial 1 sent
      (read.1.map fun r => putArray "data" r.1 r.2, read.2) := by
  have hkey : itemsKey? "$.data" = some "data" := by decide
  rw [fetchAllPagesAtPath, hkey]
  simp only [hcursor, hstrategy]
  exact pathLoop_eq

end Agreement

structure Agree (limit : Nat) (plain atPath : Except RuntimeError Value × List HttpRequest) :
    Prop where
  requests : plain.2 = atPath.2
  data : plain.1.map extractDataArray = atPath.1.map extractDataArray
  pages : plain.2.length + 1 ≤ effectivePageLimit limit ∧
    atPath.2.length + 1 ≤ effectivePageLimit limit
  plainNext : ∀ response, plain.1 = .ok response → (extractNextCursor response).isSome = true →
    plain.2.length + 1 = effectivePageLimit limit
  pathNext : ∀ response, atPath.1 = .ok response → (extractNextCursor response).isSome = true →
    atPath.2.length + 1 = effectivePageLimit limit

/-- Where there is a next page to ask for, the operation can be asked for it, an offset steps by
the same page size for both, and no page before the limit comes without items. -/
def Mergeable (service : Service) (parse : String → Except String Value)
    (resolvedUrl token : String) (operation : OperationSchema) (initial : Value) (query : Query)
    (limit : Nat) (sent : List HttpRequest) : Prop :=
  ∀ cursor, extractNextCursor initial = some cursor → 1 < effectivePageLimit limit →
    ∃ strategy, detectStrategy operation = some strategy ∧
      (strategy = .offset → optionsPageSize query = pageSizeFromQuery query) ∧
      ∀ n page, Reads service parse resolvedUrl token
        (fun cursor n => buildNextQuery query strategy cursor n (pageSizeFromQuery query))
        cursor 1 sent n page → n < effectivePageLimit limit → HasItems page

section Iff

variable {service : Service} {parse : String → Except String Value} {resolvedUrl token : String}
  {operation : OperationSchema} {initial : Value} {query : Query} {limit : Nat}
  {sent : List HttpRequest} {cursor : String}

theorem agree_of_run (run : Except RuntimeError (List Value × Value) × List HttpRequest)
    (hobject : ∀ read, run.1 = .ok read → ∃ members, read.2 = .object members)
    (hlength : run.2.length + 1 ≤ effectivePageLimit limit)
    (hnext : ∀ read, run.1 = .ok read → (extractNextCursor read.2).isSome = true →
      run.2.length + 1 = effectivePageLimit limit) :
    Agree limit (run.1.map mergedPage, run.2)
      (run.1.map fun r => putArray "data" r.1 r.2, run.2) := by
  obtain ⟨result, requests⟩ := run
  cases result with
  | error e => exact ⟨rfl, rfl, ⟨hlength, hlength⟩, nofun, nofun⟩
  | ok read =>
    refine ⟨rfl, ?_, ⟨hlength, hlength⟩, ?_, ?_⟩
    · change Except.ok (extractDataArray (mergedPage read)) =
        Except.ok (extractDataArray (putArray "data" read.1 read.2))
      rw [data_mergedPage, data_putArray (hobject read rfl)]
    · intro response hresponse hsome
      obtain rfl := Except.ok.inj hresponse
      rw [next_mergedPage] at hsome
      exact hnext read rfl hsome
    · intro response hresponse hsome
      obtain rfl := Except.ok.inj hresponse
      rw [next_putArray] at hsome
      exact hnext read rfl hsome

/-- Below the limit the first request asks for the second page. -/
theorem readPages_head {ask : String → Nat → Query} (items : List Value) (last : Value)
    (h : 1 < effectivePageLimit limit) :
    (readPages service parse resolvedUrl token ask limit cursor items last 1 sent).2.head? =
      some (pageRequest resolvedUrl token (ask cursor 1)) := by
  rcases readPages_cases service parse resolvedUrl token ask cursor items last sent h with
    ⟨e, -, heq⟩ | ⟨page, -, ⟨-, heq⟩ | ⟨item, data, -, ⟨-, heq⟩ | ⟨cursor', -, heq⟩⟩⟩
  all_goals
    rw [heq]
    rfl

theorem pageSize_lt (query : Query) : pageSizeFromQuery query < 2 ^ 64 := by
  unfold pageSizeFromQuery
  cases hsize : (query.find? (·.1 = "limit")).bind fun e => Strings.parseUsize e.2.toList with
  | none => decide
  | some size =>
    obtain ⟨e, -, hparse⟩ := Option.bind_eq_some_iff.mp hsize
    exact Decimals.lt_of_parseUsize hparse

theorem optionsPageSize_lt (query : Query) : optionsPageSize query < 2 ^ 64 := by
  unfold optionsPageSize
  split
  · rename_i count hcount
    obtain ⟨e, -, hparse⟩ := Option.bind_eq_some_iff.mp hcount
    exact Decimals.lt_of_parseUsize hparse
  · exact pageSize_lt query

theorem offset_inj (cursor : String) {a b : Nat} (ha : a < 2 ^ 64) (hb : b < 2 ^ 64)
    (h : buildNextQuery query .offset cursor 1 a = buildNextQuery query .offset cursor 1 b) :
    a = b := by
  unfold buildNextQuery at h
  have hoffset : toString (wrappingMul 1 a) = toString (wrappingMul 1 b) := by
    simpa using List.append_cancel_left h
  rw [wrappingMul, wrappingMul, Nat.one_mul, Nat.one_mul, Nat.mod_eq_of_lt ha,
    Nat.mod_eq_of_lt hb] at hoffset
  have hread := Decimals.parseUsize_toString ha
  rw [hoffset, Decimals.parseUsize_toString hb] at hread
  exact (Option.some.inj hread).symm

theorem mergeable_of_agree
    (h : Agree limit
      (fetchAllPages service parse resolvedUrl token operation initial query limit sent)
      (fetchAllPagesAtPath service parse resolvedUrl token operation initial query limit "$.data"
        sent)) :
    Mergeable service parse resolvedUrl token operation initial query limit sent := by
  intro cursor hcursor hlimit
  have hnext : (extractNextCursor initial).isSome = true := by rw [hcursor]; rfl
  cases hstrategy : detectStrategy operation with
  | none =>
    have hplain : fetchAllPages service parse resolvedUrl token operation initial query limit sent =
        (.ok initial, []) := by
      rw [fetchAllPages, hcursor]
      simp only [hstrategy]
    rw [hplain] at h
    have hone := h.plainNext initial rfl hnext
    rw [List.length_nil] at hone
    omega
  | some strategy =>
    rw [fetchAllPages_eq hcursor hstrategy, fetchAllPagesAtPath_eq hcursor hstrategy] at h
    refine ⟨strategy, rfl, ?_, ?_⟩
    · rintro rfl
      have hheads := congrArg List.head? h.requests
      rw [readPages_head _ _ hlimit, readPages_head _ _ hlimit] at hheads
      have hquery := congrArg HttpRequest.query (Option.some.inj hheads)
      exact (offset_inj cursor (pageSize_lt query) (optionsPageSize_lt query) hquery).symm
    · intro n page hreads hn
      by_contra hempty
      obtain ⟨read, hok, hsome, hlength⟩ := readPages_stale ((extractDataArray initial).getD [])
        hreads (Nat.le_of_lt hn) hempty hnext
      have hfull := h.plainNext (mergedPage read) (by dsimp only; rw [hok]; rfl)
        (by rw [next_mergedPage]; exact hsome)
      dsimp only at hfull
      omega

theorem agree_of_mergeable
    (h : Mergeable service parse resolvedUrl token operation initial query limit sent) :
    Agree limit
      (fetchAllPages service parse resolvedUrl token operation initial query limit sent)
      (fetchAllPagesAtPath service parse resolvedUrl token operation initial query limit "$.data"
        sent) := by
  have hlimit : 1 ≤ effectivePageLimit limit := by
    unfold effectivePageLimit hardPageCap
    split_ifs <;> omega
  have hkey : itemsKey? "$.data" = some "data" := by decide
  cases hcursor : extractNextCursor initial with
  | none =>
    rw [fetchAllPages, fetchAllPagesAtPath, hkey]
    simp only [hcursor]
    have hnone : ∀ response, (.ok initial : Except RuntimeError Value) = .ok response →
        ¬(extractNextCursor response).isSome = true := by
      intro response hresponse
      obtain rfl := Except.ok.inj hresponse
      rw [hcursor]
      exact Bool.false_ne_true
    exact ⟨rfl, rfl, ⟨hlimit, hlimit⟩, fun r hr hs => absurd hs (hnone r hr),
      fun r hr hs => absurd hs (hnone r hr)⟩
  | some cursor =>
    cases hstrategy : detectStrategy operation with
    | none =>
      have hone : ¬1 < effectivePageLimit limit := by
        intro hmore
        obtain ⟨strategy, hsome, -⟩ := h cursor hcursor hmore
        rw [hstrategy] at hsome
        cases hsome
      rw [fetchAllPages, fetchAllPagesAtPath, hkey]
      simp only [hcursor, hstrategy]
      have hend : 0 + 1 = effectivePageLimit limit := by omega
      exact ⟨rfl, rfl, ⟨hlimit, hlimit⟩, fun _ _ _ => hend, fun _ _ _ => hend⟩
    | some strategy =>
      rw [fetchAllPages_eq hcursor hstrategy, fetchAllPagesAtPath_eq hcursor hstrategy]
      by_cases hmore : 1 < effectivePageLimit limit
      · obtain ⟨strategy', hsome, hsize, hitems⟩ := h cursor hcursor hmore
        obtain rfl := Option.some.inj (hstrategy.symm.trans hsome)
        have hask : (fun cursor n => buildNextQuery query strategy cursor n
            (optionsPageSize query)) = fun cursor n =>
              buildNextQuery query strategy cursor n (pageSizeFromQuery query) := by
          cases strategy with
          | cursor => rfl
          | offset => rw [hsize rfl]
        rw [hask]
        exact agree_of_run _ (fun read hread => readPages_object (object_of_cursor hcursor) hread)
          (readPages_length hlimit)
          (fun read hread hsome => readPages_next hlimit hitems hread hsome)
      · rw [readPages_stop (by omega), readPages_stop (by omega)]
        refine agree_of_run (.ok ((extractDataArray initial).getD [], initial), []) ?_ hlimit
          fun _ _ _ => ?_
        · intro read hread
          obtain rfl := Except.ok.inj hread
          exact object_of_cursor hcursor
        · rw [List.length_nil]
          omega

end Iff

/-- The two mergers agree, and leave a cursor only at the limit, exactly on the mergeable calls. -/
theorem mergers_agree_iff (service : Service) (parse : String → Except String Value)
    (resolvedUrl token : String) (operation : OperationSchema) (initial : Value) (query : Query)
    (limit : Nat) (sent : List HttpRequest) :
    Agree limit
      (fetchAllPages service parse resolvedUrl token operation initial query limit sent)
      (fetchAllPagesAtPath service parse resolvedUrl token operation initial query limit "$.data"
        sent) ↔
      Mergeable service parse resolvedUrl token operation initial query limit sent :=
  ⟨mergeable_of_agree, agree_of_mergeable⟩

section Listing

def listOperation : OperationSchema :=
  { id := "List", name := "list", summary := "", description := none, mutationClass := .readOnly
    httpMethod := .get, pathTemplate := "/ams/images"
    parameters := [⟨"offset", .query, false, .integer, false, none, none⟩], requestBody := none
    permissions := [], scope := "admin", apiVersion := 1, deprecated := false
    responseContentType := none }

def firstListing : Value :=
  .ofPairs [("data", .array [.bool true]), ("paging", .ofPairs [("next", .string "/next")])]

def emptyListing : Value := .ofPairs [("data", .array []), ("paging", .object [])]

def emptyService : Service := fun _ _ =>
  .ok ⟨200, .text "\x7b\"data\":[],\"paging\":\x7b\x7d\x7d"⟩

def parseListing (text : String) : Except String Value :=
  if text = "\x7b\"data\":[],\"paging\":\x7b\x7d\x7d" then .ok emptyListing
  else .error "not a listing"

def listed (query : Query) : Except RuntimeError Value × List HttpRequest :=
  fetchAllPages emptyService parseListing "https://demo.test/ams/images" "t0" listOperation
    firstListing query 0 []

def listedAtPath (query : Query) : Except RuntimeError Value × List HttpRequest :=
  fetchAllPagesAtPath emptyService parseListing "https://demo.test/ams/images" "t0" listOperation
    firstListing query 0 "$.data" []

/-- With a `count` of five one merger asks for offset 100 and the other for offset 5; and without
one an empty second page leaves both with the cursor that led to it. -/
theorem mergers_differ :
    ((listed [("count", "5")]).2.head?.map (·.query) = some [("count", "5"), ("offset", "100")] ∧
      (listedAtPath [("count", "5")]).2.head?.map (·.query) =
        some [("count", "5"), ("offset", "5")]) ∧
    ¬Agree 0 (listed [("count", "5")]) (listedAtPath [("count", "5")]) ∧
    ¬Agree 0 (listed []) (listedAtPath []) := by
  have hcursor : extractNextCursor firstListing = some "/next" := by decide
  have hstrategy : detectStrategy listOperation = some .offset := by decide
  have hlimit : 1 < effectivePageLimit 0 := by decide
  refine ⟨⟨?_, ?_⟩, ?_, ?_⟩
  · rw [listed, fetchAllPages_eq hcursor hstrategy, readPages_head _ _ hlimit]
    decide
  · rw [listedAtPath, fetchAllPagesAtPath_eq hcursor hstrategy, readPages_head _ _ hlimit]
    decide
  · intro h
    obtain ⟨strategy, hsome, hsize, -⟩ := mergeable_of_agree h "/next" hcursor hlimit
    obtain rfl := Option.some.inj (hstrategy.symm.trans hsome)
    exact absurd (hsize rfl) (by decide)
  · intro h
    obtain ⟨strategy, hsome, -, hitems⟩ := mergeable_of_agree h "/next" hcursor hlimit
    obtain ⟨item, data, hdata⟩ := hitems 2 emptyListing (.next rfl) (by decide)
    cases hdata

end Listing

end PageMergers
