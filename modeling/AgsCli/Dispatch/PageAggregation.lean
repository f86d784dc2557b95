import AgsCli.Dispatch.Pagination
import AgsCli.Protocol.JsonText

/-! # Aggregated pages

What the page loop collects from a server that answers an offset and a limit with that slice of
its items, and exactly when that is every item from the caller's offset on. -/
namespace PageAggregation

open Json CatalogueTypes ProtocolError RequestTypes Http Pagination Strings

def param (query : Query) (name : String) : Option String :=
  (query.find? (·.1 = name)).map (·.2)

/-- How a server reads its offset and limit; any reading that knows decimal numbers. -/
structure OffsetServer where
  readOffset : Option String → Nat
  readLimit : Option String → Nat
  offset_none : readOffset none = 0
  offset_some : ∀ n : Nat, readOffset (some (toString n)) = n
  limit_some : ∀ n : Nat, readLimit (some (toString n)) = n

namespace OffsetServer

variable (server : OffsetServer)

def start (query : Query) : Nat := server.readOffset (param query "offset")

/-- The page size it uses; without a limit its own default. -/
def size (query : Query) : Nat := server.readLimit (param query "limit")

end OffsetServer

/-- The response is the slice the query asks for, with a cursor while items remain. -/
structure Answers (server : OffsetServer) (items : List Value) (query : Query)
    (response : Value) : Prop where
  data : extractDataArray response = some ((items.drop (server.start query)).take
    (server.size query))
  next : (extractNextCursor response).isSome ↔
    server.start query + server.size query < items.length

/-- The transport reaches such a server, whatever the query. -/
def Serves (server : OffsetServer) (items : List Value) (client : HttpClient)
    (parse : String → Except String Value) (resolvedUrl token : String) : Prop :=
  ∀ query, ∃ status text response,
    client ⟨.get, resolvedUrl, [("Authorization", bearer token)], query, none⟩ =
      .ok ⟨status, .text text⟩ ∧ (200 ≤ status ∧ status < 300) ∧
      parse text = .ok response ∧ Answers server items query response

def CapReached (events : List ProgressEvent) : Prop := ∃ text, .message text ∈ events

/-- Every offset the run computed fits in a `u64`: page `n` is at `n - 1` page sizes. -/
def OffsetsFit (pageSize : Nat) (events : List ProgressEvent) : Prop :=
  ∀ n total, .page n total ∈ events → (n - 1) * pageSize < 2 ^ 64

/-- Unless the page cap is reached the result has every item from `start` on, exactly once and in
order; and no offset overflows. -/
def Complete (items : List Value) (start pageSize : Nat)
    (run : Except RuntimeError Value × List ProgressEvent) : Prop :=
  (¬ CapReached run.2 →
    ∃ response, run.1 = .ok response ∧ extractDataArray response = some (items.drop start)) ∧
  OffsetsFit pageSize run.2

section Collecting

variable {α : Type} (items : List α) (size pageSize cap : Nat)

structure Collected (α : Type) where
  items : List α
  capped : Bool
  asked : List Nat

def collect (found : List α) (fetched : Nat) : Collected α :=
  if cap ≤ fetched then ⟨found, true, []⟩
  else
    let start := wrappingMul fetched pageSize
    let page := (items.drop start).take size
    if page = [] then ⟨found, false, [fetched]⟩
    else if start + size < items.length then
      let rest := collect (found ++ page) (fetched + 1)
      { rest with asked := fetched :: rest.asked }
    else ⟨found ++ page, false, [fetched]⟩
termination_by cap - fetched

variable {items : List α} {size pageSize cap : Nat}

theorem collect_capped {found : List α} {fetched : Nat} (h : cap ≤ fetched) :
    collect items size pageSize cap found fetched = ⟨found, true, []⟩ := by
  rw [collect, if_pos h]

theorem collect_empty {found : List α} {fetched : Nat} (h : fetched < cap)
    (hempty : (items.drop (wrappingMul fetched pageSize)).take size = []) :
    collect items size pageSize cap found fetched = ⟨found, false, [fetched]⟩ := by
  rw [collect, if_neg (Nat.not_le_of_lt h)]
  simp only [hempty, if_true]

theorem collect_last {found : List α} {fetched : Nat} (h : fetched < cap)
    (hpage : (items.drop (wrappingMul fetched pageSize)).take size ≠ [])
    (hlast : ¬ wrappingMul fetched pageSize + size < items.length) :
    collect items size pageSize cap found fetched =
      ⟨found ++ (items.drop (wrappingMul fetched pageSize)).take size, false, [fetched]⟩ := by
  rw [collect, if_neg (Nat.not_le_of_lt h)]
  simp only [hpage, hlast, if_false]

theorem collect_more {found : List α} {fetched : Nat} (h : fetched < cap)
    (hpage : (items.drop (wrappingMul fetched pageSize)).take size ≠ [])
    (hmore : wrappingMul fetched pageSize + size < items.length) :
    collect items size pageSize cap found fetched =
      { collect items size pageSize cap
          (found ++ (items.drop (wrappingMul fetched pageSize)).take size) (fetched + 1) with
        asked := fetched :: (collect items size pageSize cap
          (found ++ (items.drop (wrappingMul fetched pageSize)).take size) (fetched + 1)).asked } := by
  rw [collect, if_neg (Nat.not_le_of_lt h)]
  simp only [hpage, hmore, if_false, if_true]

end Collecting

section Loop

structure Collects (run : Except RuntimeError Value × List ProgressEvent)
    (c : Collected Value) : Prop where
  response : ∃ v, run.1 = .ok v ∧ extractDataArray v = some c.items
  capped : CapReached run.2 ↔ c.capped = true
  asked : ∀ n total, .page n total ∈ run.2 ↔ total = none ∧ ∃ k ∈ c.asked, n = k + 1

theorem extractDataArray_merged (items : List Value) (paging : Value) :
    extractDataArray (buildMergedResponse items paging) = some items := by
  have hget : (buildMergedResponse items paging).get? "data" = some (.array items) := by
    simp only [buildMergedResponse, Value.ofPairs, Value.get?, List.foldl_cons, List.foldl_nil]
    rw [OrderedMap.Entries.lookup_insert_of_ne (by decide),
      OrderedMap.Entries.lookup_insert_self]
  rw [extractDataArray, hget]

theorem param_offset (query : Query) (cursor : String) (k pageSize : Nat) :
    param (buildNextQuery query .offset cursor k pageSize) "offset" =
      some (toString (wrappingMul k pageSize)) := by
  have hnone : (query.filter (·.1 ≠ "offset")).find? (·.1 = "offset") = none := by
    simp
  simp only [param, buildNextQuery, List.find?_append, hnone]
  rfl

theorem param_limit (query : Query) (cursor : String) (k pageSize : Nat) :
    param (buildNextQuery query .offset cursor k pageSize) "limit" = param query "limit" := by
  have hfilter : (query.filter (·.1 ≠ "offset")).find? (·.1 = "limit") =
      query.find? (·.1 = "limit") := by
    induction query with
    | nil => rfl
    | cons e rest ih =>
      by_cases hoffset : e.1 = "offset"
      · simp [hoffset]
        simpa using ih
      · by_cases hlimit : e.1 = "limit"
        · simp [hlimit]
        · simp [hoffset, hlimit]
          simpa using ih
  simp only [param, buildNextQuery, List.find?_append, hfilter]
  cases query.find? (·.1 = "limit") with
  | none => rfl
  | some e => rfl

variable {server : OffsetServer} {items : List Value} {client : HttpClient}
  {parse : String → Except String Value} {resolvedUrl token : String}

theorem start_next (query : Query) (cursor : String) (k pageSize : Nat) :
    server.start (buildNextQuery query .offset cursor k pageSize) = wrappingMul k pageSize := by
  rw [OffsetServer.start, param_offset, server.offset_some]

theorem size_next (query : Query) (cursor : String) (k pageSize : Nat) :
    server.size (buildNextQuery query .offset cursor k pageSize) = server.size query := by
  rw [OffsetServer.size, param_limit, OffsetServer.size]

theorem fetchNextPage_served (h : Serves server items client parse resolvedUrl token)
    (query : Query) (n : Nat) : ∃ page,
      fetchNextPage client parse resolvedUrl token query n = .ok page ∧
        Answers server items query page := by
  obtain ⟨status, text, response, hclient, hstatus, hparse, hanswers⟩ := h query
  refine ⟨response, ?_, hanswers⟩
  simp only [fetchNextPage, hclient, hstatus, hparse, not_true, if_false, and_self]

/-- The loop collects page by page what `collect` does. -/
theorem paginateLoop_collects (h : Serves server items client parse resolvedUrl token)
    (query : Query) (pageSize pageLimit : Nat) (cursor : String) (found : List Value)
    (paging : Value) (fetched : Nat) :
    Collects (paginateLoop client parse resolvedUrl token .offset query pageSize pageLimit cursor
      found paging fetched) (collect items (server.size query) pageSize
        (effectivePageLimit pageLimit) found fetched) := by
  generalize hleft : effectivePageLimit pageLimit - fetched = left
  induction left generalizing cursor found paging fetched with
  | zero =>
    have hcap : effectivePageLimit pageLimit ≤ fetched := by omega
    rw [collect_capped hcap, paginateLoop, if_pos hcap]
    exact ⟨⟨_, rfl, extractDataArray_merged found paging⟩,
      ⟨fun _ => rfl, fun _ => ⟨_, List.mem_singleton_self _⟩⟩, by simp⟩
  | succ left ih =>
    have hcap : fetched < effectivePageLimit pageLimit := by omega
    obtain ⟨page, hpage, hdata, hnext⟩ := fetchNextPage_served h
      (buildNextQuery query .offset cursor fetched pageSize) (fetched + 1)
    rw [start_next, size_next] at hdata hnext
    have hasked : ∀ n total, ProgressEvent.page n total ∈ [ProgressEvent.page (fetched + 1) none] ↔
        total = none ∧ ∃ k ∈ [fetched], n = k + 1 := by
      simp [and_comm]
    have huncapped : CapReached [ProgressEvent.page (fetched + 1) none] ↔ False := by
      simp [CapReached]
    rw [paginateLoop, if_neg (Nat.not_le_of_lt hcap)]
    simp only [hpage, hdata]
    generalize hslice : (items.drop (wrappingMul fetched pageSize)).take (server.size query) =
      slice at hdata ⊢
    cases slice with
    | nil =>
      rw [collect_empty hcap hslice]
      exact ⟨⟨_, rfl, extractDataArray_merged found paging⟩, by simp [huncapped], hasked⟩
    | cons item rest =>
      have hne : (items.drop (wrappingMul fetched pageSize)).take (server.size query) ≠ [] := by
        rw [hslice]
        exact List.cons_ne_nil item rest
      by_cases hmore : wrappingMul fetched pageSize + server.size query < items.length
      · obtain ⟨next, hcursor⟩ := Option.isSome_iff_exists.mp (hnext.mpr hmore)
        have ih := ih next (found ++ item :: rest) ((page.get? "paging").getD (.object []))
          (fetched + 1) (by omega)
        rw [collect_more hcap hne hmore, hslice]
        simp only [hcursor]
        refine ⟨ih.response, ?_, ?_⟩
        · simpa [CapReached] using ih.capped
        · intro n total
          have hrest := ih.asked n total
          simp only [List.mem_cons, hrest, ProgressEvent.page.injEq, exists_eq_or_imp]
          constructor
          · rintro (⟨hn, htotal⟩ | ⟨htotal, k, hk, hn⟩)
            · exact ⟨htotal, Or.inl hn⟩
            · exact ⟨htotal, Or.inr ⟨k, hk, hn⟩⟩
          · rintro ⟨htotal, hn | ⟨k, hk, hn⟩⟩
            · exact Or.inl ⟨hn, htotal⟩
            · exact Or.inr ⟨htotal, k, hk, hn⟩
      · have hcursor : extractNextCursor page = none := by
          rw [← Option.not_isSome_iff_eq_none]
          exact fun hsome => hmore (hnext.mp hsome)
        rw [collect_last hcap hne hmore, hslice]
        simp only [hcursor]
        exact ⟨⟨_, rfl, extractDataArray_merged _ _⟩, by simp [huncapped], hasked⟩

end Loop

/-- The run stops at its cap: the last page it may ask for leaves items. -/
def PageCapCuts (count start size pageSize cap : Nat) : Prop :=
  start + size < count ∧ (cap = 1 ∨ 0 < size ∧ (cap - 1) * pageSize + size < count)

/-- No page that is asked for lies beyond the range of a `u64`. -/
def OffsetsStayBelow (count start size pageSize cap : Nat) : Prop :=
  start + size < count → 0 < size → ∀ k < cap, 2 ≤ k → (k - 1) * pageSize + size < count →
    k * pageSize < 2 ^ 64

/-- One page is enough, or the second one starts where the first ends and is the last, or the
caller starts at 0 and the assumed page size is the server's. -/
def Aligned (count start size pageSize : Nat) : Prop :=
  count ≤ start + size ∨ (start + size = pageSize ∧ count ≤ pageSize + size) ∨
    (start = 0 ∧ size = pageSize ∧ 0 < size)

instance (count start size pageSize cap : Nat) :
    Decidable (PageCapCuts count start size pageSize cap) := inferInstanceAs (Decidable (_ ∧ _))

instance (count start size pageSize cap : Nat) :
    Decidable (OffsetsStayBelow count start size pageSize cap) :=
  inferInstanceAs (Decidable (_ → _ → ∀ k < cap, _ → _ → _))

instance (count start size pageSize : Nat) : Decidable (Aligned count start size pageSize) :=
  inferInstanceAs (Decidable (_ ∨ _ ∨ _))

section Analysis

variable {α : Type} {items : List α} {size pageSize cap : Nat}

/-- Where the loop stands: at its second page, or the page before left items. -/
def Reached (items : List α) (size pageSize fetched : Nat) : Prop :=
  fetched = 1 ∨ 0 < size ∧ (fetched - 1) * pageSize + size < items.length

/-- The pages that can be asked for have offsets in range. -/
def Below (items : List α) (size pageSize cap : Nat) : Prop :=
  0 < size → ∀ k < cap, 2 ≤ k → (k - 1) * pageSize + size < items.length → k * pageSize < 2 ^ 64

theorem Below.offset (h : Below items size pageSize cap) (hpageSize : pageSize < 2 ^ 64)
    {fetched : Nat} (hreached : Reached items size pageSize fetched) (hpos : 1 ≤ fetched)
    (hcap : fetched < cap) : fetched * pageSize < 2 ^ 64 := by
  by_cases hone : fetched = 1
  · rw [hone, one_mul]
    exact hpageSize
  · rcases hreached with hfirst | ⟨hsize, hmore⟩
    · exact absurd hfirst hone
    · exact h hsize fetched hcap (by omega) hmore

theorem wrappingMul_eq {a b : Nat} (h : a * b < 2 ^ 64) : wrappingMul a b = a * b :=
  Nat.mod_eq_of_lt h

theorem slice_ne_nil {start : Nat} (hsize : 0 < size) (hstart : start < items.length) :
    (items.drop start).take size ≠ [] := by
  intro h
  have hlength := congrArg List.length h
  simp only [List.length_take, List.length_drop, List.length_nil] at hlength
  omega

theorem size_pos_of_slice {start : Nat} (h : (items.drop start).take size ≠ []) : 0 < size := by
  by_contra hzero
  have hsize : size = 0 := by omega
  rw [hsize] at h
  exact h rfl

inductive Turn (items : List α) (size pageSize cap : Nat) (found : List α) (fetched : Nat) : Prop
  | capped (hcap : cap ≤ fetched)
      (heq : collect items size pageSize cap found fetched = ⟨found, true, []⟩)
  | empty (hcap : fetched < cap) (hempty : (items.drop (fetched * pageSize)).take size = [])
      (heq : collect items size pageSize cap found fetched = ⟨found, false, [fetched]⟩)
  | last (hcap : fetched < cap) (hpage : (items.drop (fetched * pageSize)).take size ≠ [])
      (hlast : items.length ≤ fetched * pageSize + size)
      (heq : collect items size pageSize cap found fetched =
        ⟨found ++ (items.drop (fetched * pageSize)).take size, false, [fetched]⟩)
  | more (hcap : fetched < cap) (hsize : 0 < size)
      (hmore : fetched * pageSize + size < items.length)
      (heq : collect items size pageSize cap found fetched =
        { collect items size pageSize cap
            (found ++ (items.drop (fetched * pageSize)).take size) (fetched + 1) with
          asked := fetched :: (collect items size pageSize cap
            (found ++ (items.drop (fetched * pageSize)).take size) (fetched + 1)).asked })

theorem turn (items found : List α) (size pageSize cap : Nat) {fetched : Nat}
    (hoffset : fetched < cap → fetched * pageSize < 2 ^ 64) :
    Turn items size pageSize cap found fetched := by
  by_cases hcap : cap ≤ fetched
  · exact .capped hcap (collect_capped hcap)
  · have hcap : fetched < cap := Nat.lt_of_not_le hcap
    have hwrap := wrappingMul_eq (hoffset hcap)
    by_cases hempty : (items.drop (fetched * pageSize)).take size = []
    · exact .empty hcap hempty (collect_empty hcap (by rwa [hwrap]))
    · by_cases hmore : fetched * pageSize + size < items.length
      · refine .more hcap (size_pos_of_slice hempty) hmore ?_
        rw [collect_more hcap (by rwa [hwrap]) (by rwa [hwrap]), hwrap]
      · refine .last hcap hempty (by omega) ?_
        rw [collect_last hcap (by rwa [hwrap]) (by rwa [hwrap]), hwrap]

variable (hbelow : Below items size pageSize cap) (hpageSize : pageSize < 2 ^ 64)

include hbelow hpageSize in
/-- What a turn that goes on preserves holds of the loop. -/
theorem collect_induction {motive : List α → Nat → Prop}
    (stops : ∀ found fetched, Reached items size pageSize fetched →
      (fetched < cap → fetched * pageSize < 2 ^ 64) → Turn items size pageSize cap found fetched →
      (0 < size → fetched < cap → fetched * pageSize + size < items.length →
        motive (found ++ (items.drop (fetched * pageSize)).take size) (fetched + 1)) →
      motive found fetched)
    (found : List α) (fetched : Nat) (hpos : 1 ≤ fetched)
    (hreached : Reached items size pageSize fetched) : motive found fetched := by
  generalize hleft : cap - fetched = left
  induction left generalizing found fetched with
  | zero =>
    have hoffset : fetched < cap → fetched * pageSize < 2 ^ 64 := fun hcap => by omega
    exact stops found fetched hreached hoffset (turn items found size pageSize cap hoffset) fun _ hcap => by omega
  | succ left ih =>
    have hoffset := hbelow.offset hpageSize hreached hpos
    refine stops found fetched hreached hoffset (turn items found size pageSize cap hoffset) ?_
    intro hsize hcap hmore
    exact ih _ _ (by omega) (Or.inr ⟨hsize, hmore⟩) (by omega)

include hbelow hpageSize in
theorem asked_below (found : List α) :
    ∀ k ∈ (collect items size pageSize cap found 1).asked, k * pageSize < 2 ^ 64 := by
  refine collect_induction (motive := fun found fetched =>
    ∀ k ∈ (collect items size pageSize cap found fetched).asked, k * pageSize < 2 ^ 64)
    hbelow hpageSize ?_ found 1 (Nat.le_refl 1) (Or.inl rfl)
  intro found fetched _ hoffset hturn ih k hk
  cases hturn with
  | capped hcap heq =>
    rw [heq] at hk
    cases hk
  | empty hcap hempty heq =>
    rw [heq] at hk
    rw [List.mem_singleton.mp hk]
    exact hoffset hcap
  | last hcap hpage hlast heq =>
    rw [heq] at hk
    rw [List.mem_singleton.mp hk]
    exact hoffset hcap
  | more hcap hsize hmore heq =>
    rw [heq] at hk
    rcases List.mem_cons.mp hk with rfl | hk
    · exact hoffset hcap
    · exact ih hsize hcap hmore k hk

include hbelow hpageSize in
/-- A run that its cap does not cut does not reach it. -/
theorem not_capped (hone : 1 < cap) (hcut : ¬ (0 < size ∧ (cap - 1) * pageSize + size < items.length))
    (found : List α) : (collect items size pageSize cap found 1).capped = false := by
  refine collect_induction (motive := fun found fetched =>
    (collect items size pageSize cap found fetched).capped = false)
    hbelow hpageSize ?_ found 1 (Nat.le_refl 1) (Or.inl rfl)
  intro found fetched hreached _ hturn ih
  cases hturn with
  | capped hcap heq =>
    rcases hreached with hfirst | ⟨hsize, hmore⟩
    · omega
    · have hle : (cap - 1) * pageSize ≤ (fetched - 1) * pageSize :=
        Nat.mul_le_mul_right _ (by omega)
      exact absurd ⟨hsize, by omega⟩ hcut
  | empty hcap hempty heq => rw [heq]
  | last hcap hpage hlast heq => rw [heq]
  | more hcap hsize hmore heq =>
    rw [heq]
    exact ih hsize hcap hmore

include hbelow hpageSize in
/-- A run that its cap cuts reaches it. -/
theorem is_capped (hsize : 0 < size) (hcut : (cap - 1) * pageSize + size < items.length)
    (found : List α) : (collect items size pageSize cap found 1).capped = true := by
  refine collect_induction (motive := fun found fetched =>
    (collect items size pageSize cap found fetched).capped = true)
    hbelow hpageSize ?_ found 1 (Nat.le_refl 1) (Or.inl rfl)
  intro found fetched _ _ hturn ih
  have hleft : fetched < cap → fetched * pageSize + size < items.length := by
    intro hcap
    have hle : fetched * pageSize ≤ (cap - 1) * pageSize := Nat.mul_le_mul_right _ (by omega)
    omega
  cases hturn with
  | capped hcap heq => rw [heq]
  | empty hcap hempty heq => exact absurd hempty (slice_ne_nil hsize (by have := hleft hcap; omega))
  | last hcap hpage hlast heq => exact absurd (hleft hcap) (by omega)
  | more hcap hsize' hmore heq =>
    rw [heq]
    exact ih hsize hcap hmore

/-- Pages of the server's size, from the start, are all the items. -/
theorem collect_aligned (hsize : 0 < size)
    (hbelow : Below items size size cap) (hpageSize : size < 2 ^ 64)
    (hlength : size < items.length)
    (huncapped : (collect items size size cap (items.take size) 1).capped = false) :
    (collect items size size cap (items.take size) 1).items = items := by
  have hall : ∀ found fetched, 1 ≤ fetched → Reached items size size fetched →
      found = items.take (fetched * size) → fetched * size < items.length →
      (collect items size size cap found fetched).capped = false →
      (collect items size size cap found fetched).items = items := by
    intro found fetched hpos hreached
    refine collect_induction (motive := fun found fetched =>
      found = items.take (fetched * size) → fetched * size < items.length →
      (collect items size size cap found fetched).capped = false →
      (collect items size size cap found fetched).items = items)
      hbelow hpageSize ?_ found fetched hpos hreached
    intro found fetched _ _ hturn ih hfound hstart huncapped
    have hpage : found ++ (items.drop (fetched * size)).take size =
        items.take ((fetched + 1) * size) := by
      rw [hfound, ← List.take_add, Nat.succ_mul]
    cases hturn with
    | capped hcap heq =>
      rw [heq] at huncapped
      cases huncapped
    | empty hcap hempty heq => exact absurd hempty (slice_ne_nil hsize hstart)
    | last hcap hne hlast heq =>
      rw [heq, hpage]
      exact List.take_of_length_le (by rw [Nat.succ_mul]; exact hlast)
    | more hcap _ hmore heq =>
      rw [heq] at huncapped ⊢
      exact ih hsize hcap hmore hpage (by rw [Nat.succ_mul]; exact hmore) huncapped
  exact hall _ 1 (Nat.le_refl 1) (Or.inl rfl) (by rw [one_mul]) (by rwa [one_mul]) huncapped

theorem mem_asked {found : List α} {fetched : Nat} (hcap : fetched < cap) :
    fetched ∈ (collect items size pageSize cap found fetched).asked := by
  rw [collect, if_neg (Nat.not_le_of_lt hcap)]
  dsimp only
  split_ifs
  · exact List.mem_singleton_self fetched
  · exact List.mem_cons_self
  · exact List.mem_singleton_self fetched

/-- Unless an earlier offset overflows, a page is asked for when the one before left items. -/
theorem asked_of_left {k : Nat} (hsize : 0 < size) (hk : k < cap) {found : List α}
    {fetched : Nat} (hle : fetched ≤ k) (hpos : 1 ≤ fetched)
    (hleft : k = fetched ∨ (k - 1) * pageSize + size < items.length)
    (hbelow : ∀ j ∈ (collect items size pageSize cap found fetched).asked,
      j * pageSize < 2 ^ 64) : k ∈ (collect items size pageSize cap found fetched).asked := by
  generalize hsteps : k - fetched = steps
  induction steps generalizing found fetched with
  | zero =>
    have heq : k = fetched := by omega
    rw [heq] at hk ⊢
    exact mem_asked hk
  | succ steps ih =>
    have hcap : fetched < cap := by omega
    rcases hleft with heq | hleft
    · omega
    have hoffset := hbelow fetched (mem_asked hcap)
    have hmul : fetched * pageSize ≤ (k - 1) * pageSize := Nat.mul_le_mul_right _ (by omega)
    cases turn items found size pageSize cap fun _ => hoffset with
    | capped hge heq => omega
    | empty _ hempty heq => exact absurd hempty (slice_ne_nil hsize (by omega))
    | last _ hpage hlast heq => omega
    | more _ _ hmore heq =>
      rw [heq] at hbelow ⊢
      exact List.mem_cons_of_mem _ (ih (by omega) (by omega) (Or.inr hleft)
        (fun j hj => hbelow j (List.mem_cons_of_mem _ hj)) (by omega))

theorem prefix_collect (items : List α) (size pageSize cap : Nat) (found : List α) (fetched : Nat) :
    found <+: (collect items size pageSize cap found fetched).items := by
  generalize hleft : cap - fetched = left
  induction left generalizing found fetched with
  | zero =>
    have hitems : found = (collect items size pageSize cap found fetched).items := by
      rw [collect_capped (by omega)]
    exact ⟨[], by rw [List.append_nil]; exact hitems⟩
  | succ left ih =>
    rw [collect, if_neg (by omega)]
    dsimp only
    split_ifs
    · exact List.prefix_rfl
    · exact (List.prefix_append _ _).trans (ih _ _ (by omega))
    · exact List.prefix_append _ _

def Distinct (items : List α) : Prop :=
  ∀ i j : Nat, i < items.length → items[i]? = items[j]? → i = j

/-- A page appended after `n` items of a suffix starts `n` items after the suffix does. -/
theorem start_of_prefix {found : List α} {start first : Nat} (hdistinct : Distinct items)
    (hsize : 0 < size) (hpage : start < items.length)
    (hpre : found ++ (items.drop start).take size <+: items.drop first) :
    start = first + found.length := by
  obtain ⟨rest, hrest⟩ := hpre
  refine hdistinct start (first + found.length) hpage ?_
  rw [← List.getElem?_drop, ← hrest, List.append_assoc, List.getElem?_append_right (Nat.le_refl _),
    Nat.sub_self]
  have hcons : (items.drop start).take size ++ rest ≠ [] := by
    simp [slice_ne_nil hsize hpage]
  rw [List.getElem?_append_left (by
    rw [List.length_take, List.length_drop]
    omega), List.getElem?_take_of_lt hsize, List.getElem?_drop, Nat.add_zero]

include hbelow hpageSize in
theorem aligned_of_collect {start : Nat} (hdistinct : Distinct items) (hpos : 1 ≤ cap)
    (hleft : start + size < items.length)
    (hcut : ¬ PageCapCuts items.length start size pageSize cap)
    (hall : (collect items size pageSize cap ((items.drop start).take size) 1).items =
      items.drop start) : Aligned items.length start size pageSize := by
  have hone : 1 < cap := by
    by_contra hle
    exact hcut ⟨hleft, Or.inl (by omega)⟩
  have hlength : ((items.drop start).take size).length = size := by
    rw [List.length_take, List.length_drop]
    omega
  have hdrop : (items.drop start).length = items.length - start := List.length_drop
  have hfirst : 1 * pageSize < 2 ^ 64 :=
    hbelow.offset hpageSize (Or.inl rfl) (Nat.le_refl 1) hone
  cases turn items ((items.drop start).take size) size pageSize cap fun _ => hfirst with
  | capped hge heq => omega
  | empty _ hempty heq =>
    rw [heq] at hall
    rw [← hall, hlength] at hdrop
    omega
  | last _ hpage hlast heq =>
    have hsize := size_pos_of_slice hpage
    have hstart : 1 * pageSize < items.length := by
      by_contra hge
      exact hpage (by rw [List.drop_of_length_le (by omega), List.take_nil])
    rw [heq] at hall
    have heq' := start_of_prefix hdistinct hsize hstart ⟨[], by rw [List.append_nil]; exact hall⟩
    rw [hlength, one_mul] at heq'
    exact Or.inr (Or.inl ⟨heq'.symm, by omega⟩)
  | more _ hsize hmore heq =>
    have htwo : 1 + 1 < cap := by
      by_contra hle
      exact hcut ⟨hleft, Or.inr ⟨hsize, by rw [show cap - 1 = 1 by omega]; exact hmore⟩⟩
    rw [heq] at hall
    dsimp only at hall
    have hpre := prefix_collect items size pageSize cap
      ((items.drop start).take size ++ (items.drop (1 * pageSize)).take size) (1 + 1)
    rw [hall] at hpre
    have heq' := start_of_prefix hdistinct hsize (by omega) hpre
    rw [hlength, one_mul] at heq'
    have hlength' : ((items.drop start).take size ++
        (items.drop (1 * pageSize)).take size).length = 2 * size := by
      rw [List.length_append, hlength, List.length_take, List.length_drop]
      omega
    have hsecond : (1 + 1) * pageSize < 2 ^ 64 := hbelow.offset hpageSize (Or.inr ⟨hsize, by
      rw [Nat.add_sub_cancel]; exact hmore⟩) (by omega) htwo
    have haligned : (1 + 1) * pageSize < items.length →
        (items.drop start).take size ++ (items.drop (1 * pageSize)).take size ++
          (items.drop ((1 + 1) * pageSize)).take size <+: items.drop start →
        Aligned items.length start size pageSize := by
      intro hin hthird
      have hthird := start_of_prefix hdistinct hsize hin hthird
      rw [hlength'] at hthird
      exact Or.inr (Or.inr ⟨by omega, by omega, hsize⟩)
    cases turn items ((items.drop start).take size ++ (items.drop (1 * pageSize)).take size)
      size pageSize cap fun _ => hsecond with
    | capped hge heq => omega
    | empty _ hempty heq =>
      rw [heq] at hall
      rw [← hall, hlength'] at hdrop
      omega
    | last _ hpage hlast heq =>
      have hstart : (1 + 1) * pageSize < items.length := by
        by_contra hge
        exact hpage (by rw [List.drop_of_length_le (by omega), List.take_nil])
      rw [heq] at hall
      exact haligned hstart ⟨[], by rw [List.append_nil]; exact hall⟩
    | more _ _ hmore' heq =>
      rw [heq] at hall
      dsimp only at hall
      refine haligned (by omega) ?_
      have hthird := prefix_collect items size pageSize cap
        ((items.drop start).take size ++ (items.drop (1 * pageSize)).take size ++
          (items.drop ((1 + 1) * pageSize)).take size) (1 + 1 + 1)
      rwa [hall] at hthird

end Analysis

theorem pageSize_lt (query : Query) : pageSizeFromQuery query < 2 ^ 64 := by
  unfold pageSizeFromQuery
  cases h : (query.find? (·.1 = "limit")).bind fun e => parseUsize e.2.toList with
  | none => decide
  | some n =>
    obtain ⟨e, -, hparse⟩ := Option.bind_eq_some_iff.mp h
    unfold parseUsize at hparse
    dsimp only at hparse
    split at hparse
    · split_ifs at hparse with hlt
      rw [← Option.some.inj hparse]
      exact hlt
    · cases hparse

theorem effectivePageLimit_pos (pageLimit : Nat) : 1 ≤ effectivePageLimit pageLimit := by
  unfold effectivePageLimit hardPageCap
  split_ifs
  · omega
  · omega

/-- When the page loop meets the server's items completely, in terms of what goes in: the number
of items, where the caller starts, the page size in effect and the one assumed, and the cap. -/
def Condition (count start size pageSize cap : Nat) : Prop :=
  OffsetsStayBelow count start size pageSize cap ∧
    (PageCapCuts count start size pageSize cap ∨ Aligned count start size pageSize)

instance (count start size pageSize cap : Nat) :
    Decidable (Condition count start size pageSize cap) := inferInstanceAs (Decidable (_ ∧ _))

section Runs

variable {server : OffsetServer} {items : List Value} {client : HttpClient}
  {parse : String → Except String Value} {resolvedUrl token : String}
  {operation : OperationSchema} {initial : Value} {query : Query} {pageLimit : Nat}

/-- One page was enough: its response is the result. -/
theorem fetchAllPages_single (hinitial : Answers server items query initial)
    (hsingle : ¬ server.start query + server.size query < items.length) :
    fetchAllPages client parse resolvedUrl token operation initial query pageLimit =
      (.ok initial, []) := by
  have hcursor : extractNextCursor initial = none := by
    rw [← Option.not_isSome_iff_eq_none]
    exact fun hsome => hsingle (hinitial.next.mp hsome)
  rw [fetchAllPages, hcursor]

/-- The run goes on as `collect` does from the first page's items. -/
theorem fetchAllPages_collects (pageLimit : Nat)
    (hserves : Serves server items client parse resolvedUrl token)
    (hoffset : detectStrategy operation = some .offset)
    (hinitial : Answers server items query initial)
    (hmore : server.start query + server.size query < items.length) :
    Collects (fetchAllPages client parse resolvedUrl token operation initial query pageLimit)
      (collect items (server.size query) (pageSizeFromQuery query) (effectivePageLimit pageLimit)
        ((items.drop (server.start query)).take (server.size query)) 1) := by
  obtain ⟨cursor, hcursor⟩ := Option.isSome_iff_exists.mp (hinitial.next.mpr hmore)
  simp only [fetchAllPages, hcursor, hoffset, hinitial.data, Option.getD_some]
  exact paginateLoop_collects hserves _ _ _ _ _ _ _

theorem OffsetsStayBelow.below {start size pageSize cap : Nat}
    (h : OffsetsStayBelow items.length start size pageSize cap)
    (hmore : start + size < items.length) : Below items size pageSize cap := fun hsize k hk htwo =>
  h hmore hsize k hk htwo

theorem complete_of_condition (hserves : Serves server items client parse resolvedUrl token)
    (hoffset : detectStrategy operation = some .offset)
    (hinitial : Answers server items query initial)
    (h : Condition items.length (server.start query) (server.size query)
      (pageSizeFromQuery query) (effectivePageLimit pageLimit)) :
    Complete items (server.start query) (pageSizeFromQuery query)
      (fetchAllPages client parse resolvedUrl token operation initial query pageLimit) := by
  by_cases hmore : server.start query + server.size query < items.length
  · have hbelow := h.1.below hmore
    have hpageSize := pageSize_lt query
    have hrun := fetchAllPages_collects pageLimit hserves hoffset hinitial hmore
    constructor
    · intro huncapped
      rw [hrun.capped, Bool.not_eq_true] at huncapped
      obtain ⟨response, hresponse, hdata⟩ := hrun.response
      refine ⟨response, hresponse, ?_⟩
      rw [hdata]
      rcases h.2 with ⟨-, hone | ⟨hsize, hcut⟩⟩ | hsingle | ⟨hnext, hlast⟩ | ⟨hzero, hsame, hsize⟩
      · rw [collect_capped (Nat.le_of_eq hone)] at huncapped
        cases huncapped
      · rw [is_capped hbelow hpageSize hsize hcut] at huncapped
        cases huncapped
      · omega
      · have hsize : 0 < server.size query := by omega
        have hoffset : 1 < effectivePageLimit pageLimit →
            1 * pageSizeFromQuery query < 2 ^ 64 := by
          intro _
          rw [one_mul]
          exact hpageSize
        cases turn items ((items.drop (server.start query)).take (server.size query))
          (server.size query) (pageSizeFromQuery query) (effectivePageLimit pageLimit) hoffset with
        | capped _ heq =>
          rw [heq] at huncapped
          cases huncapped
        | empty _ hempty heq => exact absurd hempty (slice_ne_nil hsize (by omega))
        | last _ _ _ heq =>
          rw [heq, one_mul, ← hnext, ← List.drop_drop, ← List.take_add]
          exact congrArg some (List.take_of_length_le (by rw [List.length_drop]; omega))
        | more _ _ hleft heq => omega
      · rw [← hsame] at hbelow hpageSize huncapped ⊢
        rw [hzero, List.drop_zero] at huncapped ⊢
        rw [collect_aligned hsize hbelow hpageSize (by omega) huncapped]
    · intro n total hpage
      obtain ⟨-, k, hk, hn⟩ := (hrun.asked n total).mp hpage
      rw [hn, Nat.add_sub_cancel]
      exact asked_below hbelow hpageSize _ k hk
  · rw [fetchAllPages_single hinitial hmore]
    refine ⟨fun _ => ⟨initial, rfl, ?_⟩, fun n total hpage => absurd hpage List.not_mem_nil⟩
    rw [hinitial.data]
    exact congrArg some (List.take_of_length_le (by rw [List.length_drop]; omega))

theorem condition_of_complete (hserves : Serves server items client parse resolvedUrl token)
    (hoffset : detectStrategy operation = some .offset)
    (hinitial : Answers server items query initial) (hdistinct : Distinct items)
    (h : Complete items (server.start query) (pageSizeFromQuery query)
      (fetchAllPages client parse resolvedUrl token operation initial query pageLimit)) :
    Condition items.length (server.start query) (server.size query) (pageSizeFromQuery query)
      (effectivePageLimit pageLimit) := by
  by_cases hmore : server.start query + server.size query < items.length
  · have hpageSize := pageSize_lt query
    have hpos := effectivePageLimit_pos pageLimit
    have hrun := fetchAllPages_collects pageLimit hserves hoffset hinitial hmore
    have hbelow : OffsetsStayBelow items.length (server.start query) (server.size query)
        (pageSizeFromQuery query) (effectivePageLimit pageLimit) := by
      intro _ hsize k hk htwo hleft
      have hasked : ∀ j ∈ (collect items (server.size query) (pageSizeFromQuery query)
          (effectivePageLimit pageLimit)
          ((items.drop (server.start query)).take (server.size query)) 1).asked,
          j * pageSizeFromQuery query < 2 ^ 64 := by
        intro j hj
        have hfits := h.2 (j + 1) none ((hrun.asked _ _).mpr ⟨rfl, j, hj, rfl⟩)
        rwa [Nat.add_sub_cancel] at hfits
      exact hasked k (asked_of_left hsize hk (by omega) (Nat.le_refl 1) (Or.inr hleft) hasked)
    refine ⟨hbelow, ?_⟩
    by_cases hcut : PageCapCuts items.length (server.start query) (server.size query)
        (pageSizeFromQuery query) (effectivePageLimit pageLimit)
    · exact Or.inl hcut
    · have huncapped := not_capped (hbelow.below hmore) hpageSize (by
        by_contra hle
        exact hcut ⟨hmore, Or.inl (by omega)⟩) (fun hleft => hcut ⟨hmore, Or.inr hleft⟩)
        ((items.drop (server.start query)).take (server.size query))
      obtain ⟨response, hresponse, hdata⟩ := h.1 (by
        rw [hrun.capped, huncapped]
        exact Bool.noConfusion)
      obtain ⟨response', hresponse', hdata'⟩ := hrun.response
      rw [hresponse] at hresponse'
      rw [← Except.ok.inj hresponse', hdata] at hdata'
      exact Or.inr (aligned_of_collect (hbelow.below hmore) hpageSize hdistinct hpos hmore hcut
        (Option.some.inj hdata').symm)
  · exact ⟨fun hless => absurd hless hmore, Or.inr (Or.inl (Nat.le_of_not_lt hmore))⟩

end Runs

section Numbers

variable (server : OffsetServer)

def numbers (count : Nat) : List Value := (List.range count).map fun n : Nat => .number (.int n)

theorem length_numbers (count : Nat) : (numbers count).length = count := by
  rw [numbers, List.length_map, List.length_range]

theorem distinct_numbers (count : Nat) : Distinct (numbers count) := by
  intro i j hi heq
  rw [length_numbers] at hi
  by_cases hj : j < count
  · simp only [numbers, List.getElem?_map, List.getElem?_range hi, List.getElem?_range hj,
      Option.map_some, Option.some.injEq, Value.number.injEq, Number.int.injEq] at heq
    omega
  · simp [numbers, hi, hj] at heq

def reply (items : List Value) (query : Query) : Value :=
  .object [("data", .array ((items.drop (server.start query)).take (server.size query))),
    ("paging", .object [("next", .string
      (if server.start query + server.size query < items.length then "next" else ""))])]

def jsonClient (items : List Value) : HttpClient := fun request =>
  .ok ⟨200, .text (reply server items request.query).render⟩

def parseJson (text : String) : Except String Value :=
  match readText text with
  | some v => .ok v
  | none => .error "expected value"

theorem answers_reply (items : List Value) (query : Query) :
    Answers server items query (reply server items query) := by
  refine ⟨rfl, ?_⟩
  unfold reply
  split_ifs with hmore
  · exact ⟨fun _ => hmore, fun _ => rfl⟩
  · exact ⟨fun h => Bool.noConfusion (show false = true from h), fun h => absurd h hmore⟩

theorem plain_of_numbers {items : List Value} (h : ∀ v ∈ items, ∃ n : Nat, v = .number (.int n)) :
    nestingItems items = 0 ∧ floatsItems items = [] := by
  induction items with
  | nil => exact ⟨rfl, rfl⟩
  | cons v rest ih =>
    obtain ⟨n, rfl⟩ := h v List.mem_cons_self
    obtain ⟨hnesting, hfloats⟩ := ih fun w hw => h w (List.mem_cons_of_mem _ hw)
    simp [nestingItems, floatsItems, Value.nesting, Value.floats, hnesting, hfloats]

theorem serves_numbers (count : Nat) (resolvedUrl token : String) :
    Serves server (numbers count) (jsonClient server (numbers count)) parseJson resolvedUrl
      token := by
  intro query
  refine ⟨200, _, reply server (numbers count) query, rfl, by decide, ?_, answers_reply server _ _⟩
  have hnumbers : ∀ v ∈ ((numbers count).drop (server.start query)).take (server.size query),
      ∃ n : Nat, v = .number (.int n) := by
    intro v hv
    obtain ⟨n, -, rfl⟩ := List.mem_map.mp (List.mem_of_mem_drop (List.mem_of_mem_take hv))
    exact ⟨n, rfl⟩
  obtain ⟨hnesting, hfloats⟩ := plain_of_numbers hnumbers
  have hread := readText_render (v := reply server (numbers count) query) (by
    simp [reply, Value.floats, floatsMembers, hfloats])
  rw [if_pos (by simp [reply, Value.nesting, nestingMembers, hnesting, recursionLimit])] at hread
  rw [parseJson, hread]

end Numbers

/-- The pages are complete, for every list of this many items, exactly under the condition. -/
theorem fetch_all_pages_iff (server : OffsetServer) {operation : OperationSchema}
    (hoffset : detectStrategy operation = some .offset) (query : Query) (pageLimit count : Nat) :
    (∀ items client parse resolvedUrl token initial, items.length = count →
      Serves server items client parse resolvedUrl token → Answers server items query initial →
      Complete items (server.start query) (pageSizeFromQuery query)
        (fetchAllPages client parse resolvedUrl token operation initial query pageLimit)) ↔
      Condition count (server.start query) (server.size query) (pageSizeFromQuery query)
        (effectivePageLimit pageLimit) := by
  constructor
  · intro h
    have hcomplete := h (numbers count) (jsonClient server (numbers count)) parseJson "" ""
      (reply server (numbers count) query) (length_numbers count) (serves_numbers server count "" "")
      (answers_reply server _ query)
    have hcondition := condition_of_complete (serves_numbers server count "" "") hoffset
      (answers_reply server _ query) (distinct_numbers count) hcomplete
    rwa [length_numbers] at hcondition
  · intro h items client parse resolvedUrl token initial hcount hserves hinitial
    rw [← hcount] at h
    exact complete_of_condition hserves hoffset hinitial h

def listOperation : OperationSchema :=
  { id := "shop/admin/items/v1/list", name := "list", summary := "", description := none
    mutationClass := .readOnly, httpMethod := .get, pathTemplate := "/shop/items"
    parameters := [⟨"offset", .query, false, .integer, false, none, none⟩,
      ⟨"limit", .query, false, .integer, false, none, none⟩]
    requestBody := none, permissions := [], scope := "admin", apiVersion := 1, deprecated := false
    responseContentType := none }

/-- Reads decimal numbers, with a default page size. -/
def decimalServer (dflt : Nat) : OffsetServer where
  readOffset text := match text.map fun text => readNumber text.toList with
    | some (some (.int n)) => n.toNat
    | _ => 0
  readLimit text := match text.map fun text => readNumber text.toList with
    | some (some (.int n)) => n.toNat
    | _ => dflt
  offset_none := rfl
  offset_some n := by
    have hread : readNumber (toString n).toList = some (.int n) :=
      (readNumber_render (.int n) (by simp [Value.floats])).2
    simp only [Option.map_some, hread, Int.toNat_natCast]
  limit_some n := by
    have hread : readNumber (toString n).toList = some (.int n) :=
      (readNumber_render (.int n) (by simp [Value.floats])).2
    simp only [Option.map_some, hread, Int.toNat_natCast]

/-- With the caller's limit, pages of 20 up to the last of 45 items. -/
theorem fetch_all_pages_iff_limit :
    Complete (numbers 45) ((decimalServer 50).start [("limit", "20")])
      (pageSizeFromQuery [("limit", "20")])
      (fetchAllPages (jsonClient (decimalServer 50) (numbers 45)) parseJson "" "" listOperation
        (reply (decimalServer 50) (numbers 45) [("limit", "20")]) [("limit", "20")] 0) :=
  (fetch_all_pages_iff (decimalServer 50) (by decide) [("limit", "20")] 0 45).mpr (by decide)
    (numbers 45) _ _ _ _ _ (length_numbers 45) (serves_numbers (decimalServer 50) 45 "" "")
    (answers_reply (decimalServer 50) (numbers 45) [("limit", "20")])

/-- A default page size of 20 loses items, and a caller's offset of 10 repeats some. -/
theorem fetch_all_pages_incomplete :
    ¬ Complete (numbers 30) ((decimalServer 20).start []) (pageSizeFromQuery [])
        (fetchAllPages (jsonClient (decimalServer 20) (numbers 30)) parseJson "" "" listOperation
          (reply (decimalServer 20) (numbers 30) []) [] 0) ∧
      ¬ Complete (numbers 30) ((decimalServer 20).start [("limit", "10"), ("offset", "10")])
        (pageSizeFromQuery [("limit", "10"), ("offset", "10")])
        (fetchAllPages (jsonClient (decimalServer 20) (numbers 30)) parseJson "" "" listOperation
          (reply (decimalServer 20) (numbers 30) [("limit", "10"), ("offset", "10")])
          [("limit", "10"), ("offset", "10")] 0) := by
  constructor
  · intro h
    have hcondition := condition_of_complete (serves_numbers (decimalServer 20) 30 "" "")
      (by decide) (answers_reply _ _ _) (distinct_numbers 30) h
    rw [length_numbers] at hcondition
    exact absurd hcondition (by decide)
  · intro h
    have hcondition := condition_of_complete (serves_numbers (decimalServer 20) 30 "" "")
      (by decide) (answers_reply _ _ _) (distinct_numbers 30) h
    rw [length_numbers] at hcondition
    exact absurd hcondition (by decide)

end PageAggregation
