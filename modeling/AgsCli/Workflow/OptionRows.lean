import AgsCli.Dispatch.WireParameters
import AgsCli.Protocol.JsonText
import AgsCli.Workflow.Options

/-! # The rows behind the options

What the options of an input show of a list that a server gives out in pages. -/
namespace OptionRows

open OrderedMap Json CatalogueTypes ProtocolError RequestTypes WorkflowTypes Http PathTemplate
open Pagination PageRequests PageMergers Execute JsonPath Options

section Servers

def offsetOf (query : Query) : ℕ :=
  ((query.find? (·.1 = "offset")).bind fun e => Strings.parseUsize e.2.toList).getD 0

def unpaged (query : Query) : Query := query.filter fun e => e.1 ≠ "offset" ∧ e.1 ≠ "after"

def window (rows : List Value) (offset size : ℕ) : List Value := (rows.drop offset).take size

structure Serves (service : Service) (parse : String → Except String Value) (url : String)
    (base : Query) (key : String) (rows : List Value) (size : ℕ) : Prop where
  positive : 0 < size
  answers : ∀ sent (request : HttpRequest), request.url = url →
    unpaged request.query = unpaged base → ∃ status bodyText page,
      service sent request = .ok ⟨status, .text bodyText⟩ ∧ (200 ≤ status ∧ status < 300) ∧
      parse bodyText = .ok page ∧
      arrayAt key page = some (window rows (offsetOf request.query) size) ∧
      ((extractNextCursor page).isSome = true ↔ offsetOf request.query + size < rows.length)

def askedOffset (strategy : Option PaginationStrategy) (base : Query) (k : ℕ) : ℕ :=
  if strategy = some .offset ∧ 0 < k then wrappingMul k (optionsPageSize base) else offsetOf base

def pagesAllowed (strategy : Option PaginationStrategy) : ℕ :=
  if strategy.isSome then hardPageCap else 1

/-- The rows of some pages, up to the first that is the server's last. -/
def pageRows (rows : List Value) (size : ℕ) (offset : ℕ → ℕ) : ℕ → ℕ → List Value
  | 0, _ => []
  | left + 1, k => window rows (offset k) size ++
      if offset k + size < rows.length then pageRows rows size offset left (k + 1) else []

def askedRows (strategy : Option PaginationStrategy) (base : Query) (rows : List Value)
    (size : ℕ) : List Value :=
  pageRows rows size (askedOffset strategy base) (pagesAllowed strategy) 0

end Servers

section Pages

variable {service : Service} {parse : String → Except String Value} {url token key : String}
  {base : Query} {rows : List Value} {size : ℕ} {strategy : PaginationStrategy}

theorem object_of_arrayAt {page : Value} {items : List Value} (h : arrayAt key page = some items) :
    ∃ members, page = .object members := by
  unfold arrayAt at h
  split at h
  · next hget => exact object_of_get hget
  · cases h

theorem arrayAt_putArray {items : List Value} {envelope : Value}
    (h : ∃ members, envelope = .object members) :
    arrayAt key (putArray key items envelope) = some items := by
  obtain ⟨members, rfl⟩ := h
  simp [putArray, arrayAt, Value.get?]

theorem unpaged_next (cursor : String) (n p : ℕ) :
    unpaged (buildNextQuery base strategy cursor n p) = unpaged base := by
  cases strategy with
  | cursor =>
    rw [buildNextQuery, unpaged, List.filter_append, List.filter_filter]
    simp [unpaged]
  | offset =>
    rw [buildNextQuery, unpaged, List.filter_append, List.filter_filter, unpaged]
    have hkeep : ∀ e : String × String, decide (e.1 ≠ "offset" ∧ e.1 ≠ "after") =
        (decide (e.1 ≠ "offset" ∧ e.1 ≠ "after") && decide (e.1 ≠ "offset")) := by
      intro e
      by_cases hoffset : e.1 = "offset" <;> simp [hoffset]
    simp only [← hkeep]
    simp

theorem find_filter_ne {name other : String} (h : name ≠ other) (query : Query) :
    (query.filter (·.1 ≠ other)).find? (·.1 = name) = query.find? (·.1 = name) := by
  induction query with
  | nil => rfl
  | cons e rest ih =>
    by_cases hother : e.1 = other
    · have hname : e.1 ≠ name := fun heq => h (heq.symm.trans hother)
      rw [List.filter_cons_of_neg (by simpa using hother), ih,
        List.find?_cons_of_neg (by simpa using hname)]
    · rw [List.filter_cons_of_pos (by simpa using hother), List.find?_cons, List.find?_cons, ih]

theorem offsetOf_next (cursor : String) {k : ℕ} (hk : 0 < k) :
    offsetOf (buildNextQuery base strategy cursor k (optionsPageSize base)) =
      askedOffset (some strategy) base k := by
  cases strategy with
  | cursor =>
    rw [askedOffset, if_neg (by simp), offsetOf, offsetOf, buildNextQuery, List.find?_append,
      find_filter_ne (by decide), List.find?_cons_of_neg (by simp)]
    simp
  | offset =>
    have hnone : (base.filter (·.1 ≠ "offset")).find? (·.1 = "offset") = none := by
      simp
    have hlt : wrappingMul k (optionsPageSize base) < 2 ^ 64 := Nat.mod_lt _ (by decide)
    rw [askedOffset, if_pos ⟨rfl, hk⟩, offsetOf, buildNextQuery, List.find?_append, hnone,
      Option.none_or, List.find?_cons_of_pos (by simp), Option.bind_some,
      Decimals.parseUsize_toString hlt, Option.getD_some]

theorem window_nil_iff (hsize : 0 < size) (offset : ℕ) :
    window rows offset size = [] ↔ rows.length ≤ offset := by
  simp [window, List.take_eq_nil_iff]
  omega

theorem fetch_page (strategy : PaginationStrategy)
    (h : Serves service parse url base key rows size) (token cursor : String)
    (sent : List HttpRequest) {k : ℕ} (hk : 0 < k) :
    ∃ page, fetchNextPage (service sent) parse url token
        (buildNextQuery base strategy cursor k (optionsPageSize base)) (k + 1) = .ok page ∧
      arrayAt key page = some (window rows (askedOffset (some strategy) base k) size) ∧
      ((extractNextCursor page).isSome = true ↔
        askedOffset (some strategy) base k + size < rows.length) := by
  obtain ⟨status, bodyText, page, hsend, hstatus, hparse, hitems, hnext⟩ := h.answers sent
    (pageRequest url token (buildNextQuery base strategy cursor k (optionsPageSize base))) rfl
    (unpaged_next cursor k _)
  have hoffset : offsetOf (buildNextQuery base strategy cursor k (optionsPageSize base)) =
      askedOffset (some strategy) base k := offsetOf_next cursor hk
  refine ⟨page, ?_, ?_, ?_⟩
  · unfold pageRequest at hsend
    simp only [fetchNextPage, hsend, if_neg (not_not_intro hstatus), hparse]
  · rw [hitems, pageRequest, hoffset]
  · rw [hnext, pageRequest, hoffset]

/-- The loop reads the pages that are asked for from where it stands. -/
theorem pathLoop_rows (strategy : PaginationStrategy) (token : String)
    (h : Serves service parse url base key rows size) (cursor : String)
    (items : List Value) {last : Value} {k : ℕ} (sent : List HttpRequest) (hk : 0 < k)
    (hlast : ∃ members, last = .object members) :
    ∃ body, (pathLoop service parse url token strategy base (optionsPageSize base) 0 key cursor
        items last k sent).1 = .ok body ∧
      arrayAt key body = some (items ++
        pageRows rows size (askedOffset (some strategy) base) (hardPageCap - k) k) := by
  induction hleft : hardPageCap - k generalizing cursor items last k sent with
  | zero =>
    have hstop : effectivePageLimit 0 ≤ k := by
      rw [effectivePageLimit, if_pos rfl]
      omega
    rw [pathLoop, if_pos hstop]
    refine ⟨_, rfl, ?_⟩
    rw [arrayAt_putArray hlast, pageRows, List.append_nil]
  | succ left ih =>
    have hmore : ¬effectivePageLimit 0 ≤ k := by
      rw [effectivePageLimit, if_pos rfl]
      omega
    obtain ⟨page, hfetch, hitems, hnext⟩ := fetch_page strategy h token cursor sent hk
    rw [pathLoop, if_neg hmore]
    simp only [hfetch, hitems, pageRows]
    cases hwindow : window rows (askedOffset (some strategy) base k) size with
    | nil =>
      have hend := (window_nil_iff h.positive _).mp hwindow
      refine ⟨_, rfl, ?_⟩
      rw [arrayAt_putArray hlast, if_neg (by omega), List.nil_append, List.append_nil]
    | cons row more =>
      have hpage := object_of_arrayAt hitems
      cases hcursor : extractNextCursor page with
      | none =>
        rw [hcursor] at hnext
        have hend : ¬askedOffset (some strategy) base k + size < rows.length :=
          fun hlt => by cases hnext.mpr hlt
        refine ⟨_, rfl, ?_⟩
        rw [arrayAt_putArray hpage, if_neg hend, List.append_nil]
      | some cursor' =>
        rw [hcursor] at hnext
        obtain ⟨body, hbody, hrows⟩ := ih cursor' (items ++ row :: more)
          (sent ++ [pageRequest url token
            (buildNextQuery base strategy cursor k (optionsPageSize base))])
          (Nat.lt_succ_of_lt hk) hpage (by omega)
        refine ⟨body, hbody, ?_⟩
        rw [hrows, if_pos (hnext.mp rfl), List.append_assoc]

theorem fetchAllPagesAtPath_rows (token : String) (operation : OperationSchema)
    {itemsPath : String} {initial : Value} (h : Serves service parse url base key rows size)
    (hkey : itemsKey? itemsPath = some key)
    (hitems : arrayAt key initial = some (window rows (offsetOf base) size))
    (hnext : (extractNextCursor initial).isSome = true ↔ offsetOf base + size < rows.length)
    (sent : List HttpRequest) :
    ∃ body, (fetchAllPagesAtPath service parse url token operation initial base 0 itemsPath
        sent).1 = .ok body ∧
      arrayAt key body = some (askedRows (detectStrategy operation) base rows size) := by
  have hfirst : ∀ strategy, askedOffset strategy base 0 = offsetOf base :=
    fun strategy => if_neg fun hand => absurd hand.2 (Nat.lt_irrefl 0)
  unfold fetchAllPagesAtPath
  simp only [hkey]
  cases hcursor : extractNextCursor initial with
  | none =>
    rw [hcursor] at hnext
    have hend : ¬offsetOf base + size < rows.length := fun hlt => by cases hnext.mpr hlt
    refine ⟨initial, rfl, ?_⟩
    have hpages : ∃ left, pagesAllowed (detectStrategy operation) = left + 1 := by
      cases detectStrategy operation with
      | none => exact ⟨0, rfl⟩
      | some strategy => exact ⟨99, rfl⟩
    obtain ⟨left, hleft⟩ := hpages
    rw [hitems, askedRows, hleft, pageRows, hfirst, if_neg hend, List.append_nil]
  | some cursor =>
    rw [hcursor] at hnext
    cases hstrategy : detectStrategy operation with
    | none =>
      have hone : pagesAllowed none = 0 + 1 := rfl
      refine ⟨initial, rfl, ?_⟩
      rw [hitems, askedRows, hone, pageRows, hfirst, pageRows, ite_self, List.append_nil]
    | some strategy =>
      have hmore : pagesAllowed (some strategy) = hardPageCap - 1 + 1 := rfl
      obtain ⟨body, hbody, hrows⟩ := pathLoop_rows strategy token h cursor
        (window rows (offsetOf base) size) sent Nat.one_pos (object_of_arrayAt hitems)
      refine ⟨body, ?_, ?_⟩
      · simp only [hitems, Option.getD_some]
        exact hbody
      · rw [hrows, askedRows, hmore, pageRows, hfirst, if_pos (hnext.mp rfl)]

end Pages

section Requests

variable (w : WordClass)

structure Asks (runtime : Runtime) (source : OptionsSource) (inputs : BTreeMap String Value)
    (operation : OperationSchema) (url : String) (base : Query) : Prop where
  built : ∃ serviceSchema described http name alternate,
    runtime.catalogue.getOrLoad source.operation.service = .ok serviceSchema ∧
    AutoDerive.findOperationOrError serviceSchema source.operation "options_source" =
      .ok described ∧
    Execute.findOperation runtime (buildOptionsRequest described source inputs) =
      .ok (name, operation, alternate) ∧
    buildBaseRequest w runtime.baseUrl runtime.accessToken operation
      (buildOptionsRequest described source inputs) = .ok (url, base, http)

variable {w}
variable {service : Service} {parse : String → Except String Value} {url key : String}
  {base : Query} {rows : List Value} {size : ℕ} {runtime : Runtime} {source : OptionsSource}
  {inputs : BTreeMap String Value} {operation : OperationSchema}

theorem evaluate_field {k : List Char} (hdot : '.' ∉ k) (hbracket : '[' ∉ k) (run : List Char)
    (v : Value) : evaluate k .field run v =
      if run.isEmpty ∧ k = [] then none else v.get? (String.ofList (run ++ k)) := by
  induction k generalizing run with
  | nil => cases run <;> simp [evaluate]
  | cons c rest ih =>
    have hc : c ≠ '.' := fun heq => hdot (heq ▸ List.mem_cons_self)
    have hc' : c ≠ '[' := fun heq => hbracket (heq ▸ List.mem_cons_self)
    rw [evaluate, if_neg hc, if_neg hc', ih (fun h => hdot (List.mem_cons_of_mem c h))
      (fun h => hbracket (List.mem_cons_of_mem c h))]
    simp

/-- A single-segment path is the member of that name. -/
theorem jsonpath_key {itemsPath : String} (h : itemsKey? itemsPath = some key) (body : Value) :
    applyJsonpathSubset body itemsPath = body.get? key := by
  unfold itemsKey? at h
  split at h
  · next k hpath =>
    split_ifs at h with hk
    cases h
    obtain ⟨hne, hdot, hbracket⟩ := hk
    rw [applyJsonpathSubset, hpath]
    simp [evaluate, evaluate_field hdot hbracket, hne]
  · cases h

theorem fetchRawBody_rows (classify : Nat → String → RuntimeError)
    {token baseUrl itemsPath : String} {request : CommandRequest} {http : HttpRequest}
    (h : Serves service parse url base key rows size)
    (hkey : itemsKey? itemsPath = some key)
    (hbuild : buildBaseRequest w baseUrl token operation request = .ok (url, base, http)) :
    ∃ body, fetchRawBody w service parse classify baseUrl token operation request itemsPath =
        .ok body ∧
      arrayAt key body = some (askedRows (detectStrategy operation) base rows size) := by
  have hhttp : http.url = url ∧ http.query = base := by
    unfold buildBaseRequest at hbuild
    split at hbuild
    · cases hbuild
    · cases hbuild
      exact ⟨rfl, rfl⟩
  obtain ⟨status, bodyText, page, hsend, hstatus, hparse, hitems, hnext⟩ :=
    h.answers [] http hhttp.1 (congrArg unpaged hhttp.2)
  rw [hhttp.2] at hitems hnext
  obtain ⟨body, hbody, hrows⟩ := fetchAllPagesAtPath_rows token operation h hkey hitems
    hnext [http]
  refine ⟨body, ?_, hrows⟩
  unfold fetchRawBody
  simp only [hbuild, hsend, if_neg (not_not_intro hstatus), hparse]
  exact hbody

theorem resolveOptions_rows (classify : Nat → String → RuntimeError) (table : Casing.CaseTable)
    (asker : Asker) (hasks : Asks w runtime source inputs operation url base)
    (hkey : itemsKey? source.itemsPath = some key)
    (h : Serves service parse url base key rows size) :
    resolveOptions w service parse classify table runtime asker source inputs =
      .ok (capChoices (sortChoices table (projected source inputs
        (askedRows (detectStrategy operation) base rows size)))) := by
  obtain ⟨serviceSchema, described, http, name, alternate, hschema, hdescribed, hfound, hbuild⟩ :=
    hasks.built
  obtain ⟨body, hbody, hrows⟩ := fetchRawBody_rows classify h hkey hbuild
  have hget : body.get? key =
      some (.array (askedRows (detectStrategy operation) base rows size)) := by
    unfold arrayAt at hrows
    split at hrows
    · next hget => exact Option.some.inj hrows ▸ hget
    · cases hrows
  unfold resolveOptions
  simp only [hschema, hdescribed, fetchOptionsBody, hfound, hbody, jsonpath_key hkey, hget]

end Requests

section Results

variable (table : Casing.CaseTable)

structure Faithful (all : List OptionChoice) (resolved : ResolvedOptions) : Prop where
  complete : resolved.truncated = false → Leading.Ordered (choiceKey table) all resolved.choices
  leading : resolved.truncated = true → ∃ full, Leading.Ordered (choiceKey table) all full ∧
    resolved.choices = full.take optionItemCap

/-- Some choices stand for all: they are all of them or, where they are more than the cap, their
first ones are choices that no other comes before. -/
def Covers (asked all : List OptionChoice) : Prop :=
  if optionItemCap < asked.length then
    Leading.Begins (choiceKey table) ((sortChoices table asked).take optionItemCap) all
  else asked.Perm all

variable {table} {asked all : List OptionChoice}

theorem faithful_iff :
    Faithful table all (capChoices (sortChoices table asked)) ↔ Covers table asked all := by
  have hsorted : Leading.Ordered (choiceKey table) asked (sortChoices table asked) :=
    Leading.ordered_sortBy asked
  have hlength : (sortChoices table asked).length = asked.length := Leading.length_sortBy asked
  rw [capChoices, Covers, hlength]
  by_cases hcap : optionItemCap < asked.length
  · rw [if_pos hcap, if_pos hcap]
    have hfirst : ((sortChoices table asked).take optionItemCap).length = optionItemCap := by
      rw [List.length_take, hlength, Nat.min_eq_left hcap.le]
    have hpairwise := hsorted.sorted.sublist (List.take_sublist optionItemCap _)
    rw [Leading.begins_iff hpairwise]
    constructor
    · intro h
      obtain ⟨full, hfull, heq⟩ := h.leading rfl
      exact ⟨full, hfull, heq.trans (by rw [hfirst])⟩
    · rintro ⟨full, hfull, heq⟩
      refine ⟨fun hfalse => ?_, fun _ => ⟨full, hfull, ?_⟩⟩
      · cases hfalse
      · rw [hfirst] at heq
        exact heq
  · rw [if_neg hcap, if_neg hcap]
    constructor
    · exact fun h => hsorted.perm.symm.trans (h.complete rfl).perm
    · intro h
      refine ⟨fun _ => ⟨hsorted.perm.trans h, hsorted.sorted⟩, fun htrue => ?_⟩
      cases htrue

/-- The options of an input are faithful to the rows of a server that gives them out by offset
exactly when the rows that are asked for stand for all of them. -/
theorem options_faithful_iff (w : WordClass) (service : Service)
    (parse : String → Except String Value) (classify : Nat → String → RuntimeError)
    (table : Casing.CaseTable) (runtime : Runtime) (asker : Asker) (source : OptionsSource)
    (inputs : BTreeMap String Value) {operation : OperationSchema} {url key : String}
    {base : Query} {rows : List Value} {size : ℕ}
    (hasks : Asks w runtime source inputs operation url base)
    (hkey : itemsKey? source.itemsPath = some key)
    (hserves : Serves service parse url base key rows size) :
    (∃ resolved,
      resolveOptions w service parse classify table runtime asker source inputs = .ok resolved ∧
        Faithful table (projected source inputs rows) resolved) ↔
    Covers table (projected source inputs (askedRows (detectStrategy operation) base rows size))
      (projected source inputs rows) := by
  have hresolve := resolveOptions_rows classify table asker hasks hkey hserves
  rw [← faithful_iff]
  constructor
  · rintro ⟨resolved, hresolved, h⟩
    cases hresolve.symm.trans hresolved
    exact h
  · exact fun h => ⟨_, hresolve, h⟩

theorem askedOffset_eq {base : Query} {k : ℕ} (hstart : offsetOf base = 0)
    (hk : k * optionsPageSize base < 2 ^ 64) :
    askedOffset (some .offset) base k = k * optionsPageSize base := by
  by_cases hzero : 0 < k
  · rw [askedOffset, if_pos ⟨rfl, hzero⟩, wrappingMul, Nat.mod_eq_of_lt hk]
  · obtain rfl : k = 0 := by omega
    rw [askedOffset, if_neg (fun hand => hzero hand.2), hstart, Nat.zero_mul]

theorem pageRows_all {base : Query} {rows : List Value} (hstart : offsetOf base = 0)
    (hwide : rows.length ≤ 2 ^ 64) (left : ℕ) {k : ℕ}
    (hk : k = 0 ∨ k * optionsPageSize base < rows.length) :
    pageRows rows (optionsPageSize base) (askedOffset (some .offset) base) left k =
      (rows.drop (k * optionsPageSize base)).take (left * optionsPageSize base) := by
  induction left generalizing k with
  | zero => rw [pageRows, Nat.zero_mul, List.take_zero]
  | succ left ih =>
    have hoffset : askedOffset (some .offset) base k = k * optionsPageSize base := by
      refine askedOffset_eq hstart ?_
      rcases hk with rfl | hk
      · omega
      · omega
    have hnext : k * optionsPageSize base + optionsPageSize base =
        (k + 1) * optionsPageSize base := (Nat.succ_mul k _).symm
    have hsplit : (left + 1) * optionsPageSize base =
        optionsPageSize base + left * optionsPageSize base := by
      rw [Nat.succ_mul, Nat.add_comm]
    rw [pageRows, hoffset, window, hsplit, List.take_add, List.drop_drop, hnext]
    by_cases hmore : (k + 1) * optionsPageSize base < rows.length
    · rw [if_pos hmore, ih (.inr hmore)]
    · rw [if_neg hmore, List.drop_of_length_le (Nat.not_lt.mp hmore), List.take_nil]

/-- All rows are asked for where the server's page size is the one assumed, nothing asks for
another start and there are at most a hundred pages. -/
theorem askedRows_all {base : Query} {rows : List Value} (hstart : offsetOf base = 0)
    (hlength : rows.length ≤ hardPageCap * optionsPageSize base)
    (hwide : rows.length ≤ 2 ^ 64) :
    askedRows (some .offset) base rows (optionsPageSize base) = rows := by
  have hall := pageRows_all hstart hwide hardPageCap (.inl rfl)
  rw [Nat.zero_mul, List.drop_zero, List.take_of_length_le hlength] at hall
  exact hall

end Results

section Images

def image (id : String) : Value := .object [("id", .string id)]

def pageOf (rows : List Value) (size offset : ℕ) : Value :=
  .object [("images", .array (window rows offset size)),
    ("paging", .object
      [("next", .string (if offset + size < rows.length then "/images" else ""))])]

/-- A server that goes by its own page size. -/
def listServer (rows : List Value) (size : ℕ) : Service := fun _ request =>
  .ok ⟨200, .text (pageOf rows size (offsetOf request.query)).render⟩

def readPage (text : String) : Except String Value :=
  match textReader.read text with
  | some page => .ok page
  | none => .error "expected value"

theorem nesting_images (ids : List String) : sizedItems (ids.map image) = true ∧
    nestingItems (ids.map image) ≤ 1 ∧ floatsItems (ids.map image) = [] := by
  induction ids with
  | nil => exact ⟨rfl, Nat.zero_le 1, rfl⟩
  | cons id rest ih => exact ⟨ih.1, max_le le_rfl ih.2.1, ih.2.2⟩

theorem serves_listServer (ids : List String) {size : ℕ} (hsize : 0 < size) (url : String)
    (base : Query) :
    Serves (listServer (ids.map image) size) readPage url base "images" (ids.map image) size := by
  refine ⟨hsize, fun sent request _ _ => ?_⟩
  have hwindow : window (ids.map image) (offsetOf request.query) size =
      ((ids.drop (offsetOf request.query)).take size).map image := by
    rw [window, List.map_take, List.map_drop]
  obtain ⟨hsized, hnesting, hfloats⟩ := nesting_images ((ids.drop (offsetOf request.query)).take size)
  have hread : textReader.read (pageOf (ids.map image) size (offsetOf request.query)).render =
      some (pageOf (ids.map image) size (offsetOf request.query)) := by
    refine textReader.read_render _ ?_ ?_ ?_
    · simp only [pageOf, hwindow, Value.isSized, sizedMembers, hsized, Bool.and_true]
    · simp only [pageOf, hwindow, Value.nesting, nestingMembers, recursionLimit]
      omega
    · simp only [pageOf, hwindow, Value.floats, floatsMembers, hfloats]
      intro t ht
      cases ht
  refine ⟨200, _, _, rfl, by decide, by rw [readPage, hread], rfl, ?_⟩
  by_cases hmore : offsetOf request.query + size < (ids.map image).length
  · refine iff_of_true ?_ hmore
    rw [pageOf, if_pos hmore]
    rfl
  · refine iff_of_false ?_ hmore
    rw [pageOf, if_neg hmore, Bool.not_eq_true]
    rfl

def imagesSchema : ServiceSchema :=
  ⟨"ams", "", [⟨"images", "", [⟨"list", "", some "admin", [⟨"admin", 1, [listOperation]⟩]⟩]⟩]⟩

def demoRuntime : Runtime := ⟨"https://demo.test", "t0", ⟨fun _ => .ok imagesSchema⟩⟩

def imagesSource : OptionsSource :=
  { operation := ⟨"ams", "List"⟩, parameters := [], itemsPath := "$.images", value := "$.id"
    label := none, labelDetail := none, fallbackDescription := none, filter := none }

theorem asks_images : Asks WireParameters.asciiWord demoRuntime imagesSource ∅ listOperation
    "https://demo.test/ams/images" [] :=
  ⟨imagesSchema, listOperation, _, _, _, rfl, rfl, rfl, rfl⟩

def imageOptions (size : ℕ) : Except RuntimeError ResolvedOptions :=
  resolveOptions WireParameters.asciiWord (listServer (["a", "b", "c"].map image) size) readPage
    upstream Casing.sampleTable demoRuntime ⟨"default", "Stored"⟩ imagesSource ∅

theorem options_faithful_images :
    (∃ resolved, imageOptions 5 = .ok resolved ∧ Faithful Casing.sampleTable
      (projected imagesSource ∅ (["a", "b", "c"].map image)) resolved) ↔
    Covers Casing.sampleTable
      (projected imagesSource ∅ (askedRows (detectStrategy listOperation) []
        (["a", "b", "c"].map image) 5))
      (projected imagesSource ∅ (["a", "b", "c"].map image)) :=
  options_faithful_iff WireParameters.asciiWord (listServer (["a", "b", "c"].map image) 5) readPage
    upstream Casing.sampleTable demoRuntime ⟨"default", "Stored"⟩ imagesSource ∅ asks_images rfl
    (serves_listServer ["a", "b", "c"] (by decide) _ _)

/-- Served two to a page, the third image is skipped: the page after the first is asked for at 100,
and the options are not marked as truncated. -/
theorem third_image_missing : ∃ resolved, imageOptions 2 = .ok resolved ∧
    resolved.truncated = false ∧ resolved.choices.length = 2 ∧
    (projected imagesSource ∅ (["a", "b", "c"].map image)).length = 3 ∧
    ¬Faithful Casing.sampleTable (projected imagesSource ∅ (["a", "b", "c"].map image))
      resolved := by
  have hserves := serves_listServer ["a", "b", "c"] (Nat.two_pos) "https://demo.test/ams/images" []
  have hresolve : imageOptions 2 = _ := resolveOptions_rows upstream Casing.sampleTable
    ⟨"default", "Stored"⟩ asks_images rfl hserves
  have hasked : projected imagesSource ∅ (askedRows (detectStrategy listOperation) []
      (["a", "b", "c"].map image) 2) = [⟨"a", "a"⟩, ⟨"b", "b"⟩] := by decide
  have hlength : (sortChoices Casing.sampleTable [⟨"a", "a"⟩, ⟨"b", "b"⟩]).length = 2 :=
    Leading.length_sortBy _
  rw [hasked, capChoices, if_neg (by rw [hlength]; decide)] at hresolve
  refine ⟨_, hresolve, rfl, hlength, by decide, fun hfaithful => ?_⟩
  have hcounts := (hfaithful.complete rfl).perm.length_eq
  rw [hlength] at hcounts
  exact absurd hcounts (by decide)

end Images

end OptionRows
