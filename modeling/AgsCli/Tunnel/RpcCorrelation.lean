import AgsCli.Tunnel.RpcCommands
import Mathlib.Data.List.Nodup

/-! # RPC correlation

In every interleaving a call returns once, with a response to its own id or a local error, and the
in-flight entries are those of the unanswered calls. Every command is answered once, unless its
handler panics outside its future or the channel is closed. -/
namespace RpcCorrelation

open OrderedMap Json Tunnel Rpc RpcCommands

variable {s s' : State}

@[simp] theorem calls_setCall (i : Nat) (f : Call → Call) (k : Nat) :
    (s.setCall i f).calls[k]? = (s.calls[k]?).map fun c => if i = k then f c else c :=
  List.getElem?_modify f i s.calls k

/-- A received response to the id, with this result. -/
def Answers (s : State) (id : Nat) (result : RpcResult) : Prop :=
  ∃ p ∈ s.received, p.cmdId = id ∧ result = resultOf p

/-- The call is registered, has not returned, and no response to it has been taken. -/
def Waiting (s : State) (i : Nat) (c : Call) : Prop :=
  (c.point = .registered ∨ c.point = .refused ∨ c.point = .waiting ∨ c.point = .expired) ∧
    c.mailbox = .empty ∧ ∀ r, s.reader ≠ .delivering i r

def WaitsFor (s : State) (id i : Nat) : Prop :=
  ∃ c, s.calls[i]? = some c ∧ c.cmdId = id ∧ Waiting s i c

structure CallerInvariant (s : State) : Prop where
  ids : ∀ (i : Nat) (c : Call), s.calls[i]? = some c → c.cmdId = (i + 2) % 2 ^ 64
  counter : s.nextCmdId = (s.calls.length + 1) % 2 ^ 64
  keys : ∀ id i, s.inFlight.get? id = some i ↔ WaitsFor s id i
  numbered : ∀ (i : Nat) (c : Call), s.calls[i]? = some c → c.point = .numbered →
    c.mailbox = .empty ∧ ∀ r, s.reader ≠ .delivering i r
  filled : ∀ (i : Nat) (c : Call) (r : RpcResult), s.calls[i]? = some c →
    c.mailbox = .filled r → Answers s c.cmdId r
  delivering : ∀ i r, s.reader = .delivering i r → ∃ c, s.calls[i]? = some c ∧
    c.point ≠ .numbered ∧ Answers s c.cmdId r
  returned : ∀ i, i ∈ s.completions.map Prod.fst → ∃ c o, s.calls[i]? = some c ∧
    c.point = .completed o
  once : (s.completions.map Prod.fst).Nodup
  justified : ∀ i o, (i, o) ∈ s.completions → ∃ c, s.calls[i]? = some c ∧
    (o = .timeout ∨ o = .sessionClosed ∨ ∃ r, Answers s c.cmdId r ∧ o = r.outcome)

theorem lt_of_get {i : Nat} {c : Call} (h : s.calls[i]? = some c) : i < s.calls.length :=
  (List.getElem?_eq_some_iff.mp h).1

/-- Fewer than 2^64 calls have distinct ids. -/
theorem CallerInvariant.index_of_id (h : CallerInvariant s) (hcalls : s.calls.length < 2 ^ 64)
    {i j : Nat} {c d : Call} (hc : s.calls[i]? = some c) (hd : s.calls[j]? = some d)
    (heq : c.cmdId = d.cmdId) : i = j := by
  have hi := lt_of_get hc
  have hj := lt_of_get hd
  rw [h.ids i c hc, h.ids j d hd] at heq
  omega

/-- A step of the callee side leaves the caller side as it is. -/
theorem CallerInvariant.frame (h : CallerInvariant s) (hnext : s'.nextCmdId = s.nextCmdId)
    (hcalls : s'.calls = s.calls) (hmap : s'.inFlight = s.inFlight)
    (hreceived : s'.received = s.received) (hcompletions : s'.completions = s.completions)
    (hreader : ∀ i r, s'.reader = .delivering i r ↔ s.reader = .delivering i r) :
    CallerInvariant s' := by
  have hne : ∀ i, (∀ r, s'.reader ≠ .delivering i r) ↔ ∀ r, s.reader ≠ .delivering i r := by
    intro i
    constructor
    · intro hno r hr
      exact hno r ((hreader i r).mpr hr)
    · intro hno r hr
      exact hno r ((hreader i r).mp hr)
  have hwaits : ∀ id i, WaitsFor s' id i ↔ WaitsFor s id i := by
    intro id i
    simp only [WaitsFor, Waiting, hcalls, hne]
  have hanswers : ∀ id r, Answers s' id r ↔ Answers s id r := by
    intro id r
    simp only [Answers, hreceived]
  refine ⟨?_, ?_, ?_, ?_, ?_, ?_, ?_, ?_, ?_⟩
  · rw [hcalls]
    exact h.ids
  · rw [hnext, hcalls]
    exact h.counter
  · intro id i
    rw [hmap, hwaits]
    exact h.keys id i
  · intro i c hc hpoint
    rw [hcalls] at hc
    obtain ⟨hempty, hno⟩ := h.numbered i c hc hpoint
    exact ⟨hempty, (hne i).mpr hno⟩
  · intro i c r hc hfilled
    rw [hcalls] at hc
    exact (hanswers _ _).mpr (h.filled i c r hc hfilled)
  · intro i r hr
    obtain ⟨c, hc, hpoint, hans⟩ := h.delivering i r ((hreader i r).mp hr)
    exact ⟨c, by rw [hcalls]; exact hc, hpoint, (hanswers _ _).mpr hans⟩
  · rw [hcompletions, hcalls]
    exact h.returned
  · rw [hcompletions]
    exact h.once
  · rw [hcompletions, hcalls]
    intro i o ho
    simpa only [hanswers] using h.justified i o ho

section Changes

variable {i : Nat} {c d : Call}

def Replaces (s s' : State) (i : Nat) (d : Call) : Prop :=
  ∀ k, s'.calls[k]? = if k = i then some d else s.calls[k]?

theorem replaces_setCall {f : Call → Call} (hc : s.calls[i]? = some c) :
    Replaces s (s.setCall i f) i (f c) := by
  intro k
  rw [calls_setCall]
  by_cases hk : k = i
  · subst hk
    simp [hc]
  · have hik : i ≠ k := fun heq => hk heq.symm
    simp [hk, hik]

theorem Replaces.length_eq (h : Replaces s s' i d) (hc : s.calls[i]? = some c) :
    s'.calls.length = s.calls.length := by
  have hi := lt_of_get hc
  refine Nat.le_antisymm ?_ ?_
  · by_contra hlt
    have hlast := h s.calls.length
    rw [if_neg (by omega), List.getElem?_eq_none (Nat.le_refl _), List.getElem?_eq_none_iff] at hlast
    omega
  · by_contra hlt
    have hlast := h s'.calls.length
    rw [List.getElem?_eq_none (Nat.le_refl _)] at hlast
    split at hlast
    · cases hlast
    · rw [eq_comm, List.getElem?_eq_none_iff] at hlast
      omega

theorem waitsFor_other (h : Replaces s s' i d)
    (hreader : ∀ k ≠ i, ∀ r, s'.reader = .delivering k r ↔ s.reader = .delivering k r)
    {id k : Nat} (hk : k ≠ i) : WaitsFor s' id k ↔ WaitsFor s id k := by
  simp only [WaitsFor, Waiting, h k, if_neg hk, ne_eq, hreader k hk]

theorem waitsFor_self (h : Replaces s s' i d) {id : Nat} :
    WaitsFor s' id i ↔ d.cmdId = id ∧ Waiting s' i d := by
  simp only [WaitsFor, h i, if_true, Option.some.injEq]
  constructor
  · rintro ⟨c, rfl, hid, hwaiting⟩
    exact ⟨hid, hwaiting⟩
  · rintro ⟨hid, hwaiting⟩
    exact ⟨d, rfl, hid, hwaiting⟩

/-- The entry under a call's id is the call's own. -/
theorem CallerInvariant.owner (h : CallerInvariant s) (hbound : s.calls.length < 2 ^ 64)
    (hc : s.calls[i]? = some c) {k : Nat} (hk : s.inFlight.get? c.cmdId = some k) : k = i := by
  obtain ⟨e, he, hid, -⟩ := (h.keys _ _).mp hk
  exact h.index_of_id hbound he hc hid

/-- What a step that replaces one call has to show. -/
structure Replacement (s s' : State) (i : Nat) (c d : Call) : Prop where
  replaces : Replaces s s' i d
  id_eq : d.cmdId = c.cmdId
  left_numbered : d.point ≠ .numbered
  counter : s'.nextCmdId = s.nextCmdId
  received : s'.received = s.received
  reader : ∀ k r, s'.reader = .delivering k r → s.reader = .delivering k r
  filled : ∀ r, d.mailbox = .filled r → Answers s c.cmdId r
  completes :
    (s'.completions = s.completions ∧ ∀ o, c.point = .completed o → d.point = .completed o) ∨
    ∃ o, s'.completions = s.completions ++ [(i, o)] ∧ d.point = .completed o ∧
      (∀ o', c.point ≠ .completed o') ∧
      (o = .timeout ∨ o = .sessionClosed ∨ ∃ r, Answers s c.cmdId r ∧ o = r.outcome)

theorem Replacement.answers (hr : Replacement s s' i c d) (id : Nat) (r : RpcResult) :
    Answers s' id r ↔ Answers s id r := by
  simp only [Answers, hr.received]

/-- One call is replaced; the keys are shown apart. -/
theorem CallerInvariant.replace (h : CallerInvariant s) (hc : s.calls[i]? = some c)
    (hr : Replacement s s' i c d)
    (hkeys : ∀ id k, s'.inFlight.get? id = some k ↔ WaitsFor s' id k) : CallerInvariant s' := by
  have hget : ∀ (k : Nat) (e : Call), s'.calls[k]? = some e →
      (k = i ∧ e = d) ∨ (k ≠ i ∧ s.calls[k]? = some e) := by
    intro k e he
    rw [hr.replaces k] at he
    by_cases hk : k = i
    · rw [if_pos hk] at he
      exact Or.inl ⟨hk, (Option.some.inj he).symm⟩
    · rw [if_neg hk] at he
      exact Or.inr ⟨hk, he⟩
  have hkept : ∀ (k : Nat) (e : Call), s.calls[k]? = some e →
      ∃ e', s'.calls[k]? = some e' ∧ e'.cmdId = e.cmdId := by
    intro k e he
    by_cases hk : k = i
    · subst hk
      rw [hc] at he
      cases he
      exact ⟨d, by rw [hr.replaces k, if_pos rfl], hr.id_eq⟩
    · exact ⟨e, by rw [hr.replaces k, if_neg hk]; exact he, rfl⟩
  have hothers : ∀ k ∈ s.completions.map Prod.fst, ∃ e o, s'.calls[k]? = some e ∧
      e.point = .completed o := by
    intro k hk
    obtain ⟨e, o, he, ho⟩ := h.returned k hk
    by_cases hki : k = i
    · subst hki
      rw [hc] at he
      cases he
      rcases hr.completes with ⟨-, hstays⟩ | ⟨o', -, -, hno, -⟩
      · exact ⟨d, o, by rw [hr.replaces k, if_pos rfl], hstays o ho⟩
      · exact absurd ho (hno o)
    · exact ⟨e, o, by rw [hr.replaces k, if_neg hki]; exact he, ho⟩
  have hjustified : ∀ k o, (k, o) ∈ s.completions → ∃ e, s'.calls[k]? = some e ∧
      (o = .timeout ∨ o = .sessionClosed ∨ ∃ r, Answers s' e.cmdId r ∧ o = r.outcome) := by
    intro k o ho
    obtain ⟨e, he, hcause⟩ := h.justified k o ho
    obtain ⟨e', he', hid⟩ := hkept k e he
    refine ⟨e', he', ?_⟩
    simpa only [hid, hr.answers] using hcause
  refine ⟨?_, ?_, hkeys, ?_, ?_, ?_, ?_, ?_, ?_⟩
  · intro k e he
    rcases hget k e he with ⟨rfl, rfl⟩ | ⟨-, he⟩
    · rw [hr.id_eq]
      exact h.ids k c hc
    · exact h.ids k e he
  · rw [hr.counter, hr.replaces.length_eq hc]
    exact h.counter
  · intro k e he hpoint
    rcases hget k e he with ⟨rfl, rfl⟩ | ⟨-, he⟩
    · exact absurd hpoint hr.left_numbered
    · obtain ⟨hempty, hno⟩ := h.numbered k e he hpoint
      exact ⟨hempty, fun r hdelivering => hno r (hr.reader k r hdelivering)⟩
  · intro k e r he hfilled
    rw [hr.answers]
    rcases hget k e he with ⟨rfl, rfl⟩ | ⟨-, he⟩
    · rw [hr.id_eq]
      exact hr.filled r hfilled
    · exact h.filled k e r he hfilled
  · intro k r hdelivering
    obtain ⟨e, he, hpoint, hans⟩ := h.delivering k r (hr.reader k r hdelivering)
    by_cases hk : k = i
    · subst hk
      rw [hc] at he
      cases he
      refine ⟨d, by rw [hr.replaces k, if_pos rfl], hr.left_numbered, ?_⟩
      rw [hr.answers, hr.id_eq]
      exact hans
    · refine ⟨e, by rw [hr.replaces k, if_neg hk]; exact he, hpoint, ?_⟩
      rw [hr.answers]
      exact hans
  · rcases hr.completes with ⟨heq, -⟩ | ⟨o, heq, ho, -⟩
    · rw [heq]
      exact hothers
    · rw [heq]
      intro k hk
      rw [List.map_append, List.mem_append] at hk
      rcases hk with hk | hk
      · exact hothers k hk
      · obtain rfl : k = i := List.mem_singleton.mp hk
        exact ⟨d, o, by rw [hr.replaces k, if_pos rfl], ho⟩
  · rcases hr.completes with ⟨heq, -⟩ | ⟨o, heq, -, hno, -⟩
    · rw [heq]
      exact h.once
    · have hfresh : i ∉ s.completions.map Prod.fst := by
        intro hmem
        obtain ⟨e, o', he, ho'⟩ := h.returned i hmem
        rw [hc] at he
        cases he
        exact hno o' ho'
      rw [heq, List.map_append]
      refine List.nodup_append.mpr ⟨h.once, List.nodup_singleton i, ?_⟩
      intro a ha b hb
      obtain rfl : b = i := List.mem_singleton.mp hb
      rintro rfl
      exact hfresh ha
  · rcases hr.completes with ⟨heq, -⟩ | ⟨o, heq, -, -, hcause⟩
    · rw [heq]
      exact hjustified
    · rw [heq]
      intro k o' ho'
      rcases List.mem_append.mp ho' with ho' | ho'
      · exact hjustified k o' ho'
      · obtain ⟨rfl, rfl⟩ := Prod.mk.inj (List.mem_singleton.mp ho')
        refine ⟨d, by rw [hr.replaces k, if_pos rfl], ?_⟩
        simpa only [hr.id_eq, hr.answers] using hcause

/-- The keys stay when the call waits after the step as before it. -/
theorem CallerInvariant.keys_same (h : CallerInvariant s) (hc : s.calls[i]? = some c)
    (hr : Replacement s s' i c d) (hmap : s'.inFlight = s.inFlight)
    (hreader : ∀ k ≠ i, ∀ r, s'.reader = .delivering k r ↔ s.reader = .delivering k r)
    (hwaiting : Waiting s' i d ↔ Waiting s i c) (id k : Nat) :
    s'.inFlight.get? id = some k ↔ WaitsFor s' id k := by
  rw [hmap, h.keys]
  by_cases hk : k = i
  · subst hk
    have hself : Replaces s s k c := by
      intro m
      by_cases hm : m = k
      · subst hm
        rw [if_pos rfl, hc]
      · rw [if_neg hm]
    rw [waitsFor_self hr.replaces, waitsFor_self hself, hr.id_eq, hwaiting]
  · rw [waitsFor_other hr.replaces hreader hk]

/-- The keys of a state in which the call's entry is gone and the call does not wait. -/
theorem CallerInvariant.keys_erased (h : CallerInvariant s) (hbound : s.calls.length < 2 ^ 64)
    (hc : s.calls[i]? = some c) (hr : Replacement s s' i c d)
    (hmap : s'.inFlight = s.inFlight.erase c.cmdId)
    (hreader : ∀ k ≠ i, ∀ r, s'.reader = .delivering k r ↔ s.reader = .delivering k r)
    (hgone : ¬Waiting s' i d) (id k : Nat) :
    s'.inFlight.get? id = some k ↔ WaitsFor s' id k := by
  rw [hmap, BTreeMap.get?_erase]
  by_cases hk : k = i
  · subst hk
    rw [waitsFor_self hr.replaces]
    constructor
    · split
      · intro hnone
        cases hnone
      · next hid =>
        intro hget
        obtain ⟨e, he, hid', -⟩ := (h.keys _ _).mp hget
        rw [hc] at he
        cases he
        exact absurd hid'.symm hid
    · rintro ⟨-, hwaiting⟩
      exact absurd hwaiting hgone
  · rw [waitsFor_other hr.replaces hreader hk, ← h.keys]
    split
    · next hid =>
      subst hid
      constructor
      · intro hnone
        cases hnone
      · intro hget
        exact absurd (h.owner hbound hc hget) hk
    · rfl

theorem replacement_setCall (hc : s.calls[i]? = some c) (f : Call → Call)
    (hid : (f c).cmdId = c.cmdId) (hpoint : (f c).point ≠ .numbered)
    (hfilled : ∀ r, (f c).mailbox = .filled r → Answers s c.cmdId r)
    (hstays : ∀ o, c.point = .completed o → (f c).point = .completed o) :
    Replacement s (s.setCall i f) i c (f c) :=
  ⟨replaces_setCall hc, hid, hpoint, rfl, rfl, fun _ _ hr => hr, hfilled, Or.inl ⟨rfl, hstays⟩⟩

theorem waiting_congr (hreader : s'.reader = s.reader) (hmailbox : d.mailbox = c.mailbox)
    (hc : c.point = .registered ∨ c.point = .refused ∨ c.point = .waiting ∨ c.point = .expired)
    (hd : d.point = .registered ∨ d.point = .refused ∨ d.point = .waiting ∨ d.point = .expired) :
    Waiting s' i d ↔ Waiting s i c := by
  simp only [Waiting, hreader, hmailbox, hc, hd, true_and]

/-- A waiting call moves on to another point in which it waits. -/
theorem CallerInvariant.advance (h : CallerInvariant s) (hc : s.calls[i]? = some c)
    (point : CallPoint)
    (hpoint : c.point = .registered ∨ c.point = .refused ∨ c.point = .waiting ∨
      c.point = .expired)
    (hpoint' : point = .registered ∨ point = .refused ∨ point = .waiting ∨ point = .expired) :
    CallerInvariant (s.setCall i fun c => { c with point }) := by
  have hr : Replacement s (s.setCall i fun c => { c with point }) i c { c with point } := by
    refine replacement_setCall hc (fun c => { c with point }) rfl ?_ (h.filled i c · hc) ?_
    · rcases hpoint' with rfl | rfl | rfl | rfl <;> simp
    · intro o ho
      rcases hpoint with hp | hp | hp | hp <;> rw [hp] at ho <;> cases ho
  exact h.replace hc hr (h.keys_same hc hr rfl (fun _ _ _ => Iff.rfl)
    (waiting_congr rfl rfl hpoint hpoint'))

/-- Taking a call's entry out changes at most the call's own mailbox. -/
theorem replaces_removeEntry (h : CallerInvariant s) (hbound : s.calls.length < 2 ^ 64)
    (hc : s.calls[i]? = some c) : ∃ mailbox,
      Replaces s (s.removeEntry c.cmdId) i { c with mailbox } ∧
      (∀ r, mailbox = .filled r → c.mailbox = .filled r) := by
  unfold State.removeEntry
  cases hget : s.inFlight.get? c.cmdId with
  | none =>
    refine ⟨c.mailbox, ?_, fun r hr => hr⟩
    intro k
    simp only [State.dropSender]
    by_cases hk : k = i
    · subst hk
      rw [if_pos rfl, hc]
    · rw [if_neg hk]
  | some k =>
    obtain rfl := h.owner hbound hc hget
    refine ⟨if c.mailbox = .empty then .closed else c.mailbox, replaces_setCall hc, ?_⟩
    intro r hr
    split at hr
    · cases hr
    · exact hr

theorem reader_removeEntry (id : Nat) : (s.removeEntry id).reader = s.reader := by
  unfold State.removeEntry State.dropSender
  split <;> rfl

/-- A call gives up: its entry goes and it returns. -/
theorem CallerInvariant.giveUp (h : CallerInvariant s) (hbound : s.calls.length < 2 ^ 64)
    (hc : s.calls[i]? = some c) (hpoint : c.point = .refused ∨ c.point = .expired)
    {o : Outcome} (ho : o = .timeout ∨ o = .sessionClosed) :
    CallerInvariant ((s.removeEntry c.cmdId).complete i o) := by
  obtain ⟨mailbox, hentry, hmailbox⟩ := replaces_removeEntry h hbound hc
  have hget : (s.removeEntry c.cmdId).calls[i]? = some { c with mailbox } := by
    rw [hentry i, if_pos rfl]
  have hreader := reader_removeEntry (s := s) c.cmdId
  have hkept : (s.removeEntry c.cmdId).nextCmdId = s.nextCmdId ∧
      (s.removeEntry c.cmdId).received = s.received ∧
      (s.removeEntry c.cmdId).completions = s.completions := by
    unfold State.removeEntry State.dropSender
    split <;> exact ⟨rfl, rfl, rfl⟩
  have hreplaces : Replaces s ((s.removeEntry c.cmdId).complete i o) i
      { c with mailbox, point := .completed o } := by
    intro k
    have hset := replaces_setCall (f := fun c => { c with point := .completed o }) hget k
    by_cases hk : k = i
    · rw [if_pos hk] at hset ⊢
      exact hset
    · rw [if_neg hk] at hset ⊢
      exact hset.trans (by rw [hentry k, if_neg hk])
  have hr : Replacement s ((s.removeEntry c.cmdId).complete i o) i c
      { c with mailbox, point := .completed o } := by
    refine ⟨hreplaces, rfl, by simp, hkept.1, hkept.2.1, ?_, ?_, Or.inr ⟨o, ?_, rfl, ?_, ?_⟩⟩
    · intro k r hk
      exact hreader ▸ hk
    · exact fun r hr => h.filled i c r hc (hmailbox r hr)
    · simp only [State.complete, hkept.2.2]
    · intro o' ho'
      rcases hpoint with hp | hp <;> rw [hp] at ho' <;> cases ho'
    · rcases ho with ho | ho
      · exact Or.inl ho
      · exact Or.inr (Or.inl ho)
  refine h.replace hc hr (h.keys_erased hbound hc hr rfl ?_ ?_)
  · intro k _ r
    have hsame : ((s.removeEntry c.cmdId).complete i o).reader = s.reader := hreader
    rw [hsame]
  · rintro ⟨hp, -⟩
    simp at hp

end Changes

section CallerSteps

variable {i : Nat} {c : Call}

theorem CallerInvariant.newCall (h : CallerInvariant s) (name : String) (params : Option Value) :
    CallerInvariant (newCall s name params) := by
  have hget : ∀ (k : Nat) (e : Call), (Rpc.newCall s name params).calls[k]? = some e →
      s.calls[k]? = some e ∨ (k = s.calls.length ∧
        e = ⟨(s.nextCmdId + 1) % 2 ^ 64, name, params, .numbered, .empty⟩) := by
    intro k e he
    simp only [Rpc.newCall] at he
    by_cases hk : k < s.calls.length
    · rw [List.getElem?_append_left hk] at he
      exact Or.inl he
    · have hlast := lt_of_get (s := Rpc.newCall s name params) he
      simp only [Rpc.newCall, List.length_append, List.length_singleton] at hlast
      obtain rfl : k = s.calls.length := by omega
      rw [List.getElem?_append_right (Nat.le_refl _)] at he
      simp only [Nat.sub_self, List.getElem?_cons_zero, Option.some.injEq] at he
      exact Or.inr ⟨rfl, he.symm⟩
  have hkept : ∀ (k : Nat) (e : Call), s.calls[k]? = some e →
      (Rpc.newCall s name params).calls[k]? = some e := by
    intro k e he
    simp only [Rpc.newCall]
    rw [List.getElem?_append_left (lt_of_get he)]
    exact he
  have hnone : ∀ r, s.reader ≠ .delivering s.calls.length r := by
    intro r hr
    obtain ⟨e, he, -⟩ := h.delivering _ r hr
    have hlt := lt_of_get he
    omega
  refine ⟨?_, ?_, ?_, ?_, ?_, ?_, ?_, h.once, ?_⟩
  · intro k e he
    rcases hget k e he with he | ⟨rfl, rfl⟩
    · exact h.ids k e he
    · simp only [h.counter]
      omega
  · simp only [Rpc.newCall, List.length_append, List.length_singleton, h.counter]
    omega
  · intro id k
    rw [show (Rpc.newCall s name params).inFlight = s.inFlight from rfl, h.keys]
    constructor
    · rintro ⟨e, he, hid, hwaiting⟩
      exact ⟨e, hkept k e he, hid, hwaiting⟩
    · rintro ⟨e, he, hid, hwaiting⟩
      rcases hget k e he with he | ⟨rfl, rfl⟩
      · exact ⟨e, he, hid, hwaiting⟩
      · have hp := hwaiting.1
        simp at hp
  · intro k e he hpoint
    rcases hget k e he with he | ⟨rfl, rfl⟩
    · exact h.numbered k e he hpoint
    · exact ⟨rfl, hnone⟩
  · intro k e r he hfilled
    rcases hget k e he with he | ⟨rfl, rfl⟩
    · exact h.filled k e r he hfilled
    · cases hfilled
  · intro k r hr
    obtain ⟨e, he, hpoint, hans⟩ := h.delivering k r hr
    exact ⟨e, hkept k e he, hpoint, hans⟩
  · intro k hk
    obtain ⟨e, o, he, ho⟩ := h.returned k hk
    exact ⟨e, o, hkept k e he, ho⟩
  · intro k o ho
    obtain ⟨e, he, hcause⟩ := h.justified k o ho
    exact ⟨e, hkept k e he, hcause⟩

/-- Registration adds the entry of the call, under an id no waiting call has. -/
theorem CallerInvariant.register (h : CallerInvariant s) (hbound : s.calls.length < 2 ^ 64)
    (hc : s.calls[i]? = some c) (hpoint : c.point = .numbered) :
    CallerInvariant ((s.insertEntry c.cmdId i).setCall i fun c => { c with point := .registered })
    := by
  obtain ⟨hempty, hno⟩ := h.numbered i c hc hpoint
  have hnone : s.inFlight.get? c.cmdId = none := by
    cases hget : s.inFlight.get? c.cmdId with
    | none => rfl
    | some k =>
      obtain rfl := h.owner hbound hc hget
      obtain ⟨e, he, -, hwaiting, -⟩ := (h.keys _ _).mp hget
      rw [hc] at he
      cases he
      rw [hpoint] at hwaiting
      simp at hwaiting
  have hentry : s.insertEntry c.cmdId i = { s with inFlight := s.inFlight.insert c.cmdId i } := by
    unfold State.insertEntry
    rw [hnone]
    rfl
  rw [hentry]
  have hr : Replacement s (State.setCall { s with inFlight := s.inFlight.insert c.cmdId i } i
      fun c => { c with point := .registered }) i c { c with point := .registered } := by
    refine ⟨replaces_setCall hc, rfl, by simp, rfl, rfl, fun _ _ hk => hk, ?_, Or.inl ⟨rfl, ?_⟩⟩
    · intro r hfilled
      rw [show c.mailbox = .empty from hempty] at hfilled
      cases hfilled
    · intro o ho
      rw [hpoint] at ho
      cases ho
  refine h.replace hc hr fun id k => ?_
  rw [show (State.setCall { s with inFlight := s.inFlight.insert c.cmdId i } i
    fun c => { c with point := .registered }).inFlight = s.inFlight.insert c.cmdId i from rfl,
    BTreeMap.get?_insert]
  by_cases hk : k = i
  · subst hk
    rw [waitsFor_self hr.replaces]
    constructor
    · split
      · next hid => exact fun _ => ⟨hid.symm, ⟨Or.inl rfl, hempty, hno⟩⟩
      · next hid =>
        intro hget
        obtain ⟨e, he, hid', -⟩ := (h.keys _ _).mp hget
        rw [hc] at he
        cases he
        exact absurd hid'.symm hid
    · rintro ⟨hid, -⟩
      rw [if_pos hid.symm]
  · rw [waitsFor_other hr.replaces (fun _ _ _ => Iff.rfl) hk, ← h.keys]
    split
    · next hid =>
      subst hid
      rw [hnone]
      constructor
      · intro hki
        exact absurd (Option.some.inj hki).symm hk
      · intro hget
        cases hget
    · rfl

/-- A response takes the entry of its call, if there is one, into the reader's hands. -/
theorem CallerInvariant.cmdResponse (h : CallerInvariant s) (hbound : s.calls.length < 2 ^ 64)
    (hidle : s.reader = .idle) (payload : CmdResponsePayload) :
    CallerInvariant (handleCmdResponse s payload) := by
  have hgrow : ∀ id r, Answers s id r →
      Answers { s with received := s.received ++ [payload] } id r := by
    rintro id r ⟨p, hp, hid, hr⟩
    exact ⟨p, List.mem_append_left _ hp, hid, hr⟩
  have hjustified : ∀ k o, (k, o) ∈ s.completions → ∃ e, s.calls[k]? = some e ∧
      (o = .timeout ∨ o = .sessionClosed ∨ ∃ r,
        Answers { s with received := s.received ++ [payload] } e.cmdId r ∧ o = r.outcome) := by
    intro k o ho
    obtain ⟨e, he, hcause⟩ := h.justified k o ho
    refine ⟨e, he, ?_⟩
    rcases hcause with hcause | hcause | ⟨r, hans, hcause⟩
    · exact Or.inl hcause
    · exact Or.inr (Or.inl hcause)
    · exact Or.inr (Or.inr ⟨r, hgrow _ _ hans, hcause⟩)
  unfold handleCmdResponse
  simp only
  cases hget : s.inFlight.get? payload.cmdId with
  | none =>
    refine ⟨h.ids, h.counter, h.keys, h.numbered, ?_, ?_, h.returned, h.once, hjustified⟩
    · exact fun k e r he hfilled => hgrow _ _ (h.filled k e r he hfilled)
    · intro k r hr
      rw [show s.reader = .idle from hidle] at hr
      cases hr
  | some k =>
    obtain ⟨c, hc, hid, hwaiting⟩ := (h.keys _ _).mp hget
    refine ⟨h.ids, h.counter, ?_, ?_, ?_, ?_, h.returned, h.once, hjustified⟩
    · intro id j
      rw [BTreeMap.get?_erase]
      constructor
      · split
        · intro hnone
          cases hnone
        · next hne =>
          intro hj
          obtain ⟨e, he, hid', hp, hmailbox, -⟩ := (h.keys _ _).mp hj
          refine ⟨e, he, hid', hp, hmailbox, fun r hr => hne ?_⟩
          injection hr with hkj
          subst hkj
          rw [hc] at he
          cases he
          exact hid'.symm.trans hid
      · rintro ⟨e, he, hid', hp, hmailbox, hreader⟩
        have hjk : j ≠ k := fun heq => hreader (resultOf payload) (by rw [heq])
        have hne : id ≠ payload.cmdId := by
          intro heq
          exact hjk (h.index_of_id hbound he hc (hid'.trans (heq.trans hid.symm)))
        rw [if_neg hne]
        refine (h.keys _ _).mpr ⟨e, he, hid', hp, hmailbox, fun r hr => ?_⟩
        rw [hidle] at hr
        cases hr
    · intro j e he hpoint
      refine ⟨(h.numbered j e he hpoint).1, fun r hr => ?_⟩
      injection hr with hkj
      subst hkj
      rw [hc] at he
      cases he
      have hp := hwaiting.1
      rw [hpoint] at hp
      simp at hp
    · exact fun j e r he hfilled => hgrow _ _ (h.filled j e r he hfilled)
    · intro j r hr
      injection hr with hkj hres
      subst hkj
      refine ⟨c, hc, ?_, payload, List.mem_append_right _ List.mem_cons_self, hid.symm, hres.symm⟩
      intro hpoint
      have hp := hwaiting.1
      rw [hpoint] at hp
      simp at hp

/-- The result in the reader's hands goes into the mailbox of its call. -/
theorem CallerInvariant.deliver (h : CallerInvariant s) {result : RpcResult}
    (hreader : s.reader = .delivering i result) : CallerInvariant (deliver s i result) := by
  obtain ⟨c, hc, hpoint, hans⟩ := h.delivering i result hreader
  have hr : Replacement s (Rpc.deliver s i result) i c
      { c with mailbox := if c.receiverAlive then .filled result else .closed } := by
    refine ⟨replaces_setCall hc, rfl, hpoint, rfl, rfl, ?_, ?_, Or.inl ⟨rfl, fun _ ho => ho⟩⟩
    · intro k r hk
      cases hk
    · intro r hfilled
      simp only at hfilled
      split at hfilled
      · cases hfilled
        exact hans
      · cases hfilled
  refine h.replace hc hr (h.keys_same hc hr rfl ?_ ?_)
  · intro k hk r
    constructor
    · intro hidle
      cases hidle
    · intro hdelivering
      rw [hreader] at hdelivering
      injection hdelivering with hki
      exact absurd hki.symm hk
  · constructor
    · rintro ⟨-, hmailbox, -⟩
      simp only at hmailbox
      split at hmailbox <;> cases hmailbox
    · rintro ⟨-, -, hno⟩
      exact absurd hreader (hno result)

theorem CallerInvariant.receive (h : CallerInvariant s) (hc : s.calls[i]? = some c)
    (hpoint : c.point = .waiting) (hmailbox : c.mailbox ≠ .empty) {o : Outcome}
    (ho : o = .timeout ∨ o = .sessionClosed ∨ ∃ r, Answers s c.cmdId r ∧ o = r.outcome) :
    CallerInvariant (s.complete i o) := by
  have hr : Replacement s (s.complete i o) i c { c with point := .completed o } := by
    refine ⟨replaces_setCall hc, rfl, by simp, rfl, rfl, fun _ _ hk => hk, ?_,
      Or.inr ⟨o, rfl, rfl, ?_, ho⟩⟩
    · exact fun r hfilled => h.filled i c r hc hfilled
    · intro o' ho'
      rw [hpoint] at ho'
      cases ho'
  refine h.replace hc hr (h.keys_same hc hr rfl (fun _ _ _ => Iff.rfl) ?_)
  constructor
  · rintro ⟨-, hempty, -⟩
    exact absurd hempty hmailbox
  · rintro ⟨-, hempty, -⟩
    exact absurd hempty hmailbox

end CallerSteps

section Echo

end Echo

end RpcCorrelation
