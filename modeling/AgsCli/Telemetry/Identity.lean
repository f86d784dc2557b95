import AgsCli.Auth.TokenData
import AgsCli.Library.Histories

/-! # The install identity

The anonymous id of an installation: how it is created, merged into the user who logs in and
replaced when another user does, and to whom the events of a run are attributed. -/
namespace TelemetryIdentity

open OrderedMap Json ConfigStore FieldWrites AuthToken Histories

section Files

structure InstallIdentity where
  installId : String
  mergedIntoSub : Option String
  deriving DecidableEq, Repr

def fields : Fields := [("install_id", .string), ("merged_into_sub", .string)]

def typed (i : InstallIdentity) : Typed :=
  [("install_id", some (.string i.installId)), ("merged_into_sub", i.mergedIntoSub.map .string)]

def ofTyped (config : Typed) : Option InstallIdentity :=
  ((config.field "install_id").bind TokenData.text).map fun installId =>
    ⟨installId, (config.field "merged_into_sub").bind TokenData.text⟩

def json (i : InstallIdentity) : String := (structJson fields (typed i)).render

/-- `serde_json::from_str` on an object; an array, which serde reads field by field, is refused. -/
def parse (r : Reader) (text : String) : Option InstallIdentity :=
  ((r.read text).bind (typedOf fields)).bind ofTyped

theorem hasType_typed (i : InstallIdentity) :
    ∀ e ∈ fields, ∀ v, (typed i).field e.1 = some v → HasType e.2 v := by
  intro e he v hv
  simp only [fields, List.mem_cons, List.not_mem_nil, or_false] at he
  rcases he with rfl | rfl
  · rw [← Option.some.inj hv]
    trivial
  · obtain ⟨s, -, rfl⟩ := Option.map_eq_some_iff.mp hv
    trivial

theorem parse_json (r : Reader) (i : InstallIdentity) : parse r (json i) = some i := by
  have hnodup : (fields.map Prod.fst).Nodup := by decide
  have htyped : fields.map (fun e => (e.1, (typed i).field e.1)) = typed i := rfl
  rw [parse, json, read_structJson r (hasType_typed i), Option.bind_some,
    typedOf_structJson hnodup (hasType_typed i), htyped, Option.bind_some]
  cases i with
  | mk installId mergedIntoSub => cases mergedIntoSub <;> rfl

def installIdPrefix : String := "anon-"

def hexByte (byte : UInt8) : List Char :=
  [hexDigit (byte.toNat / 16), hexDigit (byte.toNat % 16)]

def newInstallId (bytes : List UInt8) : String :=
  installIdPrefix ++ String.ofList (bytes.flatMap hexByte)

theorem hexByte_inj {a b : UInt8} (h : hexByte a = hexByte b) : a = b := by
  have hdigit : ∀ {m n : ℕ}, m < 16 → n < 16 → hexDigit m = hexDigit n → m = n := by
    intro m n hm hn heq
    have hval := hexVal_hexDigit hm
    rw [heq, hexVal_hexDigit hn] at hval
    exact (Option.some.inj hval).symm
  have ha := a.toNat_lt
  have hb := b.toNat_lt
  obtain ⟨hhigh, hlow⟩ := List.cons.inj h
  have hdiv := hdigit (by omega) (by omega) hhigh
  have hmod := hdigit (by omega) (by omega) (List.cons.inj hlow).1
  exact UInt8.toNat_inj.mp (by omega)

theorem newInstallId_inj {bytes bytes' : List UInt8}
    (h : newInstallId bytes = newInstallId bytes') : bytes = bytes' := by
  have hhex : bytes.flatMap hexByte = bytes'.flatMap hexByte := by
    have hlists := congrArg String.toList h
    rw [newInstallId, newInstallId, String.toList_append, String.toList_append] at hlists
    simpa using hlists
  clear h
  induction bytes generalizing bytes' with
  | nil =>
    cases bytes' with
    | nil => rfl
    | cons b rest => cases hhex
  | cons a rest ih =>
    cases bytes' with
    | nil => cases hhex
    | cons b rest' =>
      rw [List.flatMap_cons, List.flatMap_cons] at hhex
      obtain ⟨hbyte, hrest⟩ := List.append_inj hhex rfl
      rw [hexByte_inj hbyte, ih hrest]

end Files

section Machine

inductive ResolvedIdentity
  | authenticated (sub : String)
  | anonymous (installId : String)
  deriving DecidableEq, Repr

/-- What happens to be seen: a user's login, and the events that are sent. -/
inductive Entry
  | loggedIn (sub : String)
  | identify (sub anonId : String)
  | invoked (identity : ResolvedIdentity)
  deriving DecidableEq, Repr

/-- A profile: the text of the identity file, the stored token by the `sub` it carries, the number
of ids drawn so far, and what has happened. -/
structure State where
  file : Option String
  token : Option (Option String)
  drawn : ℕ
  log : List Entry

variable (r : Reader) (draw : ℕ → List UInt8)

def storedIdentity (s : State) : Option InstallIdentity := s.file.bind (parse r)

def State.capture (s : State) (e : Entry) : State := { s with log := s.log ++ [e] }

def writeInstallIdentity (identity : InstallIdentity) (s : State) : State :=
  { s with file := some (json identity) }

def createInstallIdentity (s : State) : InstallIdentity × State :=
  let identity := ⟨newInstallId (draw s.drawn), none⟩
  (identity, writeInstallIdentity identity { s with drawn := s.drawn + 1 })

def loadOrCreateInstallIdentity (enabled : Bool) (s : State) : Option InstallIdentity × State :=
  if !enabled then (none, s)
  else
    match storedIdentity r s with
    | some identity => (some identity, s)
    | none => (some (createInstallIdentity draw s).1, (createInstallIdentity draw s).2)

def recordIdentityMerge (enabled : Bool) (sub : String) (s : State) : State :=
  match loadOrCreateInstallIdentity r draw enabled s with
  | (none, s) => s
  | (some current, s) =>
    match current.mergedIntoSub with
    | some existing =>
      if existing ≠ sub then (createInstallIdentity draw s).2
      else writeInstallIdentity ⟨current.installId, some sub⟩ s
    | none => writeInstallIdentity ⟨current.installId, some sub⟩ s

def emitIdentityMerge (enabled : Bool) (sub : String) (s : State) : State :=
  match loadOrCreateInstallIdentity r draw enabled s with
  | (none, s) => s
  | (some identity, s) =>
    if identity.mergedIntoSub.isSome then recordIdentityMerge r draw enabled sub s
    else recordIdentityMerge r draw enabled sub (s.capture (.identify sub identity.installId))

def resolveIdentity (enabled : Bool) (s : State) : Option ResolvedIdentity × State :=
  if !enabled then (none, s)
  else
    match s.token with
    | some (some sub) => (some (.authenticated sub), s)
    | some none | none =>
      match loadOrCreateInstallIdentity r draw enabled s with
      | (identity, s) => (identity.map fun identity => .anonymous identity.installId, s)

/-- A login with the `sub` of its token, another change of the stored token (a logout, a login of a
client, a token that cannot be read), or an event that asks whom it is of. -/
inductive Event
  | login (enabled : Bool) (sub : Option String)
  | stored (token : Option (Option String))
  | invoked (enabled : Bool)
  deriving DecidableEq, Repr

def next (s : State) : Event → State
  | .login enabled sub =>
    let s := { s with token := some sub }
    match sub with
    | some sub => emitIdentityMerge r draw enabled sub (s.capture (.loggedIn sub))
    | none => s
  | .stored token => { s with token }
  | .invoked enabled =>
    match resolveIdentity r draw enabled s with
    | (some identity, s) => s.capture (.invoked identity)
    | (none, s) => s

def run (s : State) (events : List Event) : State := events.foldl (next r draw) s

end Machine

section Attribution

def Entry.mergedId : Entry → Option String
  | .identify _ anonId => some anonId
  | .loggedIn _ | .invoked _ => none

def Entry.user : Entry → Option String
  | .loggedIn sub => some sub
  | .identify .. | .invoked _ => none

/-- An anonymous event does not carry an id that is merged into the user who logged in last. -/
def Unmerged (before : List Entry) (e : Entry) : Prop :=
  ∀ installId sub, e = .invoked (.anonymous installId) →
    (before.filterMap Entry.user).getLast? = some sub → Entry.identify sub installId ∉ before

structure Attributed (log : List Entry) : Prop where
  mergedOnce : (log.filterMap Entry.mergedId).Nodup
  anonymous : Everywhere Unmerged log

def Event.user : Event → Option String
  | .login _ sub => sub
  | .stored _ | .invoked _ => none

/-- The user of a login that telemetry sees. -/
def Event.merging : Event → Option String
  | .login true sub => sub
  | .login false _ | .stored _ | .invoked _ => none

/-- A login merges an id that is free, and frees the one another user has. -/
def merge : Option String → String → Option String
  | none, sub => some sub
  | some existing, sub => if existing ≠ sub then none else some existing

/-- The user who has the id after some events. -/
def holder (events : List Event) : Option String :=
  (events.filterMap Event.merging).foldl merge none

def Event.token (token : Option (Option String)) : Event → Option (Option String)
  | .login _ sub => some sub
  | .stored token => token
  | .invoked _ => token

/-- An event that nobody is logged in for comes when the id is not the last user's. -/
def FreeOf (token : Option (Option String)) (before : List Event) (e : Event) : Prop :=
  e = .invoked true → (before.foldl Event.token token).join = none →
    ∀ sub, (before.filterMap Event.user).getLast? = some sub → holder before ≠ some sub

end Attribution

section Operations

variable {r : Reader} {draw : ℕ → List UInt8} {s : State} {i : InstallIdentity}

@[simp] theorem storedIdentity_write (i : InstallIdentity) (s : State) :
    storedIdentity r (writeInstallIdentity i s) = some i := parse_json r i

@[simp] theorem storedIdentity_create (s : State) :
    storedIdentity r (createInstallIdentity draw s).2 = some (createInstallIdentity draw s).1 :=
  parse_json r _

@[simp] theorem storedIdentity_capture (s : State) (e : Entry) :
    storedIdentity r (s.capture e) = storedIdentity r s := rfl

theorem load_of_stored (h : storedIdentity r s = some i) :
    loadOrCreateInstallIdentity r draw true s = (some i, s) := by
  simp [loadOrCreateInstallIdentity, h]

theorem load_of_none (h : storedIdentity r s = none) :
    loadOrCreateInstallIdentity r draw true s =
      (some (createInstallIdentity draw s).1, (createInstallIdentity draw s).2) := by
  simp [loadOrCreateInstallIdentity, h]

theorem record_of_none {sub : String} (h : storedIdentity r s = some i)
    (hnone : i.mergedIntoSub = none) :
    recordIdentityMerge r draw true sub s = writeInstallIdentity ⟨i.installId, some sub⟩ s := by
  simp [recordIdentityMerge, load_of_stored h, hnone]

/-- What a seen login does to the file and the log. -/
theorem emit_cases (r : Reader) (draw : ℕ → List UInt8) (sub : String) (s : State) :
    (storedIdentity r s = none ∧ emitIdentityMerge r draw true sub s =
      writeInstallIdentity ⟨(createInstallIdentity draw s).1.installId, some sub⟩
        ((createInstallIdentity draw s).2.capture
          (.identify sub (createInstallIdentity draw s).1.installId))) ∨
    (∃ i, storedIdentity r s = some i ∧ i.mergedIntoSub = none ∧
      emitIdentityMerge r draw true sub s =
        writeInstallIdentity ⟨i.installId, some sub⟩ (s.capture (.identify sub i.installId))) ∨
    (∃ i, storedIdentity r s = some i ∧ i.mergedIntoSub = some sub ∧
      emitIdentityMerge r draw true sub s = writeInstallIdentity i s) ∨
    (∃ i existing, storedIdentity r s = some i ∧ i.mergedIntoSub = some existing ∧
      existing ≠ sub ∧ emitIdentityMerge r draw true sub s = (createInstallIdentity draw s).2) := by
  cases hstored : storedIdentity r s with
  | none =>
    refine .inl ⟨rfl, ?_⟩
    have hfree : (createInstallIdentity draw s).1.mergedIntoSub.isSome = false := rfl
    rw [emitIdentityMerge, load_of_none hstored]
    simp only [hfree, Bool.false_eq_true, if_false]
    exact record_of_none (by rw [storedIdentity_capture, storedIdentity_create]) rfl
  | some i =>
    refine .inr ?_
    cases hmerged : i.mergedIntoSub with
    | none =>
      refine .inl ⟨i, rfl, hmerged, ?_⟩
      rw [emitIdentityMerge, load_of_stored hstored]
      simp only [hmerged, Option.isSome_none, Bool.false_eq_true, if_false]
      exact record_of_none hstored hmerged
    | some existing =>
      have hemit : emitIdentityMerge r draw true sub s = recordIdentityMerge r draw true sub s := by
        simp [emitIdentityMerge, load_of_stored hstored, hmerged]
      rw [hemit, recordIdentityMerge, load_of_stored hstored]
      by_cases heq : existing = sub
      · subst heq
        refine .inr (.inl ⟨i, rfl, hmerged, ?_⟩)
        simp only [hmerged, ne_eq, not_true_eq_false, if_false]
        rw [← hmerged]
      · refine .inr (.inr ⟨i, existing, rfl, hmerged, heq, ?_⟩)
        simp only [hmerged, ne_eq, heq, not_false_eq_true, if_true]

/-- An event that nobody is logged in for carries the id of the file. -/
theorem next_anonymous (r : Reader) (draw : ℕ → List UInt8) (h : s.token.join = none) :
    ∃ i t, storedIdentity r t = some i ∧
      (t = s ∨ storedIdentity r s = none ∧ t = (createInstallIdentity draw s).2) ∧
      next r draw s (.invoked true) = t.capture (.invoked (.anonymous i.installId)) := by
  have hresolve : resolveIdentity r draw true s =
      ((loadOrCreateInstallIdentity r draw true s).1.map fun i => .anonymous i.installId,
        (loadOrCreateInstallIdentity r draw true s).2) := by
    rw [resolveIdentity]
    rcases htoken : s.token with _ | _ | sub
    · rfl
    · rfl
    · rw [htoken] at h
      cases h
  cases hstored : storedIdentity r s with
  | none =>
    refine ⟨(createInstallIdentity draw s).1, (createInstallIdentity draw s).2,
      storedIdentity_create s, .inr ⟨rfl, rfl⟩, ?_⟩
    rw [next, hresolve, load_of_none hstored]
    rfl
  | some i =>
    refine ⟨i, s, hstored, .inl rfl, ?_⟩
    rw [next, hresolve, load_of_stored hstored]
    rfl

theorem next_authenticated {sub : String} (h : s.token.join = some sub) :
    next r draw s (.invoked true) = s.capture (.invoked (.authenticated sub)) := by
  have htoken : s.token = some (some sub) := Option.join_eq_some_iff.mp h
  rw [next, resolveIdentity]
  simp [htoken]

end Operations

section Invariant

def Distinct (draw : ℕ → List UInt8) (n : ℕ) : Prop :=
  ∀ i < n, ∀ j < n, draw i = draw j → i = j

structure Current (draw : ℕ → List UInt8) (held : Option String) (s : State)
    (i : InstallIdentity) : Prop where
  mergedInto : i.mergedIntoSub = held
  drawn : ∃ n < s.drawn, i.installId = newInstallId (draw n)
  merged : ∀ sub, .identify sub i.installId ∈ s.log ↔ held = some sub

/-- A state after logins of some users which left the id to `held`. -/
structure Tracks (r : Reader) (draw : ℕ → List UInt8) (users : List String)
    (held : Option String) (s : State) : Prop where
  users : s.log.filterMap Entry.user = users
  drawn : ∀ anonId ∈ s.log.filterMap Entry.mergedId, ∃ n < s.drawn, anonId = newInstallId (draw n)
  mergedOnce : (s.log.filterMap Entry.mergedId).Nodup
  absent : storedIdentity r s = none → held = none
  current : ∀ i, storedIdentity r s = some i → Current draw held s i

variable {r : Reader} {draw : ℕ → List UInt8} {users : List String} {held : Option String}
variable {s : State} {i : InstallIdentity}

theorem Distinct.mono {m n : ℕ} (h : Distinct draw n) (hle : m ≤ n) : Distinct draw m :=
  fun i hi j hj => h i (hi.trans_le hle) j (hj.trans_le hle)

theorem mem_mergedId {sub anonId : String} {log : List Entry}
    (h : .identify sub anonId ∈ log) : anonId ∈ log.filterMap Entry.mergedId :=
  List.mem_filterMap.mpr ⟨_, h, rfl⟩

/-- An entry that merges nothing. -/
theorem Tracks.capture {e : Entry} (h : Tracks r draw users held s) (he : e.mergedId = none) :
    Tracks r draw (users ++ e.user.toList) held (s.capture e) := by
  have hids : (s.capture e).log.filterMap Entry.mergedId = s.log.filterMap Entry.mergedId := by
    simp [State.capture, List.filterMap_append, he]
  refine ⟨?_, hids ▸ h.drawn, hids ▸ h.mergedOnce, h.absent, fun i hi => ?_⟩
  · rw [State.capture, List.filterMap_append, h.users]
    cases huser : e.user <;> simp [huser]
  · obtain ⟨hheld, hdrawn, hmerged⟩ := h.current i hi
    refine ⟨hheld, hdrawn, fun sub => ?_⟩
    rw [← hmerged sub, State.capture, List.mem_append]
    refine ⟨fun hmem => hmem.resolve_right fun heq => ?_, .inl⟩
    rw [← List.mem_singleton.mp heq] at he
    cases he

theorem Tracks.token (h : Tracks r draw users held s) (token : Option (Option String)) :
    Tracks r draw users held { s with token } :=
  ⟨h.users, h.drawn, h.mergedOnce, h.absent, fun i hi =>
    ⟨(h.current i hi).mergedInto, (h.current i hi).drawn, (h.current i hi).merged⟩⟩

/-- A new id is nobody's. -/
theorem Tracks.create (h : Tracks r draw users held s) (hdistinct : Distinct draw (s.drawn + 1)) :
    Tracks r draw users none (createInstallIdentity draw s).2 := by
  refine ⟨h.users, fun anonId hmem => ?_, h.mergedOnce, fun _ => rfl, fun i hi => ?_⟩
  · obtain ⟨n, hn, hid⟩ := h.drawn anonId hmem
    exact ⟨n, Nat.lt_succ_of_lt hn, hid⟩
  · rw [storedIdentity_create] at hi
    cases hi
    refine ⟨rfl, ⟨s.drawn, Nat.lt_succ_self _, rfl⟩, fun sub => ?_⟩
    refine iff_of_false (fun hmem => ?_) (Option.some_ne_none sub).symm
    obtain ⟨n, hn, hid⟩ := h.drawn _ (mem_mergedId hmem)
    have heq := hdistinct s.drawn (Nat.lt_succ_self _) n (Nat.lt_succ_of_lt hn)
      (newInstallId_inj hid)
    omega

/-- A free id is merged into a user. -/
theorem Tracks.identify (h : Tracks r draw users none s) (hi : storedIdentity r s = some i)
    (sub : String) : Tracks r draw users (some sub)
      (writeInstallIdentity ⟨i.installId, some sub⟩ (s.capture (.identify sub i.installId))) := by
  obtain ⟨-, hdrawn, hmerged⟩ := h.current i hi
  have hids : (s.log ++ [Entry.identify sub i.installId]).filterMap Entry.mergedId =
      s.log.filterMap Entry.mergedId ++ [i.installId] := by
    rw [List.filterMap_append]
    rfl
  have hfresh : i.installId ∉ s.log.filterMap Entry.mergedId := by
    intro hmem
    obtain ⟨e, he, hid⟩ := List.mem_filterMap.mp hmem
    cases e with
    | identify sub' anonId =>
      cases hid
      cases (hmerged sub').mp he
    | loggedIn sub' | invoked identity => cases hid
  refine ⟨?_, ?_, ?_, fun hnone => ?_, fun i' hi' => ?_⟩
  · exact (List.filterMap_append ..).trans ((List.append_nil _).trans h.users)
  · intro anonId hmem
    rw [writeInstallIdentity, State.capture, hids, List.mem_append, List.mem_singleton] at hmem
    rcases hmem with hmem | rfl
    · exact h.drawn anonId hmem
    · exact hdrawn
  · rw [writeInstallIdentity, State.capture, hids]
    exact h.mergedOnce.append (List.nodup_singleton _) (by simpa using hfresh)
  · rw [storedIdentity_write] at hnone
    cases hnone
  · rw [storedIdentity_write] at hi'
    cases hi'
    refine ⟨rfl, hdrawn, fun sub' => ?_⟩
    rw [writeInstallIdentity, State.capture, List.mem_append, hmerged sub']
    simp [eq_comm]

theorem Tracks.rewrite (h : Tracks r draw users held s) (hi : storedIdentity r s = some i) :
    Tracks r draw users held (writeInstallIdentity i s) := by
  refine ⟨h.users, h.drawn, h.mergedOnce, fun hnone => ?_, fun i' hi' => ?_⟩
  · rw [storedIdentity_write] at hnone
    cases hnone
  · rw [storedIdentity_write] at hi'
    cases hi'
    obtain ⟨hheld, hdrawn, hmerged⟩ := h.current i hi
    exact ⟨hheld, hdrawn, hmerged⟩

/-- A seen login leaves the id to whom `merge` says. -/
theorem Tracks.emit {sub : String} (h : Tracks r draw users held s)
    (hdistinct : Distinct draw (emitIdentityMerge r draw true sub s).drawn) :
    Tracks r draw users (merge held sub) (emitIdentityMerge r draw true sub s) := by
  rcases emit_cases r draw sub s with ⟨hnone, heq⟩ | ⟨i, hi, hmerged, heq⟩ |
    ⟨i, hi, hmerged, heq⟩ | ⟨i, existing, hi, hmerged, hne, heq⟩
  · rw [heq] at hdistinct ⊢
    rw [h.absent hnone]
    exact (h.create hdistinct).identify (storedIdentity_create s) sub
  · have hheld := hmerged ▸ (h.current i hi).mergedInto
    subst hheld
    rw [heq]
    exact h.identify hi sub
  · have hheld := hmerged ▸ (h.current i hi).mergedInto
    subst hheld
    rw [heq, merge, if_neg (not_not_intro rfl)]
    exact h.rewrite hi
  · have hheld := hmerged ▸ (h.current i hi).mergedInto
    subst hheld
    rw [heq] at hdistinct ⊢
    rw [merge, if_pos hne]
    exact h.create hdistinct

theorem Tracks.anonymous (h : Tracks r draw users held s) (htoken : s.token.join = none)
    (hdistinct : Distinct draw (next r draw s (.invoked true)).drawn) :
    ∃ i t, Tracks r draw users held t ∧ Current draw held t i ∧ t.token = s.token ∧
      t.log = s.log ∧
      next r draw s (.invoked true) = t.capture (.invoked (.anonymous i.installId)) := by
  obtain ⟨i, t, hi, ht, hnext⟩ := next_anonymous r draw htoken
  refine ⟨i, t, ?_⟩
  rcases ht with rfl | ⟨hnone, rfl⟩
  · exact ⟨h, h.current i hi, rfl, rfl, hnext⟩
  · rw [hnext] at hdistinct
    have htracks := h.absent hnone ▸ h.create hdistinct
    exact ⟨htracks, htracks.current i hi, rfl, rfl, hnext⟩

end Invariant

section Runs

variable {r : Reader} {draw : ℕ → List UInt8} {s : State} {events : List Event} {e : Event}
variable {token : Option (Option String)}

/-- The state in which a login is told to telemetry. -/
def loggedIn (s : State) (sub : String) : State :=
  State.capture { s with token := some (some sub) } (.loggedIn sub)

theorem drawn_le_emit (sub : String) (s : State) :
    s.drawn ≤ (emitIdentityMerge r draw true sub s).drawn := by
  rcases emit_cases r draw sub s with ⟨-, heq⟩ | ⟨i, -, -, heq⟩ | ⟨i, -, -, heq⟩ |
    ⟨i, existing, -, -, -, heq⟩ <;> rw [heq]
  · exact Nat.le_succ s.drawn
  · exact le_rfl
  · exact le_rfl
  · exact Nat.le_succ s.drawn

theorem drawn_le_next (s : State) (e : Event) : s.drawn ≤ (next r draw s e).drawn := by
  cases e with
  | login enabled sub =>
    cases sub with
    | none => exact le_rfl
    | some sub =>
      cases enabled with
      | false => exact le_rfl
      | true => exact drawn_le_emit sub (loggedIn s sub)
  | stored token => exact le_rfl
  | invoked enabled =>
    cases enabled with
    | false => exact le_rfl
    | true =>
      cases htoken : s.token.join with
      | some sub =>
        rw [next_authenticated htoken]
        exact le_rfl
      | none =>
        obtain ⟨i, t, -, ht, hnext⟩ := next_anonymous r draw htoken
        rw [hnext]
        rcases ht with rfl | ⟨-, rfl⟩
        · exact le_rfl
        · exact Nat.le_succ s.drawn

theorem anonymous_emit (sub : String) (s : State) :
    Everywhere Unmerged (emitIdentityMerge r draw true sub s).log ↔ Everywhere Unmerged s.log := by
  have hidentify : ∀ anonId log, Unmerged log (.identify sub anonId) := by
    intro anonId log installId sub' heq
    cases heq
  rcases emit_cases r draw sub s with ⟨-, heq⟩ | ⟨i, -, -, heq⟩ | ⟨i, -, -, heq⟩ |
    ⟨i, existing, -, -, -, heq⟩ <;> rw [heq]
  · exact everywhere_snoc_of (hidentify _ _)
  · exact everywhere_snoc_of (hidentify _ _)
  · exact Iff.rfl
  · exact Iff.rfl

structure Follows (r : Reader) (draw : ℕ → List UInt8) (token : Option (Option String))
    (events : List Event) (s : State) : Prop where
  token : s.token = events.foldl Event.token token
  tracks : Tracks r draw (events.filterMap Event.user) (holder events) s

theorem users_snoc : (events ++ [e]).filterMap Event.user =
    events.filterMap Event.user ++ e.user.toList := by
  rw [List.filterMap_append]
  cases huser : e.user <;> simp [huser]

theorem holder_snoc : holder (events ++ [e]) =
    e.merging.toList.foldl merge (holder events) := by
  rw [holder, holder, List.filterMap_append, List.foldl_append]
  cases hmerging : e.merging <;> simp [hmerging]

theorem token_snoc : (events ++ [e]).foldl Event.token token =
    e.token (events.foldl Event.token token) := by
  rw [List.foldl_append]
  rfl

theorem freeOf_login {enabled : Bool} {sub : Option String} :
    FreeOf token events (.login enabled sub) := fun heq => by cases heq

theorem Follows.loggedIn (h : Follows r draw token events s) (sub : String) :
    Tracks r draw (events.filterMap Event.user ++ [sub]) (holder events) (loggedIn s sub) :=
  (h.tracks.token (some (some sub))).capture (e := .loggedIn sub) rfl

theorem anonymous_loggedIn (sub : String) :
    Everywhere Unmerged (loggedIn s sub).log ↔ Everywhere Unmerged s.log :=
  everywhere_snoc_of fun installId sub' heq => by cases heq

/-- An anonymous event is faultless exactly where it comes at a free id. -/
theorem unmerged_iff {t : State} {i : InstallIdentity}
    (htracks : Tracks r draw (events.filterMap Event.user) (holder events) t)
    (hcurrent : Current draw (holder events) t i)
    (htoken : (events.foldl Event.token token).join = none) :
    Unmerged t.log (.invoked (.anonymous i.installId)) ↔
      FreeOf token events (.invoked true) := by
  rw [Unmerged, htracks.users]
  constructor
  · intro h _ _ sub hlast hheld
    exact h i.installId sub rfl hlast ((hcurrent.merged sub).mpr hheld)
  · intro h installId sub heq hlast hmem
    cases heq
    exact h rfl htoken sub hlast ((hcurrent.merged sub).mp hmem)

theorem token_emit (sub : String) (s : State) :
    (emitIdentityMerge r draw true sub s).token = s.token := by
  rcases emit_cases r draw sub s with ⟨-, heq⟩ | ⟨i, -, -, heq⟩ | ⟨i, -, -, heq⟩ |
    ⟨i, existing, -, -, -, heq⟩ <;> rw [heq] <;> rfl

theorem Follows.snoc {t : State} (htoken : t.token = e.token (events.foldl Event.token token))
    (htracks : Tracks r draw (events.filterMap Event.user ++ e.user.toList)
      (e.merging.toList.foldl merge (holder events)) t) :
    Follows r draw token (events ++ [e]) t :=
  ⟨htoken.trans token_snoc.symm, users_snoc ▸ holder_snoc ▸ htracks⟩

theorem follows_login {enabled : Bool} {sub : String} (h : Follows r draw token events s)
    (hdistinct : Distinct draw (next r draw s (.login enabled (some sub))).drawn) :
    Follows r draw token (events ++ [.login enabled (some sub)])
        (next r draw s (.login enabled (some sub))) ∧
      (Everywhere Unmerged (next r draw s (.login enabled (some sub))).log ↔
        Everywhere Unmerged s.log) := by
  have hlogin := h.loggedIn sub
  cases enabled with
  | false => exact ⟨.snoc rfl hlogin, anonymous_loggedIn sub⟩
  | true =>
    refine ⟨.snoc (token_emit sub _) (hlogin.emit hdistinct), ?_⟩
    exact (anonymous_emit sub _).trans (anonymous_loggedIn sub)

theorem follows_invoked (h : Follows r draw token events s)
    (hdistinct : Distinct draw (next r draw s (.invoked true)).drawn) :
    Follows r draw token (events ++ [.invoked true]) (next r draw s (.invoked true)) ∧
      (Everywhere Unmerged (next r draw s (.invoked true)).log ↔
        Everywhere Unmerged s.log ∧ FreeOf token events (.invoked true)) := by
  cases htoken : s.token.join with
  | some sub =>
    have hloggedIn : (events.foldl Event.token token).join ≠ none := by
      rw [← h.token, htoken]
      exact Option.some_ne_none sub
    have hunmerged : Unmerged s.log (.invoked (.authenticated sub)) :=
      fun installId sub' heq => by cases heq
    have hcapture := h.tracks.capture (e := .invoked (.authenticated sub)) rfl
    rw [next_authenticated htoken]
    refine ⟨.snoc h.token hcapture, ?_⟩
    refine (everywhere_snoc_of hunmerged).trans (and_iff_left ?_).symm
    exact fun _ hnone => absurd hnone hloggedIn
  | none =>
    obtain ⟨i, t, htracks, hcurrent, htoken', hlog, hnext⟩ :=
      h.tracks.anonymous htoken hdistinct
    have hcapture := htracks.capture (e := .invoked (.anonymous i.installId)) rfl
    have hnobody : (events.foldl Event.token token).join = none := h.token ▸ htoken
    rw [hnext]
    refine ⟨.snoc (htoken'.trans h.token) hcapture, everywhere_snoc.trans ?_⟩
    rw [unmerged_iff htracks hcurrent hnobody, hlog]

/-- A step keeps to the events, and is faultless where its event comes at a free id. -/
theorem follows_next (h : Follows r draw token events s)
    (hdistinct : Distinct draw (next r draw s e).drawn) :
    Follows r draw token (events ++ [e]) (next r draw s e) ∧
      (Everywhere Unmerged (next r draw s e).log ↔
        Everywhere Unmerged s.log ∧ FreeOf token events e) := by
  cases e with
  | login enabled sub =>
    cases sub with
    | some sub =>
      obtain ⟨hfollows, hlog⟩ := follows_login h hdistinct
      exact ⟨hfollows, hlog.trans (and_iff_left freeOf_login).symm⟩
    | none =>
      have hnobody : (Event.login enabled none).merging = none := by cases enabled <;> rfl
      refine ⟨.snoc rfl ?_, (and_iff_left freeOf_login).symm⟩
      rw [hnobody, Event.user, Option.toList_none, List.append_nil]
      exact h.tracks.token (some none)
  | stored stored =>
    refine ⟨.snoc rfl ?_, (and_iff_left fun heq => by cases heq).symm⟩
    rw [Event.user, Option.toList_none, List.append_nil]
    exact h.tracks.token stored
  | invoked enabled =>
    cases enabled with
    | true => exact follows_invoked h hdistinct
    | false =>
      refine ⟨.snoc h.token ?_, (and_iff_left fun heq => by cases heq).symm⟩
      rw [Event.user, Option.toList_none, List.append_nil]
      exact h.tracks

theorem run_snoc : run r draw s (events ++ [e]) = next r draw (run r draw s events) e := by
  rw [run, run, List.foldl_append]
  rfl

/-- A profile without an identity, before anything is seen of it. -/
def start (file : Option String) (token : Option (Option String)) : State :=
  { file, token, drawn := 0, log := [] }

theorem follows_start {file : Option String} (hfile : file.bind (parse r) = none) :
    Follows r draw token [] (start file token) := by
  refine ⟨rfl, rfl, fun anonId h => ?_, List.nodup_nil, fun _ => rfl, fun i hi => ?_⟩
  · cases h
  · cases hfile.symm.trans hi

theorem follows_run {file : Option String} (hfile : file.bind (parse r) = none)
    (hdistinct : Distinct draw (run r draw (start file token) events).drawn) :
    Follows r draw token events (run r draw (start file token) events) ∧
      (Everywhere Unmerged (run r draw (start file token) events).log ↔
        Everywhere (FreeOf token) events) := by
  induction events using List.reverseRecOn with
  | nil => exact ⟨follows_start hfile, iff_of_true (everywhere_nil _) (everywhere_nil _)⟩
  | append_singleton events e ih =>
    rw [run_snoc] at hdistinct ⊢
    obtain ⟨hfollows, hlog⟩ := ih (hdistinct.mono (drawn_le_next _ e))
    obtain ⟨hnext, hlog'⟩ := follows_next hfollows hdistinct
    exact ⟨hnext, hlog'.trans ((and_congr_left' hlog).trans everywhere_snoc.symm)⟩

/-- Whatever the order of logins and events, no id is merged twice. -/
theorem merged_once {file : Option String} (hfile : file.bind (parse r) = none)
    (hdistinct : Distinct draw (run r draw (start file token) events).drawn) :
    ((run r draw (start file token) events).log.filterMap Entry.mergedId).Nodup :=
  (follows_run hfile hdistinct).1.tracks.mergedOnce

/-- Over a run of logins and events each id is merged at most once; and no anonymous event carries
an id that the last user has exactly when each comes while that user does not hold the id. -/
theorem identities_attributed_iff (r : Reader) (draw : ℕ → List UInt8) {file : Option String}
    (token : Option (Option String)) (events : List Event)
    (hfile : file.bind (parse r) = none)
    (hdistinct : Distinct draw (run r draw (start file token) events).drawn) :
    Attributed (run r draw (start file token) events).log ↔ Everywhere (FreeOf token) events := by
  obtain ⟨-, hlog⟩ := follows_run hfile hdistinct
  exact ⟨fun h => hlog.mp h.anonymous, fun h => ⟨merged_once hfile hdistinct, hlog.mpr h⟩⟩

end Runs

section Users

def bytesOf (n : ℕ) : List UInt8 := List.replicate 16 (UInt8.ofNat n)

/-- One user logs in and out again, and the next one asks before logging in. -/
def handover : List Event :=
  [.invoked true, .login true (some "user-a"), .stored none, .invoked true,
    .login true (some "user-b")]

theorem run_handover (r : Reader) (draw : ℕ → List UInt8) :
    run r draw (start none none) handover =
      { file := some (json ⟨newInstallId (draw 1), none⟩)
        token := some (some "user-b")
        drawn := 2
        log :=
          [.invoked (.anonymous (newInstallId (draw 0))), .loggedIn "user-a",
            .identify "user-a" (newInstallId (draw 0)),
            .invoked (.anonymous (newInstallId (draw 0))), .loggedIn "user-b"] } := by
  simp [run, handover, next, resolveIdentity, loadOrCreateInstallIdentity, start, storedIdentity,
    createInstallIdentity, writeInstallIdentity, parse_json, emitIdentityMerge,
    recordIdentityMerge, State.capture]

theorem identities_attributed_handover :
    Attributed (run textReader bytesOf (start none none) handover).log ↔
      Everywhere (FreeOf none) handover := by
  refine identities_attributed_iff textReader bytesOf none handover rfl ?_
  rw [run_handover]
  show ∀ i < 2, ∀ j < 2, bytesOf i = bytesOf j → i = j
  decide

/-- What the next user does before logging in is of the user who was there before. -/
theorem handover_misattributed :
    ¬Attributed (run textReader bytesOf (start none none) handover).log := by
  intro h
  have hanonymous := h.anonymous
  rw [run_handover] at hanonymous
  refine hanonymous [.invoked (.anonymous (newInstallId (bytesOf 0))), .loggedIn "user-a",
    .identify "user-a" (newInstallId (bytesOf 0))] _ [.loggedIn "user-b"] rfl
    (newInstallId (bytesOf 0)) "user-a" rfl rfl ?_
  simp

end Users

end TelemetryIdentity
