import AgsCli.Tunnel.SessionFacts

/-! # Session teardown

After `run` has returned and the tasks are done no stream is left registered or open, provided no
stream is announced that was registered after the teardown took the map. The detached task that
answers an OPEN can do exactly that. -/
namespace Teardown

open OrderedMap Tunnel Session SessionFacts

variable {s s' : Endpoint} {h : Nat} {st st' : Stream}

/-- What is left of the teardown, or of the reader's last frame, closes the stream. -/
def Owed (r : RunPoint) (id h : Nat) : Prop :=
  match r with
  | .closing h' => h' = h
  | .clearing todo => todo.get? id = some h
  | .dropping h' todo => h' = h ∨ todo.get? id = some h
  | _ => False

/-- The announcement of a late stream has not been tried, or has failed. -/
def Unannounced (st : Stream) : Prop :=
  st.late = true ∧ (st.task = .announcing ∨ st.task = .removing)

/-- Some task still holds the stream and closes it. -/
def Covered (s : Endpoint) (h : Nat) (st : Stream) : Prop :=
  st.closed = true ∨ st.task = .closing ∨ Owed s.run st.id h ∨
    (s.run.torn = false ∧ s.streams.get? st.id = some h) ∨ (s.run.torn = true ∧ Unannounced st)

/-- Every registered stream is closed or covered, and after the take only late streams that are
not announced are in the map. -/
structure Tidy (s : Endpoint) : Prop where
  mapped : ∀ id h, s.streams.get? id = some h → ∃ st, s.table[h]? = some st ∧ st.id = id ∧
    (s.run.torn = true → Unannounced st)
  punctual : s.run.torn = false → ∀ (h : Nat) (st : Stream), s.table[h]? = some st →
    st.late = false
  covered : ∀ (h : Nat) (st : Stream), s.table[h]? = some st → Covered s h st

/-- No stream registered after the take is announced, and before the take the removal after a
failed announcement only meets the entry of its own stream. -/
def Guarded (s : Endpoint) : Event → Prop
  | .task h .announce => ∀ st ∈ s.table[h]?, st.late = true → s.channelOpen = false
  | .task h .remove => s.run.torn = false → ∀ st ∈ s.table[h]?, ∀ h',
      s.streams.get? st.id = some h' → h' = h
  | _ => True

theorem tidy_initial (role : SessionRole) : Tidy (initial role) := by
  constructor
  · intro id h hget
    simp [initial] at hget
  · intro _ h st hst
    simp [initial] at hst
  · intro h st hst
    simp [initial] at hst

section Frames

theorem Tidy.congr (ht : Tidy s) (htable : s'.table = s.table) (hstreams : s'.streams = s.streams)
    (hrun : s'.run = s.run) : Tidy s' := by
  obtain ⟨hmapped, hpunctual, hcovered⟩ := ht
  constructor
  · simpa only [htable, hstreams, hrun] using hmapped
  · simpa only [htable, hrun] using hpunctual
  · simpa only [Covered, htable, hstreams, hrun] using hcovered

/-- A move of `run` that keeps what it owes. -/
theorem Tidy.run (ht : Tidy s) {r : RunPoint} (htorn : r.torn = s.run.torn)
    (howed : ∀ id h, Owed s.run id h → Owed r id h) : Tidy (s.setRun r) := by
  obtain ⟨hmapped, hpunctual, hcovered⟩ := ht
  constructor
  · intro id h hget
    obtain ⟨st, hst, hid, hlate⟩ := hmapped id h hget
    exact ⟨st, hst, hid, fun hr => hlate (htorn ▸ hr)⟩
  · intro hr h st hst
    exact hpunctual (htorn ▸ hr) h st hst
  · intro h st hst
    rcases hcovered h st hst with hc | hc | hc | ⟨hr, hc⟩ | ⟨hr, hc⟩
    · exact Or.inl hc
    · exact Or.inr (Or.inl hc)
    · exact Or.inr (Or.inr (Or.inl (howed _ _ hc)))
    · exact Or.inr (Or.inr (Or.inr (Or.inl ⟨htorn.trans hr, hc⟩)))
    · exact Or.inr (Or.inr (Or.inr (Or.inr ⟨htorn.trans hr, hc⟩)))

/-- A move of `run` with nothing owed before. -/
theorem Tidy.idle (ht : Tidy s) {r r' : RunPoint} (hrun : s.run = r) (htorn : r'.torn = r.torn)
    (hidle : ∀ id h, ¬ Owed r id h) : Tidy (s.setRun r') := by
  subst hrun
  exact ht.run htorn fun id h howed => absurd howed (hidle id h)

theorem Tidy.setStream (ht : Tidy s) (hst : s.table[h]? = some st) (hid : st'.id = st.id)
    (hlate : st'.late = st.late)
    (hkeep : s.run.torn = true → Unannounced st → s.streams.get? st.id = some h →
      Unannounced st')
    (hcov : Covered s h st → Covered s h st') : Tidy (s.setStream h st') := by
  obtain ⟨hmapped, hpunctual, hcovered⟩ := ht
  constructor
  · intro id j hget
    obtain ⟨su, hsu, hsid, hpend⟩ := hmapped id j hget
    rw [table_setStream hst]
    by_cases hj : h = j
    · subst hj
      rw [if_pos rfl]
      obtain rfl : su = st := Option.some.inj (hsu.symm.trans hst)
      exact ⟨st', rfl, hid.trans hsid, fun hr => hkeep hr (hpend hr) (hsid ▸ hget)⟩
    · rw [if_neg hj]
      exact ⟨su, hsu, hsid, hpend⟩
  · intro hr j su hsu
    rw [table_setStream hst] at hsu
    by_cases hj : h = j
    · rw [if_pos hj] at hsu
      obtain rfl := Option.some.inj hsu
      exact hlate.trans (hpunctual hr h st hst)
    · rw [if_neg hj] at hsu
      exact hpunctual hr j su hsu
  · intro j su hsu
    rw [table_setStream hst] at hsu
    by_cases hj : h = j
    · rw [if_pos hj] at hsu
      obtain rfl := Option.some.inj hsu
      subst hj
      exact hcov (hcovered h st hst)
    · rw [if_neg hj] at hsu
      exact hcovered j su hsu

theorem Tidy.setStream_task (ht : Tidy s) (hst : s.table[h]? = some st) (hid : st'.id = st.id)
    (hlate : st'.late = st.late) (htask : st'.task = st.task)
    (hclosed : st.closed = true → st'.closed = true) : Tidy (s.setStream h st') := by
  have hun : Unannounced st → Unannounced st' := by
    rintro ⟨hl, hpoint⟩
    exact ⟨hlate.trans hl, by rwa [htask]⟩
  refine ht.setStream hst hid hlate (fun _ hpend _ => hun hpend) ?_
  rintro (hc | hc | hc | ⟨hr, hc⟩ | ⟨hr, hc⟩)
  · exact Or.inl (hclosed hc)
  · exact Or.inr (Or.inl (htask.trans hc))
  · exact Or.inr (Or.inr (Or.inl (by rwa [hid])))
  · exact Or.inr (Or.inr (Or.inr (Or.inl ⟨hr, by rwa [hid]⟩)))
  · exact Or.inr (Or.inr (Or.inr (Or.inr ⟨hr, hun hc⟩)))

/-- The reader works on a stream and moves on, with nothing owed before. -/
theorem Tidy.work (ht : Tidy s) (hst : s.table[h]? = some st) (st' : Stream)
    (hid : st'.id = st.id) (hlate : st'.late = st.late) (htask : st'.task = st.task)
    (hclosed : st.closed = true → st'.closed = true) {r r' : RunPoint} (hrun : s.run = r)
    (htorn : r'.torn = r.torn) (hidle : ∀ id j, ¬ Owed r id j) :
    Tidy ((s.setStream h st').setRun r') := by
  subst hrun
  exact (ht.setStream_task hst hid hlate htask hclosed).run htorn fun id j howed =>
    absurd howed (hidle id j)

theorem Tidy.send (ht : Tidy s) (f : Frame) : Tidy (s.send f) :=
  ht.congr (send_table f) (send_streams f) (send_run f)

theorem Tidy.noteReset (ht : Tidy s) (id : Nat) : Tidy (s.noteReset id) := ht.congr rfl rfl rfl

/-- Entries are dropped whose streams are closed by someone. -/
theorem Tidy.drop_entries (ht : Tidy s) {streams : BTreeMap Nat Nat}
    (hsub : ∀ id h, streams.get? id = some h → s.streams.get? id = some h)
    (hgone : s.run.torn = false → ∀ (h : Nat) (st : Stream), s.table[h]? = some st →
      s.streams.get? st.id = some h → streams.get? st.id = some h ∨ st.closed = true ∨
        st.task = .closing ∨ Owed s.run st.id h) : Tidy { s with streams } := by
  obtain ⟨hmapped, hpunctual, hcovered⟩ := ht
  refine ⟨fun id h hget => hmapped id h (hsub id h hget), hpunctual, ?_⟩
  intro h st hst
  rcases hcovered h st hst with hc | hc | hc | ⟨hr, hc⟩ | ⟨hr, hc⟩
  · exact Or.inl hc
  · exact Or.inr (Or.inl hc)
  · exact Or.inr (Or.inr (Or.inl hc))
  · rcases hgone hr h st hst hc with hg | hg | hg | hg
    · exact Or.inr (Or.inr (Or.inr (Or.inl ⟨hr, hg⟩)))
    · exact Or.inl hg
    · exact Or.inr (Or.inl hg)
    · exact Or.inr (Or.inr (Or.inl hg))
  · exact Or.inr (Or.inr (Or.inr (Or.inr ⟨hr, hc⟩)))

/-- A new stream goes under a free id. -/
theorem Tidy.registerStream (ht : Tidy s) {id : Nat} {opening : Option OpenPayload}
    (hfree : s.streams.get? id = none) : Tidy (s.registerStream id opening) := by
  obtain ⟨hmapped, hpunctual, hcovered⟩ := ht
  have hold : ∀ {j : Nat} {su : Stream}, s.table[j]? = some su →
      (s.registerStream id opening).table[j]? = some su := by
    intro j su hsu
    have hlt : j < s.table.length := (List.getElem?_eq_some_iff.mp hsu).1
    exact (List.getElem?_append_left hlt).trans hsu
  have hcases : ∀ {j : Nat} {su : Stream}, (s.registerStream id opening).table[j]? = some su →
      s.table[j]? = some su ∨ (j = s.table.length ∧ su.id = id ∧ su.late = s.run.torn ∧
        su.task = .announcing) := by
    intro j su hsu
    unfold Endpoint.registerStream at hsu
    rw [List.getElem?_append] at hsu
    split at hsu
    · exact Or.inl hsu
    · next hlt =>
      rw [List.getElem?_singleton] at hsu
      split at hsu
      · obtain rfl := Option.some.inj hsu
        exact Or.inr ⟨by omega, rfl, rfl, rfl⟩
      · cases hsu
  constructor
  · intro k j hget
    change (s.streams.insert id s.table.length).get? k = some j at hget
    rw [BTreeMap.get?_insert] at hget
    split at hget
    · next hk =>
      obtain rfl := Option.some.inj hget
      refine ⟨_, List.getElem?_concat_length, hk.symm, fun hr => ⟨hr, Or.inl rfl⟩⟩
    · obtain ⟨su, hsu, hsid, hpend⟩ := hmapped k j hget
      exact ⟨su, hold hsu, hsid, hpend⟩
  · intro hr j su hsu
    rcases hcases hsu with hsu | ⟨-, -, hlate, -⟩
    · exact hpunctual hr j su hsu
    · exact hlate.trans hr
  · intro j su hsu
    rcases hcases hsu with hsu | ⟨rfl, hsid, hlate, htask⟩
    · rcases hcovered j su hsu with hc | hc | hc | ⟨hr, hc⟩ | ⟨hr, hc⟩
      · exact Or.inl hc
      · exact Or.inr (Or.inl hc)
      · exact Or.inr (Or.inr (Or.inl hc))
      · have hne : su.id ≠ id := by
          rintro rfl
          rw [hfree] at hc
          cases hc
        refine Or.inr (Or.inr (Or.inr (Or.inl ⟨hr, ?_⟩)))
        exact (BTreeMap.get?_insert_of_ne _ hne _).trans hc
      · exact Or.inr (Or.inr (Or.inr (Or.inr ⟨hr, hc⟩)))
    · by_cases hr : s.run.torn = true
      · exact Or.inr (Or.inr (Or.inr (Or.inr ⟨hr, hlate.trans hr, Or.inl htask⟩)))
      · have hr : s.run.torn = false := by simpa using hr
        refine Or.inr (Or.inr (Or.inr (Or.inl ⟨hr, ?_⟩)))
        subst hsid
        exact BTreeMap.get?_insert_self _ _ _

end Frames

section Steps

theorem tidy_openStream (ht : Tidy s) (payload : OpenPayload) :
    Tidy (openRemoteStream s payload) := by
  unfold openRemoteStream
  split
  · next id generator hnext =>
    have hfree : s.streams.get? id = none := by
      have hnot := IdGenerator.Generator.next_not_active hnext
      rw [BTreeMap.mem_keys] at hnot
      simpa using hnot
    have hgenerator : Tidy { s with generator } := ht.congr rfl rfl rfl
    exact hgenerator.registerStream hfree
  · exact ht

theorem tidy_announce (ht : Tidy s) (hst : s.table[h]? = some st)
    (htask : st.task = .announcing) (hguard : st.late = true → s.channelOpen = false) :
    Tidy (announce s h st) := by
  unfold announce
  split
  · next hopen =>
    have hearly : st.late ≠ true := by
      intro hlate
      rw [hguard hlate] at hopen
      cases hopen
    have hst' : (s.send st.announcement).table[h]? = some st := by rwa [send_table]
    refine (ht.send st.announcement).setStream hst' rfl rfl ?_ ?_
    · exact fun _ hpend _ => absurd hpend.1 hearly
    · rintro (hc | hc | hc | hc | ⟨-, hc⟩)
      · exact Or.inl hc
      · rw [htask] at hc
        cases hc
      · exact Or.inr (Or.inr (Or.inl hc))
      · exact Or.inr (Or.inr (Or.inr (Or.inl hc)))
      · exact absurd hc.1 hearly
  · refine ht.setStream hst rfl rfl (fun _ hpend _ => ⟨hpend.1, Or.inr rfl⟩) ?_
    rintro (hc | hc | hc | hc | ⟨hr, hc⟩)
    · exact Or.inl hc
    · rw [htask] at hc
      cases hc
    · exact Or.inr (Or.inr (Or.inl hc))
    · exact Or.inr (Or.inr (Or.inr (Or.inl hc)))
    · exact Or.inr (Or.inr (Or.inr (Or.inr ⟨hr, hc.1, Or.inr rfl⟩)))

/-- The stream whose entry is removed is closed next by the task that removed it. -/
theorem tidy_remove (ht : Tidy s) (hst : s.table[h]? = some st)
    (hguard : s.run.torn = false → ∀ h', s.streams.get? st.id = some h' → h' = h) :
    Tidy { s.setStream h { st with task := .closing } with streams := s.streams.erase st.id } := by
  obtain ⟨hmapped, hpunctual, hcovered⟩ := ht
  have hget : ∀ {j : Nat} {su : Stream}, (s.setStream h { st with task := .closing }).table[j]? =
      some su → (h = j ∧ su = { st with task := .closing }) ∨ (h ≠ j ∧ s.table[j]? = some su) := by
    intro j su hsu
    rw [table_setStream hst] at hsu
    split at hsu
    · next heq => exact Or.inl ⟨heq, (Option.some.inj hsu).symm⟩
    · next hne => exact Or.inr ⟨hne, hsu⟩
  constructor
  · intro id j hentry
    change (s.streams.erase st.id).get? id = some j at hentry
    rw [BTreeMap.get?_erase] at hentry
    split at hentry
    · cases hentry
    · next hne =>
      obtain ⟨su, hsu, hsid, hpend⟩ := hmapped id j hentry
      have hj : h ≠ j := by
        rintro rfl
        obtain rfl := Option.some.inj (hsu.symm.trans hst)
        exact hne hsid.symm
      exact ⟨su, (table_setStream hst).trans ((if_neg hj).trans hsu), hsid, hpend⟩
  · intro hr j su hsu
    rcases hget hsu with ⟨-, rfl⟩ | ⟨-, hsu⟩
    · exact hpunctual hr h st hst
    · exact hpunctual hr j su hsu
  · intro j su hsu
    rcases hget hsu with ⟨-, rfl⟩ | ⟨hj, hsu⟩
    · exact Or.inr (Or.inl rfl)
    · rcases hcovered j su hsu with hc | hc | hc | ⟨hr, hc⟩ | ⟨hr, hc⟩
      · exact Or.inl hc
      · exact Or.inr (Or.inl hc)
      · exact Or.inr (Or.inr (Or.inl hc))
      · have hne : su.id ≠ st.id := by
          intro heq
          rw [heq] at hc
          exact hj (hguard hr j hc).symm
        refine Or.inr (Or.inr (Or.inr (Or.inl ⟨hr, ?_⟩)))
        exact (BTreeMap.get?_erase _ _ _).trans ((if_neg hne).trans hc)
      · exact Or.inr (Or.inr (Or.inr (Or.inr ⟨hr, hc⟩)))

theorem tidy_task (ht : Tidy s) {e : TaskEvent} (hguard : Guarded s (.task h e))
    (he : TaskEnabled s h e) : Tidy (next s (.task h e)) := by
  obtain ⟨st, hst⟩ : ∃ st, s.table[h]? = some st := by
    cases hst : s.table[h]? with
    | none => cases e <;> simp [TaskEnabled, Endpoint.taskAt, hst] at he
    | some st => exact ⟨st, rfl⟩
  have hpoint : ∀ {point : TaskPoint}, s.taskAt h point → st.task = point := by
    intro point hp
    simpa [Endpoint.taskAt, hst] using hp
  change Tidy (s.withStream h fun st => taskNext s h st e)
  rw [withStream_eq hst]
  cases e with
  | announce => exact tidy_announce ht hst (hpoint he.1) (hguard st hst)
  | start =>
    have htask := hpoint he
    refine ht.setStream hst rfl rfl ?_ ?_
    · rintro - ⟨-, hun | hun⟩ <;> rw [htask] at hun <;> cases hun
    · rintro (hc | hc | hc | hc | ⟨-, -, hc | hc⟩)
      · exact Or.inl hc
      · rw [htask] at hc
        cases hc
      · exact Or.inr (Or.inr (Or.inl hc))
      · exact Or.inr (Or.inr (Or.inr (Or.inl hc)))
      · rw [htask] at hc
        cases hc
      · rw [htask] at hc
        cases hc
  | remove => exact tidy_remove ht hst fun hr h' hget => hguard hr st hst h' hget
  | close =>
    have htask := hpoint he
    refine ht.setStream hst rfl rfl ?_ fun _ => Or.inl rfl
    rintro - ⟨-, hun | hun⟩ <;> rw [htask] at hun <;> cases hun

theorem tidy_pump (ht : Tidy s) (hst : s.table[h]? = some st) (e : PumpEvent) :
    Tidy (pumpNext s h st e) := by
  cases e with
  | read bytes => exact ht.setStream_task hst rfl rfl rfl id
  | readEof => exact ht.setStream_task hst rfl rfl rfl id
  | readError => exact (ht.noteReset st.id).setStream_task hst rfl rfl rfl id
  | cancel => exact ht.setStream_task hst rfl rfl rfl id
  | send =>
    have hsend : ∀ {f : Frame} {pump : PumpPoint},
        Tidy ((s.send f).setStream h { st with pump }) := by
      intro f pump
      have hst' : (s.send f).table[h]? = some st := by rwa [send_table]
      exact (ht.send f).setStream_task hst' rfl rfl rfl id
    change Tidy (pumpSend s h st)
    unfold pumpSend
    split
    · exact hsend
    · exact hsend
    · exact hsend
    · exact ht
  | mark => exact ht.setStream_task hst rfl rfl rfl id
  | close => exact ht.setStream_task hst rfl rfl rfl fun _ => rfl

theorem tidy_accept (ht : Tidy s) (a : Nat) (e : AcceptorEvent) :
    Tidy (next s (.accept a e)) := by
  have hset : ∀ point, Tidy (s.setAcceptor a point) := fun _ => ht.congr rfl rfl rfl
  change Tidy (s.withAcceptor a fun acc => acceptorNext s a acc e)
  refine of_withAcceptor ht fun acc _ => ?_
  cases e with
  | check =>
    change Tidy (checkOpen s a acc)
    unfold checkOpen
    split
    · exact hset _
    · split
      · exact hset _
      · exact hset _
  | dial ok =>
    change Tidy (dialed s a acc ok)
    unfold dialed
    split
    · exact hset _
    · split
      · exact hset _
      · exact hset _
  | retry => exact hset _
  | giveUp => exact hset _
  | register =>
    change Tidy (registerAccepted s a acc)
    unfold registerAccepted
    split
    · exact hset _
    · next hcontains =>
      have hfree : s.streams.get? acc.streamId = none := by
        simpa [BTreeMap.contains] using hcontains
      exact (ht.registerStream hfree).congr rfl rfl rfl
  | nack =>
    change Tidy (sendNack s a acc)
    unfold sendNack
    split
    · exact (ht.send _).congr rfl rfl rfl
    · exact ht

theorem tidy_receive (ht : Tidy s) (hrun : s.run = .reading) (f : Frame) : Tidy (receive s f) := by
  have ht : Tidy { s with taken := s.taken ++ [f] } := ht.congr rfl rfl rfl
  unfold receive
  generalize hs : { s with taken := s.taken ++ [f] } = u at ht
  have hrun : u.run = .reading := by rw [← hs]; exact hrun
  have hunknown : ∀ id, Tidy (replyUnknown u id) := fun id =>
    (ht.noteReset id).idle hrun rfl fun _ _ howed => howed
  change Tidy (if f.valid then dispatchFrame u f else u)
  split
  · unfold dispatchFrame
    split
    · exact ht.idle hrun rfl fun _ _ => id
    · split
      · next h hget =>
        obtain ⟨st, hst, -⟩ := ht.mapped _ h hget
        rw [withStream_eq hst]
        exact ht.setStream_task hst rfl rfl rfl id
      · exact ht
    · split
      · next h hget =>
        have hclosing : Tidy (u.setRun (.closing h)) := ht.idle hrun rfl fun _ _ => id
        refine hclosing.drop_entries ?_ ?_
        · intro id j hj
          rw [BTreeMap.get?_erase] at hj
          split at hj
          · cases hj
          · exact hj
        · intro _ j su hsu hj
          rw [BTreeMap.get?_erase]
          split_ifs with hid
          · refine Or.inr (Or.inr (Or.inr ?_))
            change u.streams.get? su.id = some j at hj
            rw [hid, hget] at hj
            exact Option.some.inj hj
          · exact Or.inl hj
      · exact ht
    · exact ht.congr rfl rfl rfl
    · split
      · exact ht.idle hrun rfl fun _ _ => id
      · exact hunknown _
    · split
      · exact ht.idle hrun rfl fun _ _ => id
      · exact hunknown _
    · split
      · exact ht.idle hrun rfl fun _ _ => id
      · exact ht
    · exact ht
  · exact ht

/-- The stream the reader or the teardown was about to close is closed, and `run` moves on. -/
theorem tidy_closeOwed (ht : Tidy s) (hst : s.table[h]? = some st) {r : RunPoint}
    (htorn : r.torn = s.run.torn)
    (howed : ∀ id j, Owed s.run id j → j = h ∨ Owed r id j) :
    Tidy ((s.setStream h st.close).setRun r) := by
  have hclosed : Tidy (s.setStream h st.close) :=
    ht.setStream_task hst rfl rfl rfl fun _ => rfl
  obtain ⟨hmapped, hpunctual, hcovered⟩ := hclosed
  constructor
  · intro id j hget
    obtain ⟨su, hsu, hsid, hlate⟩ := hmapped id j hget
    exact ⟨su, hsu, hsid, fun hr => hlate (htorn ▸ hr)⟩
  · intro hr j su hsu
    exact hpunctual (htorn ▸ hr) j su hsu
  · intro j su hsu
    rcases hcovered j su hsu with hc | hc | hc | ⟨hr, hc⟩ | ⟨hr, hc⟩
    · exact Or.inl hc
    · exact Or.inr (Or.inl hc)
    · rcases howed _ _ hc with rfl | hc
      · change (s.setStream j st.close).table[j]? = some su at hsu
        rw [table_setStream hst, if_pos rfl] at hsu
        obtain rfl := Option.some.inj hsu
        exact Or.inl rfl
      · exact Or.inr (Or.inr (Or.inl hc))
    · exact Or.inr (Or.inr (Or.inr (Or.inl ⟨htorn.trans hr, hc⟩)))
    · exact Or.inr (Or.inr (Or.inr (Or.inr ⟨htorn.trans hr, hc⟩)))

/-- Every stream in the map is taken, and nothing was owed before. -/
theorem tidy_take (ht : Tidy s) (hrun : s.run = .ended) :
    Tidy ({ s with streams := .empty }.setRun (.clearing s.streams)) := by
  have htorn : s.run.torn = false := by rw [hrun]; rfl
  constructor
  · intro id j hget
    cases hget
  · intro hr
    cases hr
  · intro j su hsu
    rcases ht.covered j su hsu with hc | hc | hc | ⟨-, hc⟩ | ⟨hr, -⟩
    · exact Or.inl hc
    · exact Or.inr (Or.inl hc)
    · rw [hrun] at hc
      exact hc.elim
    · exact Or.inr (Or.inr (Or.inl hc))
    · rw [htorn] at hr
      cases hr

theorem tidy_run (ht : Tidy s) {e : RunEvent} (he : RunEnabled s e) : Tidy (runNext s e) := by
  cases e with
  | receive f => exact tidy_receive ht he f
  | reply =>
    obtain ⟨-, f, hrun⟩ := he
    simp only [runNext, hrun]
    exact (ht.send f).idle ((send_run f).trans hrun) rfl fun _ _ => id
  | writeSome n =>
    obtain ⟨h, rest, hrun, -, -⟩ := he
    simp only [runNext, hrun]
    refine of_withStream ht fun st hst =>
      ht.work hst { st with written := st.written ++ rest.take n } rfl rfl rfl id hrun ?_
        fun _ _ => id
    split <;> rfl
  | writeError =>
    obtain ⟨h, rest, hrun, -⟩ := he
    simp only [runNext, hrun]
    exact of_withStream ht fun st hst =>
      (ht.noteReset st.id).work hst { st with canWrite := false } rfl rfl rfl id hrun rfl
        fun _ _ => id
  | sendReset =>
    obtain ⟨-, h, hrun⟩ := he
    simp only [runNext, hrun]
    exact of_withStream ht fun st hst => (ht.send _).idle ((send_run _).trans hrun) rfl fun _ _ => id
  | shutWrite =>
    obtain ⟨h, hrun⟩ := he
    simp only [runNext, hrun]
    exact of_withStream ht fun st hst =>
      ht.work hst { st with canWrite := false } rfl rfl rfl id hrun rfl fun _ _ => id
  | markRemote =>
    obtain ⟨h, hrun⟩ := he
    simp only [runNext, hrun]
    refine of_withStream ht fun st hst =>
      ht.work hst { st with remoteEof := true } rfl rfl rfl id hrun ?_ fun _ _ => id
    split <;> rfl
  | close =>
    obtain ⟨h, hrun⟩ := he
    simp only [runNext, hrun]
    refine of_withStream ht fun st hst => tidy_closeOwed ht hst (by rw [hrun]; rfl) ?_
    intro id j howed
    rw [hrun] at howed
    exact Or.inl howed.symm
  | endReader => exact ht.idle (r := .reading) he rfl fun _ _ => id
  | take => exact tidy_take ht he
  | clear id =>
    obtain ⟨-, todo, h, hrun, hget⟩ := he
    simp only [runNext, hrun, hget]
    refine ((ht.noteReset id).send _).run ?_ fun id' j howed => ?_
    · rw [send_run]
      change _ = s.run.torn
      rw [hrun]
      rfl
    · rw [send_run] at howed
      change Owed s.run id' j at howed
      rw [hrun] at howed
      change h = j ∨ (todo.erase id).get? id' = some j
      rw [BTreeMap.get?_erase]
      by_cases hid : id' = id
      · subst hid
        change todo.get? id' = some j at howed
        exact Or.inl (Option.some.inj (hget.symm.trans howed))
      · rw [if_neg hid]
        exact Or.inr howed
  | drop =>
    obtain ⟨h, todo, hrun⟩ := he
    simp only [runNext, hrun]
    refine of_withStream ht fun st hst => tidy_closeOwed ht hst (by rw [hrun]; rfl) ?_
    intro id j howed
    rw [hrun] at howed
    rcases howed with heq | howed
    · exact Or.inl heq.symm
    · exact Or.inr howed
  | cancel =>
    have hrun : s.run = .clearing .empty := he
    have hjoin : Tidy (s.setRun .joining) := ht.idle hrun rfl fun _ _ howed => by cases howed
    exact hjoin.congr rfl rfl rfl
  | join => exact ht.idle (r := .joining) he rfl fun _ _ => id

theorem tidy_next (ht : Tidy s) {e : Event} (hguard : Guarded s e) (he : Enabled s e) :
    Tidy (next s e) := by
  cases e with
  | openStream payload => exact tidy_openStream ht payload
  | task h e => exact tidy_task ht hguard he
  | pump h e => exact of_withStream ht fun st hst => tidy_pump ht hst e
  | shutdown h =>
    exact of_withStream ht fun st hst => ht.setStream_task hst rfl rfl rfl id
  | accept a e => exact tidy_accept ht a e
  | run e => exact tidy_run ht he
  | prune =>
    refine ht.drop_entries ?_ ?_
    · intro id j hget
      rw [BTreeMap.get?_retain] at hget
      exact (Option.filter_eq_some_iff.mp hget).1
    · intro _ j st hst hget
      rw [BTreeMap.get?_retain, hget]
      by_cases hclosed : st.closed = true
      · exact Or.inr (Or.inl hclosed)
      · refine Or.inl ?_
        simp [Option.filter, hst, hclosed]
  | cancel => exact ht.congr rfl rfl rfl
  | control f => exact ht.send f
  | writeOut => exact ht.congr rfl rfl rfl
  | writerExit => exact ht.congr rfl rfl rfl

end Steps

/-- Once `run` has returned and the tasks of all streams are done, the map is empty and every
stream that was ever in it is closed. -/
theorem no_orphan_streams {role : SessionRole} (hreaches : system.Reaches Guarded (initial role) s)
    (hreturned : s.run = .returned) (htasks : ∀ st ∈ s.table, st.task = .done) :
    s.streams = .empty ∧ ∀ st ∈ s.table, st.closed = true := by
  have ht : Tidy s := system.invariant Tidy
    (fun _ _ ht hguard he => tidy_next ht hguard he) hreaches (tidy_initial role)
  have hannounced : ∀ st ∈ s.table, ¬ Unannounced st := by
    rintro st hst ⟨-, htask | htask⟩
    · rw [htasks st hst] at htask
      cases htask
    · rw [htasks st hst] at htask
      cases htask
  constructor
  · refine BTreeMap.ext_get? fun id => ?_
    cases hget : s.streams.get? id with
    | none => rfl
    | some h =>
      obtain ⟨st, hst, -, hlate⟩ := ht.mapped id h hget
      exact absurd (hlate (by rw [hreturned]; rfl)) (hannounced st (List.mem_of_getElem? hst))
  · intro st hmem
    obtain ⟨h, hst⟩ := List.mem_iff_getElem?.mp hmem
    rcases ht.covered h st hst with hc | hc | hc | ⟨hr, -⟩ | ⟨-, hc⟩
    · exact hc
    · rw [htasks st hmem] at hc
      cases hc
    · rw [hreturned] at hc
      exact hc.elim
    · rw [hreturned] at hr
      cases hr
    · exact absurd hc (hannounced st hmem)

section Runs

def firstOpen : Event := .run (.receive (.newOpen 1 ⟨"127.0.0.1", 8080, ""⟩))

/-- A stream is accepted, and the teardown closes it. -/
def orderlyRun : List Event :=
  [firstOpen, .accept 0 .check, .accept 0 (.dial true), .accept 0 .register, .task 0 .announce,
    .task 0 .start, .run .endReader, .run .take, .run (.clear 1), .run .drop, .run .cancel,
    .run .join]

theorem no_orphan_streams_orderly :
    (system.follow (initial .client) orderlyRun).streams = .empty ∧
      (system.follow (initial .client) orderlyRun).table.map (·.closed) = [true] := by
  have hadmits : system.Admits Guarded (initial .client) orderlyRun := by
    refine ⟨trivial, rfl, trivial, rfl, trivial, Or.inl rfl, trivial, rfl, ?_, ⟨rfl, ?_⟩, trivial,
      rfl, trivial, rfl, trivial, rfl, trivial, ⟨?_, _, 0, rfl, rfl⟩, trivial, ⟨0, _, rfl⟩,
      trivial, ?_, trivial, rfl, trivial⟩
    · rintro st hst hlate
      cases hst
      cases hlate
    · exact Or.inr (by decide)
    · exact Or.inr (by decide)
    · rfl
  have hdone := no_orphan_streams (Events.System.reaches_follow hadmits) rfl (by decide)
  exact ⟨hdone.1, rfl⟩

/-- The dial succeeds after the teardown took the map: the stream stays registered and open. -/
theorem late_open_orphaned :
    let s := system.follow (initial .client)
      [firstOpen, .accept 0 .check, .run .endReader, .run .take, .accept 0 (.dial true),
        .accept 0 .register, .task 0 .announce, .task 0 .start, .run .cancel, .run .join]
    system.Reaches Events.System.free (initial .client) s ∧ s.run = .returned ∧
      s.acceptors.map (·.point) = [.registered] ∧ s.table.map (·.task) = [.done] ∧
      s.streams.get? 1 = some 0 ∧ s.table.map (·.closed) = [false] := by
  refine ⟨Events.System.reaches_follow ?_, rfl, rfl, rfl, rfl, rfl⟩
  refine ⟨trivial, rfl, trivial, rfl, trivial, rfl, trivial, rfl, trivial, Or.inl rfl, trivial, rfl,
    trivial, ⟨rfl, ?_⟩, trivial, rfl, trivial, rfl, trivial, rfl, trivial⟩
  exact Or.inr (by decide)

end Runs

end Teardown
