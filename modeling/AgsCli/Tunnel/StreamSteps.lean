import AgsCli.Tunnel.StreamBytes

/-! # The steps of one end and its streams' bytes

Every step of a session keeps what its streams have sent and written in line with the frames. -/
namespace StreamBytes

open OrderedMap Tunnel IdGenerator Session SessionFacts

variable {s s' : Endpoint} {h j id : Nat} {st st' : Stream} {f : Frame}
  {sent taken : List Frame} {streams : BTreeMap Nat Nat} {run : RunPoint} {resets : List Nat}

section Steps

theorem expects_own {role : SessionRole} {g : Generator}
    (hg : StreamIds.Invariant role.parity g) : role.expects g.current = false := by
  have hparity := hg.current.parity
  cases role with
  | client =>
    change g.current % 2 = 0 at hparity
    simp [SessionRole.expects, SessionRole.expectOddFromPeer, hparity]
  | server =>
    change g.current % 2 = 1 at hparity
    simp [SessionRole.expects, SessionRole.expectOddFromPeer, hparity]

theorem Sound.current_new (hs : Sound s) : ¬ Known s s.generator.current := by
  rintro ⟨h, st, hst, hid⟩
  have hown := expects_own hs.generator
  cases ho : st.opening.isSome with
  | true =>
    have hlt := ((hs.listed h st hst).own ho).2
    omega
  | false =>
    have hexpects := ((hs.listed h st hst).invited ho).1
    rw [hid, hown] at hexpects
    cases hexpects

/-- Before the generator starts again it hands out its counter. -/
theorem Sound.next_id (hs : Sound s) (hlow : s.generator.current < overflowThreshold) :
    s.generator.next s.streams.keys = some (s.generator.current, s.generator.advance) := by
  have hcandidate : s.generator.candidate = s.generator.current := if_neg (by omega)
  have hfree : s.generator.current ∉ s.streams.keys := by
    intro hmem
    obtain ⟨h, hget⟩ := Option.isSome_iff_exists.mp (BTreeMap.mem_keys.mp hmem)
    obtain ⟨st, hst, hid⟩ := hs.inbox.mapped _ h hget
    exact hs.current_new ⟨h, st, hst, hid⟩
  simp [Generator.next, Generator.search, hcandidate, hfree]

theorem sound_openStream (hs : Sound s) (hlow : s.generator.current < overflowThreshold)
    (opened : OpenPayload) : Sound (openRemoteStream s opened) := by
  have hcandidate : s.generator.candidate = s.generator.current := if_neg (by omega)
  have hlt : s.generator.current < s.generator.advance.current := by
    change s.generator.current < s.generator.candidate + 2
    omega
  unfold openRemoteStream
  rw [hs.next_id hlow]
  have hadvanced : Sound { s with generator := s.generator.advance } :=
    hs.relax rfl rfl rfl rfl rfl (StreamIds.invariant_advance hs.generator) hlt.le
      (fun h st hst => hs.receives h st hst) (fun _ _ h => h) hs.inbox.handled
    hs.inbox.replies
  refine hadvanced.register hs.current_new ?_
  intro st hid ho
  refine ⟨?_, fun _ => ?_, fun hnone => ?_⟩
  · have hpos := (StreamIds.start_range s.role.parity).1
    have hlow := hs.generator.current.low
    omega
  · rw [hid]
    exact ⟨expects_own hs.generator, hlt⟩
  · rw [ho] at hnone
    cases hnone

theorem sound_announce (hs : Sound s) (hst : s.table[h]? = some st)
    (htask : st.task = .announcing) : Sound (announce s h st) := by
  have hsend := hs.sends h st hst
  have hreceive := hs.receives h st hst
  unfold announce
  split
  · next hopen =>
    have hid : st.announcement.streamId = st.id := by
      rcases announcement_cases st with ⟨opened, -, hann⟩ | ⟨-, hann⟩ <;> rw [hann] <;> rfl
    refine hs.transmit hopen hst rfl rfl (fun h => h) hid hsend.announce
      (hreceive.same rfl rfl rfl rfl) ?_ ?_ ?_ ?_
    · intro hann
      refine ⟨hsend.announcing htask, ?_⟩
      rcases announcement_cases st with ⟨opened, ho, -⟩ | ⟨-, hack⟩
      · simp [ho]
      · rw [hack] at hann
        exact absurd rfl hann
    · intro hann
      rcases announcement_cases st with ⟨opened, -, hopened⟩ | ⟨ho, -⟩
      · rw [hopened] at hann
        cases hann
      · simp [ho]
    · intro hstream
      rcases announcement_cases st with ⟨opened, -, hann⟩ | ⟨-, hann⟩ <;> rw [hann] at hstream <;>
        exact hstream.elim
    · intro bytes hdata
      rcases announcement_cases st with ⟨opened, -, hann⟩ | ⟨-, hann⟩ <;> rw [hann] at hdata <;>
        cases hdata
  · refine hs.setStream hst rfl rfl (fun h => h) ?_ (hreceive.same rfl rfl rfl rfl)
    exact hsend.withTask (by simp) (by simp)

theorem Sound.dropEntries (hs : Sound s) {streams : BTreeMap Nat Nat}
    (hsub : ∀ id h, streams.get? id = some h → s.streams.get? id = some h) :
    Sound { s with streams } := by
  refine hs.relax rfl rfl rfl rfl rfl hs.generator le_rfl ?_ hsub hs.inbox.handled hs.inbox.replies
  intro h st hst
  exact (hs.receives h st hst).weaken (hsub _ _) (fun h => h) rfl (fun h => h) fun _ h => h

theorem get?_of_erase {m : BTreeMap Nat Nat} {k : Nat} (id h : Nat)
    (hget : (m.erase k).get? id = some h) : m.get? id = some h := by
  rw [BTreeMap.get?_erase] at hget
  split at hget
  · cases hget
  · exact hget

theorem point_of_enabled {α : Type} {p : Stream → α} {point : α} (hst : s.table[h]? = some st)
    (hp : (s.table[h]?).map p = some point) : p st = point := by
  rw [hst] at hp
  exact Option.some.inj hp

theorem sound_task (hs : Sound s) (hst : s.table[h]? = some st) {e : TaskEvent}
    (he : TaskEnabled s h e) : Sound (taskNext s h st e) := by
  have hsend := hs.sends h st hst
  have hreceive := hs.receives h st hst
  cases e with
  | announce => exact sound_announce hs hst (point_of_enabled hst he.1)
  | start =>
    have htask : st.task = .starting := point_of_enabled hst he
    have hstarted := hsend.startPump (Or.inl (hsend.starting htask))
    refine hs.setStream hst rfl rfl ?_ (hstarted.withTask (by simp) (by simp))
      (hreceive.same rfl rfl rfl rfl)
    intro hpump
    simp [Stream.startPump, hpump]
  | remove =>
    have hset : Sound (s.setStream h { st with task := .closing }) :=
      hs.setStream hst rfl rfl (fun h => h) (hsend.withTask (by simp) (by simp))
        (hreceive.same rfl rfl rfl rfl)
    exact hset.dropEntries get?_of_erase
  | close =>
    have hclose : Sends s.enqueued s.taken st.close := hsend.congr rfl rfl rfl rfl
    exact hs.setStream hst rfl rfl (fun h => h) (hclose.withTask (by simp) (by simp))
      (hreceive.same rfl rfl rfl rfl)

theorem Sound.endPump (hs : Sound s) (hst : s.table[h]? = some st) {closed localEof : Bool}
    {pump : PumpPoint} (hstarted : st.pump ≠ .unstarted) (hpump : unfinished pump = false) :
    Sound (s.setStream h { st with closed, localEof, pump }) := by
  refine hs.setStream hst rfl rfl (fun _ => ?_) ?_ ?_
  · rintro rfl
    cases hpump
  · exact ((hs.sends h st hst).withPump hstarted hpump).congr rfl rfl rfl rfl
  · exact (hs.receives h st hst).same rfl rfl rfl rfl

theorem sound_pumpSend (hs : Sound s) (hst : s.table[h]? = some st) :
    Sound (pumpSend s h st) := by
  have hsend := hs.sends h st hst
  have hreceive := hs.receives h st hst
  have hkeep : ∀ {pump}, Receives s.taken s.streams s.run s.resets h { st with pump } :=
    hreceive.same rfl rfl rfl rfl
  unfold pumpSend
  split
  · next bytes hpump =>
    have hstarted : st.pump ≠ .unstarted := by simp [hpump]
    by_cases hopen : s.channelOpen = true
    · rw [if_pos hopen]
      refine hs.transmit hopen hst rfl rfl (fun _ => by simp) rfl (hsend.sendData hpump) hkeep ?_ ?_
        (fun _ => hstarted) ?_
      · exact fun hnone => absurd rfl hnone
      · intro heq
        cases heq
      · intro b heq
        cases heq
        exact hsend.unit _ hpump
    · rw [if_neg hopen]
      have hclosed : s.send (.newData st.id bytes) = s := if_neg hopen
      rw [hclosed]
      exact hs.endPump hst hstarted rfl
  · next hpump =>
    have hstarted : st.pump ≠ .unstarted := by simp [hpump]
    by_cases hopen : s.channelOpen = true
    · refine hs.transmit hopen hst rfl rfl (fun _ => by simp) rfl (hsend.sendFin hpump) hkeep ?_ ?_
        (fun _ => hstarted) ?_
      · exact fun hnone => absurd rfl hnone
      · intro heq
        cases heq
      · intro b heq
        cases heq
    · have hclosed : s.send (.newFin st.id) = s := if_neg hopen
      rw [hclosed]
      exact hs.endPump hst hstarted rfl
  · next hpump =>
    have hsent : Sound (s.send (.newRst st.id localReadError)) := hs.send trivial
    refine hsent.endPump (by rwa [send_table]) (by simp [hpump]) rfl
  · exact hs

theorem sound_pump (hs : Sound s) (hst : s.table[h]? = some st) {e : PumpEvent}
    (he : PumpEnabled s h e) : Sound (pumpNext s h st e) := by
  have hsend := hs.sends h st hst
  have hreceive := hs.receives h st hst
  cases e with
  | read bytes =>
    have hpump : st.pump = .reading := point_of_enabled hst he.1
    exact hs.setStream hst rfl rfl (fun _ => by simp) (hsend.read hpump he.2.2)
      (hreceive.same rfl rfl rfl rfl)
  | readEof =>
    have hpump : st.pump = .reading := point_of_enabled hst he
    exact hs.setStream hst rfl rfl (fun _ => by simp) (hsend.readEof hpump)
      (hreceive.same rfl rfl rfl rfl)
  | readError =>
    have hpump : st.pump = .reading := point_of_enabled hst he
    exact (hs.noteReset st.id).endPump hst (by simp [hpump]) rfl
  | cancel =>
    have hpump : st.pump = .reading := point_of_enabled hst he.1
    exact hs.endPump hst (by simp [hpump]) rfl
  | send => exact sound_pumpSend hs hst
  | mark =>
    have hpump : st.pump = .markingEof := point_of_enabled hst he
    refine hs.endPump hst (by simp [hpump]) ?_
    split <;> rfl
  | close =>
    refine hs.endPump hst ?_ rfl
    rcases he with he | he
    · have hpump : st.pump = .closing := point_of_enabled hst he
      simp [hpump]
    · have hpump : st.pump = .aborting := point_of_enabled hst he
      simp [hpump]

/-- An accepted id is of the peer's parity, and its acceptor registers it once. -/
theorem Sound.accepted_new (hs : Sound s) {a : Nat} {acc : Acceptor}
    (hacc : s.acceptors[a]? = some acc) (hpoint : acc.point = .connected) :
    ¬ Known s acc.streamId := by
  rintro ⟨h, st, hst, hid⟩
  have hmem : acc ∈ s.acceptors := List.mem_iff_getElem?.mpr ⟨a, hacc⟩
  have hlisted := hs.listed h st hst
  have hexpects := (hs.inbox.asked acc hmem).2.2 (by rw [hpoint]; rfl)
  cases ho : st.opening.isSome with
  | true =>
    have hown := (hlisted.own ho).1
    rw [hid, hexpects] at hown
    cases hown
  | false =>
    obtain ⟨b, hb, hbid, hregistered⟩ := (hlisted.invited ho).2
    obtain rfl := List.inj_on_of_nodup_map hs.inbox.distinct hb hmem (hbid.trans hid)
    rw [hpoint] at hregistered
    cases hregistered

theorem sound_accept (hs : Sound s) {a : Nat} {acc : Acceptor}
    (hacc : s.acceptors[a]? = some acc) {e : AcceptorEvent} (he : AcceptorEnabled s a e) :
    Sound (acceptorNext s a acc e) := by
  have hmem : acc ∈ s.acceptors := List.mem_iff_getElem?.mpr ⟨a, hacc⟩
  have hat : ∀ {point : AcceptorPoint}, s.acceptorAt a point → acc.point = point := by
    intro point hp
    simpa [Endpoint.acceptorAt, hacc] using hp
  have hexpects := (hs.inbox.asked acc hmem).2.2
  cases e with
  | check =>
    have hpoint := hat he
    have hunregistered : acc.point ≠ .registered := by simp [hpoint]
    change Sound (checkOpen s a acc)
    unfold checkOpen
    split
    · exact hs.setAcceptor hacc hunregistered fun h => by cases h
    · next hparity =>
      have hok : s.role.expects acc.streamId = true := by simpa using hparity
      split
      · exact hs.setAcceptor hacc hunregistered fun h => by cases h
      · exact hs.setAcceptor hacc hunregistered fun _ => hok
  | dial ok =>
    have hpoint : acc.point = .dialing ∨ acc.point = .redialing := he.imp hat hat
    have hunregistered : acc.point ≠ .registered := by
      rcases hpoint with h | h <;> simp [h]
    have hok : s.role.expects acc.streamId = true := by
      rcases hpoint with h | h <;> exact hexpects (by rw [h]; rfl)
    change Sound (dialed s a acc ok)
    unfold dialed
    split
    · exact hs.setAcceptor hacc hunregistered fun _ => hok
    · split
      · exact hs.setAcceptor hacc hunregistered fun _ => hok
      · exact hs.setAcceptor hacc hunregistered fun h => by cases h
  | retry =>
    have hpoint := hat he
    exact hs.setAcceptor hacc (by simp [hpoint]) fun _ => hexpects (by rw [hpoint]; rfl)
  | giveUp =>
    have hpoint := hat he.1
    exact hs.setAcceptor hacc (by simp [hpoint]) fun h => by cases h
  | register =>
    have hpoint := hat he
    have hunregistered : acc.point ≠ .registered := by simp [hpoint]
    have hok : s.role.expects acc.streamId = true := hexpects (by rw [hpoint]; rfl)
    change Sound (registerAccepted s a acc)
    unfold registerAccepted
    split
    · exact hs.setAcceptor hacc hunregistered fun h => by cases h
    · have hset : Sound (s.setAcceptor a .registered) :=
        hs.setAcceptor hacc hunregistered fun _ => hok
      have hregister : Sound ((s.setAcceptor a .registered).registerStream acc.streamId none) := by
        refine hset.register (hs.accepted_new hacc hpoint) fun st hid ho => ?_
        refine ⟨?_, fun hsome => ?_, fun _ => ?_⟩
        · rw [hid]
          exact (hs.inbox.asked acc hmem).2.1
        · rw [ho] at hsome
          cases hsome
        · rw [hid]
          refine ⟨hok, { acc with point := .registered }, ?_, rfl, rfl⟩
          refine List.mem_iff_getElem?.mpr ⟨a, ?_⟩
          rw [acceptors_setAcceptor, hacc]
          simp
      exact hregister
  | nack =>
    change Sound (sendNack s a acc)
    unfold sendNack
    split
    · next reason retryable hpoint =>
      have hsent : Sound (s.send (.newNack acc.streamId reason retryable)) := hs.send trivial
      refine hsent.setAcceptor (by rwa [send_acceptors]) (by simp [hpoint]) fun h => by cases h
    · exact hs

section Reader

/-- The frame is taken, before it is dispatched. Data for a stream is still to be accounted for. -/
theorem Sound.take (hs : Sound s) (hknown : Streams f → Known s f.streamId)
    {run : RunPoint} {resets : List Nat} (hreceives : ∀ (h : Nat) (st : Stream),
      s.table[h]? = some st → Receives (s.taken ++ [f]) s.streams run resets h st)
    (hhandled : ∀ h, writes run h ∨ ends run h → ∃ st, s.table[h]? = some st)
    (hreplies : ∀ f, run = .replying f → Quiet f) :
    Sound { s with taken := s.taken ++ [f], run, resets } := by
  refine ⟨⟨hs.generator, hs.unique, ?_, hreceives, ?_, ?_⟩, ?_⟩
  · intro h st hst
    obtain ⟨h1, h2, h3⟩ := hs.listed h st hst
    exact ⟨h1, h2, h3⟩
  · obtain ⟨h1, h2, h3, h4, h5⟩ := hs.outbox
    exact ⟨h1, h2, h3, h4, h5⟩
  · obtain ⟨h1, h2, hq, h3, h4, h5⟩ := hs.inbox
    refine ⟨h1, hhandled, hreplies, ?_, h4, fun acc hacc => ?_⟩
    · intro g hg hstream
      rcases List.mem_append.mp hg with hg | hg
      · exact h3 g hg hstream
      · obtain rfl := List.mem_singleton.mp hg
        exact hknown hstream
    · obtain ⟨hasked, hrest⟩ := h5 acc hacc
      refine ⟨?_, hrest⟩
      change acc.streamId ∈ (s.taken ++ [f]).filterMap openId
      rw [opens_concat]
      exact List.mem_append_left _ hasked
  · exact fun h st hst => (hs.sends h st hst).take f

/-- A frame that carries nothing is taken. -/
theorem Sound.takePlain (hs : Sound s) (hknown : Streams f → Known s f.streamId)
    (hempty : ∀ (h : Nat) (st : Stream), s.table[h]? = some st → payload st.id f = []) :
    Sound { s with taken := s.taken ++ [f] } := by
  have htake : Sound { s with taken := s.taken ++ [f], run := s.run, resets := s.resets } :=
    hs.take hknown (fun h st hst => (hs.receives h st hst).take (hempty h st hst)) hs.inbox.handled
      hs.inbox.replies
  exact htake

/-- An OPEN frame is taken and gets an acceptor. -/
theorem Sound.invite (hs : Sound s) {id : Nat} {opened : OpenPayload} (hid : id ≠ 0)
    (hfresh : id ∉ s.acceptors.map (·.streamId)) (hasked : id ∈ s.taken.filterMap openId) :
    Sound { s with acceptors := s.acceptors ++ [⟨id, opened, .checking⟩] } := by
  refine ⟨⟨hs.generator, hs.unique, ?_, hs.receives, ?_, ?_⟩, hs.sends⟩
  · intro h st hst
    obtain ⟨h1, h2, h3⟩ := hs.listed h st hst
    refine ⟨h1, h2, fun ho => ⟨(h3 ho).1, ?_⟩⟩
    obtain ⟨acc, hacc, hrest⟩ := (h3 ho).2
    exact ⟨acc, List.mem_append_left _ hacc, hrest⟩
  · obtain ⟨h1, h2, h3, h4, h5⟩ := hs.outbox
    exact ⟨h1, h2, h3, h4, h5⟩
  · obtain ⟨h1, h2, hq, h3, h4, h5⟩ := hs.inbox
    refine ⟨h1, h2, hq, h3, ?_, ?_⟩
    · change ((s.acceptors ++ [_]).map _).Nodup
      rw [List.map_append, List.nodup_append]
      refine ⟨h4, List.nodup_singleton _, ?_⟩
      rintro i hi _ hmem rfl
      obtain rfl : i = id := List.mem_singleton.mp hmem
      exact hfresh hi
    · intro acc hacc
      rcases List.mem_append.mp hacc with hacc | hacc
      · exact h5 acc hacc
      · obtain rfl := List.mem_singleton.mp hacc
        exact ⟨hasked, hid, fun h => by cases h⟩

/-- The reader has nothing in hand that concerns the bytes of a stream. -/
def calm : RunPoint → Bool
  | .replying _ | .writing _ _ | .shutting _ | .marking _ => false
  | _ => true

theorem rest_calm {run : RunPoint} (hcalm : calm run = true) (h : Nat) : rest run h = [] := by
  cases run with
  | writing h' l => cases hcalm
  | _ => rfl

theorem not_writes_calm {run : RunPoint} (hcalm : calm run = true) (h : Nat) : ¬ writes run h := by
  rintro ⟨l, rfl⟩
  cases hcalm

theorem not_ends_calm {run : RunPoint} (hcalm : calm run = true) (h : Nat) : ¬ ends run h := by
  rintro (rfl | rfl) <;> cases hcalm

theorem Sound.goto (hs : Sound s) (hrest : ∀ h, rest s.run h = []) {run : RunPoint}
    (hcalm : calm run = true) : Sound (s.setRun run) := by
  refine hs.setRun hrest (not_writes_calm hcalm) (not_ends_calm hcalm) ?_
  rintro f rfl
  cases hcalm

theorem not_writes_replying (reply : Frame) (h : Nat) : ¬ writes (.replying reply) h := by
  rintro ⟨l, hl⟩
  cases hl

theorem not_ends_replying (reply : Frame) (h : Nat) : ¬ ends (.replying reply) h := by
  rintro (he | he) <;> cases he

theorem valid_open {opened : OpenPayload} (hbody : f.body = .open (some opened))
    (hvalid : f.valid = true) : f.streamId ≠ 0 := by
  intro hzero
  unfold Frame.valid Frame.validate at hvalid
  simp [hbody, validateOpen, hzero] at hvalid

/-- The reader takes a frame of a stream and turns to its entry. -/
theorem Receives.elsewhere (hr : Receives taken streams .reading resets h st)
    (hf : payload st.id f = []) {run : RunPoint} (hwrites : ¬ writes run h) (hends : ¬ ends run h)
    {resets' : List Nat} (hresets : ∀ i ∈ resets, i ∈ resets') :
    Receives (taken ++ [f]) streams run resets' h st := by
  refine (hr.take hf).weaken (fun h => h) (fun hw => absurd hw hwrites) ?_
    (fun he => absurd he hends) hresets
  cases run with
  | writing h' l => exact if_neg fun heq => hwrites ⟨l, by rw [heq]⟩
  | _ => rfl

/-- The reader takes a frame of a stream in the map and turns to the stream. -/
theorem Sound.takeOwn (hs : Sound s) (hrun : s.run = .reading) {k : Nat}
    (hget : s.streams.get? f.streamId = some k) {run : RunPoint}
    (hwrites : ∀ h, writes run h → h = k) (hends : ∀ h, ends run h → h = k)
    (hreplies : ∀ g, run ≠ .replying g)
    (hmine : ∀ sk : Stream, sk.id = f.streamId → Receives s.taken s.streams .reading s.resets k sk →
      Receives (s.taken ++ [f]) s.streams run s.resets k sk) :
    Sound { s with taken := s.taken ++ [f], run } := by
  obtain ⟨sk, hsk, hid⟩ := hs.inbox.mapped f.streamId k hget
  refine hs.take (fun _ => ⟨k, sk, hsk, hid⟩) (fun h st hst => ?_) ?_
    fun g hg => absurd hg (hreplies g)
  · have hreceive := hs.receives h st hst
    rw [hrun] at hreceive
    by_cases heq : st.id = f.streamId
    · obtain rfl := hs.unique h k st sk hst hsk (heq.trans hid.symm)
      exact hmine st heq hreceive
    · have hne : h ≠ k := by
        rintro rfl
        obtain rfl := Option.some.inj (hst.symm.trans hsk)
        exact heq hid
      exact hreceive.elsewhere (payload_eq_nil (Or.inl (Ne.symm heq)))
        (fun hw => hne (hwrites h hw)) (fun he => hne (hends h he)) fun _ h => h
  · rintro h (hw | he)
    · exact hwrites h hw ▸ ⟨sk, hsk⟩
    · exact hends h he ▸ ⟨sk, hsk⟩

theorem Sound.takeData (hs : Sound s) (hrun : s.run = .reading) {k : Nat} {bytes : List UInt8}
    (hget : s.streams.get? id = some k) (hover : .newFin id ∈ s.taken → bytes = []) :
    Sound { s with taken := s.taken ++ [.newData id bytes], run := .writing k bytes } := by
  refine hs.takeOwn (f := .newData id bytes) hrun hget ?_ ?_ (fun g hg => by cases hg) ?_
  · rintro h ⟨l, hl⟩
    cases hl
    rfl
  · rintro h (he | he) <;> cases he
  · rintro sk rfl hreceive
    exact hreceive.takeData hget hover

theorem Sound.takeFin (hs : Sound s) (hrun : s.run = .reading) {k : Nat}
    (hget : s.streams.get? id = some k) :
    Sound { s with taken := s.taken ++ [.newFin id], run := .shutting k } := by
  refine hs.takeOwn (f := .newFin id) hrun hget ?_ ?_ (fun g hg => by cases hg) ?_
  · rintro h ⟨l, hl⟩
    cases hl
  · rintro h (he | he) <;> cases he
    rfl
  · rintro sk rfl hreceive
    exact hreceive.takeFin

/-- A frame for a stream that has no entry is answered with a reset. -/
theorem Sound.takeUnknown (hs : Sound s) (hrun : s.run = .reading)
    (hknown : Streams f → Known s f.streamId) (hget : s.streams.get? f.streamId = none)
    (hf : Streams f) {reply : Frame} (hreply : Quiet reply) : Sound { s with
      taken := s.taken ++ [f], run := .replying reply, resets := f.streamId :: s.resets } := by
  have hwrites := not_writes_replying reply
  have hends := not_ends_replying reply
  refine hs.take hknown (fun h st hst => ?_) ?_ fun f hf => by cases hf; exact hreply
  · have hreceive := hs.receives h st hst
    rw [hrun] at hreceive
    by_cases heq : f.streamId = st.id
    · obtain ⟨i, body⟩ := f
      obtain rfl : i = st.id := heq
      cases body with
      | data bytes => exact hreceive.takeLost hget bytes reply
      | fin =>
        exact hreceive.elsewhere rfl (hwrites h) (hends h) fun i hi => List.mem_cons_of_mem _ hi
      | _ => exact hf.elim
    · exact hreceive.elsewhere (payload_eq_nil (Or.inl heq)) (hwrites h) (hends h)
        fun i hi => List.mem_cons_of_mem _ hi
  · rintro h (hw | he)
    · exact absurd hw (hwrites h)
    · exact absurd he (hends h)

theorem sound_dispatch_other (hs : Sound s) (hrun : s.run = .reading) (hf : ¬ Streams f)
    (htaken : f ∈ s.taken) (hvalid : f.valid = true)
    (hopens : ∀ id ∈ openId f, id ∉ s.acceptors.map (·.streamId)) :
    Sound (dispatchFrame s f) := by
  obtain ⟨i, body⟩ := f
  have hrest : ∀ h, rest s.run h = [] := fun h => by rw [hrun]; rfl
  unfold dispatchFrame
  cases body with
  | data bytes => exact absurd trivial hf
  | fin => exact absurd trivial hf
  | ping =>
    refine hs.setRun hrest (not_writes_replying _) (not_ends_replying _) ?_
    rintro f hf
    cases hf
    trivial
  | openAck =>
    dsimp only
    split
    · next k hget =>
      obtain ⟨st, hst, hid⟩ := hs.inbox.mapped i k hget
      obtain rfl := hid
      rw [withStream_eq hst]
      refine hs.setStream hst rfl rfl ?_ ((hs.sends k st hst).startPump (Or.inr htaken))
        ((hs.receives k st hst).same rfl rfl rfl rfl)
      intro hpump
      simp [Stream.startPump, hpump]
    · exact hs
  | nack p =>
    cases p with
    | none => exact hs
    | some p =>
      dsimp only
      split
      · next k hget => exact (hs.dropEntries get?_of_erase).goto hrest rfl
      · exact hs
  | «open» p =>
    cases p with
    | none => exact hs
    | some p =>
      refine hs.invite (valid_open rfl hvalid) (hopens i rfl) ?_
      exact List.mem_filterMap.mpr ⟨_, htaken, rfl⟩
  | rst reason =>
    dsimp only
    split
    · next k hget => exact hs.goto hrest rfl
    · exact hs
  | _ => exact hs

theorem sound_receive (hs : Sound s) (hrun : s.run = .reading) (hexpected :
    Expected s (.run (.receive f))) : Sound (receive s f) := by
  obtain ⟨hknown, hopens, hover⟩ := hexpected
  by_cases hf : Streams f
  · have hid := hknown hf
    obtain ⟨i, body⟩ := f
    have hvalid : Frame.valid ⟨i, body⟩ = true := by
      obtain ⟨h, st, hst, heq⟩ := hid
      have hnonzero : i ≠ 0 := by
        rw [← show st.id = i from heq]
        exact (hs.listed h st hst).nonzero
      cases body with
      | data bytes => simp [Frame.valid, Frame.validate, hnonzero]
      | fin => simp [Frame.valid, Frame.validate, hnonzero]
      | _ => exact hf.elim
    unfold receive
    rw [if_pos hvalid]
    unfold dispatchFrame
    cases body with
    | data bytes =>
      dsimp only
      split
      · next k hget =>
        exact hs.takeData hrun hget fun hfin => (payload_newData i bytes).symm.trans (hover hfin)
      · next hget => exact hs.takeUnknown hrun hknown hget hf trivial
    | fin =>
      dsimp only
      split
      · next k hget => exact hs.takeFin hrun hget
      · next hget => exact hs.takeUnknown hrun hknown hget hf trivial
    | _ => exact hf.elim
  · have htaken : Sound { s with taken := s.taken ++ [f] } := by
      refine hs.takePlain hknown fun h st hst => ?_
      unfold payload
      split
      · next bytes hbody => exact absurd (by simp [Streams, hbody]) hf
      · rfl
    unfold receive
    split
    · next hvalid =>
      refine sound_dispatch_other htaken hrun hf (by simp) hvalid fun id hid hmem => ?_
      obtain ⟨acc, hacc, rfl⟩ := List.mem_map.mp hmem
      exact hopens _ hid (hs.inbox.asked acc hacc).1
    · exact htaken

/-- The fields of the state that the bytes of the streams do not depend on. -/
theorem Sound.other (hs : Sound s) (cancelled channelOpen : Bool) (outbound : List Frame) :
    Sound { s with cancelled, channelOpen, outbound } :=
  hs.relax rfl rfl rfl rfl rfl hs.generator le_rfl (fun h st hst => hs.receives h st hst)
    (fun _ _ h => h) hs.inbox.handled hs.inbox.replies

theorem Sound.close (hs : Sound s) (hst : s.table[h]? = some st) :
    Sound (s.setStream h st.close) :=
  hs.setStream hst rfl rfl (fun h => h) ((hs.sends h st hst).congr rfl rfl rfl rfl)
    ((hs.receives h st hst).same rfl rfl rfl rfl)

theorem sound_writeSome (hs : Sound s) {n : Nat} {l : List UInt8} (hrun : s.run = .writing h l)
    (hcan : l = [] ∨ s.canWriteAt h) : Sound (s.withStream h (writeSome s n h l)) := by
  refine of_withStream hs fun st hst => ?_
  have hreceive := hs.receives h st hst
  rw [hrun] at hreceive
  have hcan' : l = [] ∨ st.canWrite = true := hcan.imp_right (point_of_enabled hst)
  change Sound { s.setStream h _ with run := _, resets := s.resets }
  refine hs.work hst rfl rfl rfl rfl rfl (hreceive.writeSome n hcan') ?_ ?_ ?_
  · intro j su hj hsu
    have hother := hs.receives j su hsu
    rw [hrun] at hother
    refine hother.weaken (fun h => h) (fun hw => ?_) ?_ (fun he => ?_) fun _ h => h
    · split at hw
      · obtain ⟨l', hl'⟩ := hw
        cases hl'
      · obtain ⟨l', hl'⟩ := hw
        cases hl'
        exact absurd rfl hj
    · split
      · exact (if_neg hj).symm
      · exact (if_neg hj).trans (if_neg hj).symm
    · split at he
      · rcases he with he | he <;> cases he
      · rcases he with he | he <;> cases he
  · rintro j (⟨l', hl'⟩ | he)
    · split at hl'
      · cases hl'
      · cases hl'
        rfl
    · split at he
      · rcases he with he | he <;> cases he
      · rcases he with he | he <;> cases he
  · intro f hf
    split at hf <;> cases hf

theorem sound_writeError (hs : Sound s) {l : List UInt8} (hrun : s.run = .writing h l)
    (hst : s.table[h]? = some st) : Sound
      (((s.noteReset st.id).setStream h { st with canWrite := false }).setRun (.resetting h)) := by
  have hreceive := hs.receives h st hst
  have hmine : Receives s.taken s.streams (.resetting h) (st.id :: s.resets) h
      { st with canWrite := false } := by
    refine ⟨hreceive.behind, fun hcan => (by cases hcan), fun hid => ?_, ?_, fun _ => rfl⟩
    · exact absurd List.mem_cons_self hid
    · rintro (heof | he | he)
      · exact hreceive.eof (Or.inl heof)
      · cases he
      · cases he
  refine hs.work hst rfl rfl rfl rfl rfl hmine (fun j su hj hsu => ?_) ?_ fun f hf => by cases hf
  · have hother := hs.receives j su hsu
    rw [hrun] at hother
    refine hother.weaken (fun h => h) (fun hw => absurd hw (not_writes_calm rfl j))
      (if_neg hj).symm (fun he => absurd he (not_ends_calm rfl j)) fun i hi => ?_
    exact List.mem_cons_of_mem _ hi
  · rintro j (hw | he)
    · exact absurd hw (not_writes_calm rfl j)
    · exact absurd he (not_ends_calm rfl j)

/-- FIN: the write half is shut down, then the end is marked. -/
theorem sound_ending (hs : Sound s) {run : RunPoint} (hrun : ends s.run h)
    (hst : s.table[h]? = some st) {canWrite remoteEof : Bool}
    (hcan : canWrite = true → st.canWrite = true) (hnext : calm run = true ∨ run = .marking h) :
    Sound ((s.setStream h { st with canWrite, remoteEof }).setRun run) := by
  have hrest : ∀ j, rest s.run j = [] := by
    intro j
    rcases hrun with hrun | hrun <;> rw [hrun] <;> rfl
  have hrest' : ∀ j, rest run j = [] := by
    intro j
    rcases hnext with hcalm | rfl
    · exact rest_calm hcalm j
    · rfl
  have hwrites : ∀ j, ¬ writes run j := by
    rintro j ⟨l, hl⟩
    rcases hnext with hcalm | rfl
    · rw [hl] at hcalm
      cases hcalm
    · cases hl
  have hends : ∀ j, ends run j → j = h := by
    intro j hj
    rcases hnext with hcalm | rfl
    · exact absurd hj (not_ends_calm hcalm j)
    · rcases hj with hj | hj <;> cases hj
      rfl
  have hreceive := hs.receives h st hst
  have hmine : Receives s.taken s.streams run s.resets h { st with canWrite, remoteEof } := by
    refine ⟨hreceive.behind, fun hc hon => ?_, fun hid => ?_,
      fun _ => hreceive.eof (Or.inr hrun), fun _ => hrest' h⟩
    · rw [hrest', ← hrest h]
      exact hreceive.live (hcan hc) (Or.inl (hon.resolve_right (hwrites h)))
    · rw [hrest', ← hrest h]
      exact hreceive.kept hid
  refine hs.work hst rfl rfl rfl rfl rfl hmine (fun j su hj hsu => ?_) ?_ ?_
  · exact (hs.receives j su hsu).weaken (fun h => h) (fun hw => absurd hw (hwrites j))
      ((hrest' j).trans (hrest j).symm) (fun he => absurd (hends j he).symm hj) fun _ h => h
  · rintro j (hw | he)
    · exact absurd hw (hwrites j)
    · exact hends j he
  · rintro f rfl
    rcases hnext with hcalm | hf
    · cases hcalm
    · cases hf

theorem sound_run (hs : Sound s) {e : RunEvent} (he : RunEnabled s e)
    (hexpected : Expected s (.run e)) : Sound (runNext s e) := by
  have hrest : ∀ {r}, s.run = r → calm r = true → ∀ h, rest s.run h = [] :=
    fun hr hcalm h => hr ▸ rest_calm hcalm h
  cases e with
  | receive f => exact sound_receive hs he hexpected
  | reply =>
    obtain ⟨-, f, hrun⟩ := he
    simp only [runNext, hrun]
    refine (hs.send (hs.inbox.replies f hrun)).goto (fun h => ?_) rfl
    rw [send_run, hrun]
    rfl
  | writeSome n =>
    obtain ⟨h, l, hrun, -, hcan⟩ := he
    simp only [runNext, hrun]
    exact sound_writeSome hs hrun hcan
  | writeError =>
    obtain ⟨h, l, hrun, -⟩ := he
    simp only [runNext, hrun]
    exact of_withStream hs fun st hst => sound_writeError hs hrun hst
  | sendReset =>
    obtain ⟨-, h, hrun⟩ := he
    simp only [runNext, hrun]
    refine of_withStream hs fun st hst => ?_
    have hsent : Sound (s.send (.newRst st.id localWriteError)) := hs.send trivial
    refine hsent.goto (fun j => ?_) rfl
    rw [send_run]
    exact hrest hrun rfl j
  | shutWrite =>
    obtain ⟨h, hrun⟩ := he
    simp only [runNext, hrun]
    refine of_withStream hs fun st hst => ?_
    exact sound_ending hs (Or.inl hrun) hst (fun h => by cases h) (Or.inr rfl)
  | markRemote =>
    obtain ⟨h, hrun⟩ := he
    simp only [runNext, hrun]
    refine of_withStream hs fun st hst => ?_
    refine sound_ending hs (Or.inr hrun) hst (fun h => h) (Or.inl ?_)
    split <;> rfl
  | close =>
    obtain ⟨h, hrun⟩ := he
    simp only [runNext, hrun]
    exact of_withStream hs fun st hst => (hs.close hst).goto (hrest hrun rfl) rfl
  | endReader => exact hs.goto (hrest he rfl) rfl
  | take =>
    have hempty : Sound { s with streams := .empty } :=
      hs.dropEntries fun id h hget => by cases hget
    exact hempty.goto (hrest he rfl) rfl
  | clear id =>
    obtain ⟨-, todo, h, hrun, hget⟩ := he
    simp only [runNext, hrun, hget]
    have hsent : Sound ((s.noteReset id).send (.newRst id sessionClosed)) :=
      (hs.noteReset id).send trivial
    refine hsent.goto (fun j => ?_) rfl
    rw [send_run]
    exact hrest hrun rfl j
  | drop =>
    obtain ⟨h, todo, hrun⟩ := he
    simp only [runNext, hrun]
    exact of_withStream hs fun st hst => (hs.close hst).goto (hrest hrun rfl) rfl
  | cancel => exact (hs.other true s.channelOpen s.outbound).goto (hrest he rfl) rfl
  | join => exact hs.goto (hrest he rfl) rfl

end Reader

theorem quiet_control (hf : isControl f = true) : Quiet f := by
  unfold isControl at hf
  unfold Quiet
  cases hbody : f.body <;> simp_all

theorem sound_next (hs : Sound s) {e : Event} (he : Enabled s e) (hexpected : Expected s e) :
    Sound (next s e) := by
  cases e with
  | openStream opened => exact sound_openStream hs hexpected opened
  | task h e => exact of_withStream hs fun st hst => sound_task hs hst he
  | pump h e => exact of_withStream hs fun st hst => sound_pump hs hst he
  | shutdown h =>
    refine of_withStream hs fun st hst => ?_
    exact hs.setStream hst rfl rfl (fun h => h) ((hs.sends h st hst).congr rfl rfl rfl rfl)
      ((hs.receives h st hst).congr rfl (fun h => by cases h) rfl fun h => h)
  | accept a e => exact of_withAcceptor hs fun acc hacc => sound_accept hs hacc he
  | run e => exact sound_run hs he hexpected
  | prune =>
    refine hs.dropEntries fun id h hget => ?_
    rw [BTreeMap.get?_retain] at hget
    exact (Option.filter_eq_some_iff.mp hget).1
  | cancel => exact hs.other true s.channelOpen s.outbound
  | control f => exact hs.send (quiet_control he.2)
  | writeOut => exact hs.other s.cancelled s.channelOpen s.outbound.tail
  | writerExit => exact hs.other s.cancelled false []

theorem sound_initial (role : SessionRole) : Sound (initial role) := by
  refine ⟨⟨?_, ?_, ?_, ?_, ?_, ?_⟩, ?_⟩
  · exact StreamIds.invariant_new role.parity
  · intro j j' su su' hsu
    simp [initial] at hsu
  · intro j su hsu
    simp [initial] at hsu
  · intro j su hsu
    simp [initial] at hsu
  · constructor <;> simp [initial]
  · refine ⟨?_, ?_, ?_, ?_, ?_, ?_⟩ <;> simp [initial, writes, ends]
  · intro j su hsu
    simp [initial] at hsu

end Steps

end StreamBytes
