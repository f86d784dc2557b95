import AgsCli.Tunnel.StreamSteps
import Mathlib.Logic.Function.Basic
import Mathlib.Tactic.NormNum

/-! # Two linked sessions

A client and a server joined by a transport that delivers what each writer wrote, in order. -/
namespace LinkedSessions

open OrderedMap Tunnel IdGenerator Session SessionFacts StreamBytes

def peer : SessionRole → SessionRole
  | .client => .server
  | .server => .client

structure Link where
  ends : SessionRole → Endpoint
  wire : SessionRole → List Frame

def initial : Link := ⟨Session.initial, fun _ => []⟩

/-- A frame arrives when it is the next one on its way here. -/
def Arrives (s : Link) (x : SessionRole) : Event → Prop
  | .run (.receive f) => (s.wire (peer x)).head? = some f
  | _ => True

/-- What a step does to the wire: the reader takes the next frame, the writer puts one on it,
unless it is too large. -/
def transport (s : Link) (x : SessionRole) : Event → SessionRole → List Frame
  | .run (.receive _) => Function.update s.wire (peer x) (s.wire (peer x)).tail
  | .writeOut =>
    Function.update s.wire x (s.wire x ++ ((s.ends x).outbound.take 1).filter Frame.fits)
  | _ => s.wire

def system : Events.System Link (SessionRole × Event) where
  enabled s e := Enabled (s.ends e.1) e.2 ∧ Arrives s e.1 e.2
  next s e := ⟨Function.update s.ends e.1 (next (s.ends e.1) e.2), transport s e.1 e.2⟩

/-- The generators have not started again: every id is handed out once. -/
def NoRestart (s : Link) : SessionRole × Event → Prop
  | (x, .openStream _) => (s.ends x).generator.current < overflowThreshold
  | _ => True

/-- All that was read from the local connections of the streams with an id. -/
def bytesRead (s : Endpoint) (id : Nat) : List UInt8 :=
  (s.table.filter (·.id = id)).flatMap (·.readBytes)

/-- What the streams deliver: in order and without loss, duplication or foreign bytes; nothing
before the OPEN_ACK; and all of it when both directions ended with FIN and nothing was reset. -/
structure Faithful (s : Link) : Prop where
  inOrder : ∀ (x : SessionRole) (h : Nat) (st : Stream), (s.ends x).table[h]? = some st →
    st.written <+: bytesRead (s.ends (peer x)) st.id
  acknowledged : ∀ (x : SessionRole) (id : Nat) (bytes : List UInt8),
    .newData id bytes ∈ (s.ends x).enqueued →
      .newOpenAck id ∈ (s.ends x).enqueued ∨ .newOpenAck id ∈ (s.ends x).taken
  complete : ∀ (x : SessionRole) (h j : Nat) (st su : Stream),
    (s.ends x).table[h]? = some st → (s.ends (peer x)).table[j]? = some su → su.id = st.id →
      st.remoteEof = true → su.remoteEof = true → st.id ∉ (s.ends x).resets →
        st.id ∉ (s.ends (peer x)).resets →
          st.written = bytesRead (s.ends (peer x)) st.id ∧
            su.written = bytesRead (s.ends x) st.id

variable {s t : Endpoint} {h j a : Nat} {st su : Stream} {acc : Acceptor} {f : Frame}

section Traffic

/-- A step that takes no frame off the channel: what it sends goes to the end. -/
structure Traffic (s t : Endpoint) : Prop where
  role : t.role = s.role
  taken : t.taken = s.taken
  channel : t.channelOpen = s.channelOpen
  sent : ∃ l, t.enqueued = s.enqueued ++ l ∧ t.outbound = s.outbound ++ l ∧
    (s.channelOpen = false → l = [])

theorem Traffic.keep (hrole : t.role = s.role) (htaken : t.taken = s.taken)
    (hchannel : t.channelOpen = s.channelOpen) (henqueued : t.enqueued = s.enqueued)
    (houtbound : t.outbound = s.outbound) : Traffic s t :=
  ⟨hrole, htaken, hchannel, [], by simp [henqueued], by simp [houtbound], fun _ => rfl⟩

theorem Traffic.refl (s : Endpoint) : Traffic s s := .keep rfl rfl rfl rfl rfl

theorem Traffic.send (s : Endpoint) (f : Frame) : Traffic s (s.send f) := by
  refine ⟨send_role f, send_taken f, send_channelOpen f, if s.channelOpen then [f] else [], ?_, ?_,
    ?_⟩
  · rw [send_enqueued]
    split <;> simp
  · rw [send_outbound]
    split <;> simp
  · intro hclosed
    simp [hclosed]

theorem Traffic.andThen (ht : Traffic s t) {u : Endpoint} (hrole : u.role = t.role)
    (htaken : u.taken = t.taken) (hchannel : u.channelOpen = t.channelOpen)
    (henqueued : u.enqueued = t.enqueued) (houtbound : u.outbound = t.outbound) : Traffic s u := by
  obtain ⟨h1, h2, h3, l, h4, h5, h6⟩ := ht
  exact ⟨hrole.trans h1, htaken.trans h2, hchannel.trans h3, l, henqueued.trans h4,
    houtbound.trans h5, h6⟩

theorem traffic_openStream (s : Endpoint) (opened : OpenPayload) :
    Traffic s (openRemoteStream s opened) := by
  unfold openRemoteStream
  split
  · exact .keep rfl rfl rfl rfl rfl
  · exact .refl s

theorem traffic_task (s : Endpoint) (h : Nat) (st : Stream) (e : TaskEvent) :
    Traffic s (taskNext s h st e) := by
  cases e with
  | announce =>
    change Traffic s (announce s h st)
    unfold announce
    split
    · exact (Traffic.send s st.announcement).andThen rfl rfl rfl rfl rfl
    · exact .keep rfl rfl rfl rfl rfl
  | _ => exact .keep rfl rfl rfl rfl rfl

theorem traffic_pump (s : Endpoint) (h : Nat) (st : Stream) (e : PumpEvent) :
    Traffic s (pumpNext s h st e) := by
  cases e with
  | send =>
    change Traffic s (pumpSend s h st)
    unfold pumpSend
    split
    · exact (Traffic.send s _).andThen rfl rfl rfl rfl rfl
    · exact (Traffic.send s _).andThen rfl rfl rfl rfl rfl
    · exact (Traffic.send s _).andThen rfl rfl rfl rfl rfl
    · exact .refl s
  | _ => exact .keep rfl rfl rfl rfl rfl

theorem traffic_accept (s : Endpoint) (a : Nat) (acc : Acceptor) (e : AcceptorEvent) :
    Traffic s (acceptorNext s a acc e) := by
  cases e with
  | check =>
    change Traffic s (checkOpen s a acc)
    unfold checkOpen
    split_ifs <;> exact .keep rfl rfl rfl rfl rfl
  | dial ok =>
    change Traffic s (dialed s a acc ok)
    unfold dialed
    split_ifs <;> exact .keep rfl rfl rfl rfl rfl
  | register =>
    change Traffic s (registerAccepted s a acc)
    unfold registerAccepted
    split <;> exact .keep rfl rfl rfl rfl rfl
  | nack =>
    change Traffic s (sendNack s a acc)
    unfold sendNack
    split
    · exact (Traffic.send s _).andThen rfl rfl rfl rfl rfl
    · exact .refl s
  | _ => exact .keep rfl rfl rfl rfl rfl

theorem traffic_dispatch (s : Endpoint) (f : Frame) : Traffic s (dispatchFrame s f) := by
  have hkeep := Traffic.refl s
  unfold dispatchFrame
  split
  · exact .keep rfl rfl rfl rfl rfl
  · split
    · exact of_withStream hkeep fun st _ => .keep rfl rfl rfl rfl rfl
    · exact hkeep
  · split
    · exact .keep rfl rfl rfl rfl rfl
    · exact hkeep
  · exact .keep rfl rfl rfl rfl rfl
  · split
    · exact .keep rfl rfl rfl rfl rfl
    · exact .keep rfl rfl rfl rfl rfl
  · split
    · exact .keep rfl rfl rfl rfl rfl
    · exact .keep rfl rfl rfl rfl rfl
  · split
    · exact .keep rfl rfl rfl rfl rfl
    · exact hkeep
  · exact hkeep

theorem traffic_receive (s : Endpoint) (f : Frame) :
    Traffic { s with taken := s.taken ++ [f] } (receive s f) := by
  unfold receive
  split
  · exact traffic_dispatch _ f
  · exact .refl _

theorem traffic_run (s : Endpoint) {e : RunEvent} (he : ∀ f, e ≠ .receive f) :
    Traffic s (runNext s e) := by
  have hkeep := Traffic.refl s
  cases e with
  | receive f => exact absurd rfl (he f)
  | reply =>
    simp only [runNext]
    split
    · exact (Traffic.send s _).andThen rfl rfl rfl rfl rfl
    · exact hkeep
  | sendReset =>
    simp only [runNext]
    split
    · exact of_withStream hkeep fun st _ => (Traffic.send s _).andThen rfl rfl rfl rfl rfl
    · exact hkeep
  | clear id =>
    simp only [runNext]
    split
    · split
      · obtain ⟨h1, h2, h3, sent, h4⟩ :=
          Traffic.send (s.noteReset id) (.newRst id sessionClosed)
        exact ⟨h1, h2, h3, sent, h4⟩
      · exact hkeep
    · exact hkeep
  | writeSome n =>
    simp only [runNext]
    split
    · exact of_withStream hkeep fun st _ => .keep rfl rfl rfl rfl rfl
    · exact hkeep
  | writeError =>
    simp only [runNext]
    split
    · exact of_withStream hkeep fun st _ => .keep rfl rfl rfl rfl rfl
    · exact hkeep
  | shutWrite =>
    simp only [runNext]
    split
    · exact of_withStream hkeep fun st _ => .keep rfl rfl rfl rfl rfl
    · exact hkeep
  | markRemote =>
    simp only [runNext]
    split
    · exact of_withStream hkeep fun st _ => .keep rfl rfl rfl rfl rfl
    · exact hkeep
  | close =>
    simp only [runNext]
    split
    · exact of_withStream hkeep fun st _ => .keep rfl rfl rfl rfl rfl
    · exact hkeep
  | drop =>
    simp only [runNext]
    split
    · exact of_withStream hkeep fun st _ => .keep rfl rfl rfl rfl rfl
    · exact hkeep
  | endReader => exact .keep rfl rfl rfl rfl rfl
  | take => exact .keep rfl rfl rfl rfl rfl
  | cancel => exact .keep rfl rfl rfl rfl rfl
  | join => exact .keep rfl rfl rfl rfl rfl

end Traffic

section Wire

/-- The frames taken, on their way and waiting are what was sent, in order, but for frames that
are too large; a writer that has ended loses what waits. -/
def InOrder (taken wire : List Frame) (s : Endpoint) : Prop :=
  ∃ lost, taken ++ wire ++ s.outbound.filter Frame.fits ++ lost = s.enqueued.filter Frame.fits ∧
    (s.channelOpen = true → lost = [])

variable {taken wire : List Frame}

theorem InOrder.traffic (h : InOrder taken wire s) (ht : Traffic s t) : InOrder taken wire t := by
  obtain ⟨lost, hall, hlost⟩ := h
  obtain ⟨l, henqueued, houtbound, hclosed⟩ := ht.sent
  refine ⟨lost, ?_, fun hopen => hlost (ht.channel ▸ hopen)⟩
  rw [henqueued, houtbound, List.filter_append, List.filter_append, ← hall]
  by_cases hopen : s.channelOpen = true
  · rw [hlost hopen]
    simp
  · rw [hclosed (by simpa using hopen)]
    simp

theorem InOrder.writeOut (h : InOrder taken wire s) :
    InOrder taken (wire ++ (s.outbound.take 1).filter Frame.fits)
      { s with outbound := s.outbound.tail } := by
  obtain ⟨lost, hall, hlost⟩ := h
  refine ⟨lost, ?_, hlost⟩
  have hsplit : s.outbound.filter Frame.fits =
      (s.outbound.take 1).filter Frame.fits ++ s.outbound.tail.filter Frame.fits := by
    rw [← List.filter_append, ← List.drop_one, List.take_append_drop]
  rw [← hall, hsplit]
  simp only [List.append_assoc]

theorem InOrder.writerExit (h : InOrder taken wire s) :
    InOrder taken wire { s with channelOpen := false, outbound := [] } := by
  obtain ⟨lost, hall, -⟩ := h
  refine ⟨s.outbound.filter Frame.fits ++ lost, ?_, fun hopen => by cases hopen⟩
  rw [← hall]
  simp

theorem InOrder.receive (h : InOrder taken (f :: wire) s) : InOrder (taken ++ [f]) wire s := by
  obtain ⟨lost, hall, hlost⟩ := h
  refine ⟨lost, ?_, hlost⟩
  rw [← hall]
  simp

/-- What has arrived or is on its way is what was sent up to some place, without the frames that
are too large. -/
theorem InOrder.sent (h : InOrder taken wire s) :
    ∃ l, l <+: s.enqueued ∧ taken ++ wire = l.filter Frame.fits := by
  obtain ⟨lost, hall, -⟩ := h
  rw [List.append_assoc, eq_comm] at hall
  obtain ⟨l, m, henqueued, hl, -⟩ := List.filter_eq_append_iff.mp hall
  exact ⟨l, ⟨m, henqueued.symm⟩, hl.symm⟩

theorem InOrder.subset (h : InOrder taken wire s) : taken ++ wire ⊆ s.enqueued := by
  obtain ⟨l, hl, hsent⟩ := h.sent
  rw [hsent]
  exact fun f hf => hl.subset (List.mem_filter.mp hf).1

end Wire

section Joined

theorem traffic_next (s : Endpoint) {e : Event} (hreceive : ∀ f, e ≠ .run (.receive f))
    (hwrite : e ≠ .writeOut) (hexit : e ≠ .writerExit) : Traffic s (next s e) := by
  have hkeep := Traffic.refl s
  cases e with
  | openStream opened => exact traffic_openStream s opened
  | task h e => exact of_withStream hkeep fun st _ => traffic_task s h st e
  | pump h e => exact of_withStream hkeep fun st _ => traffic_pump s h st e
  | shutdown h => exact of_withStream hkeep fun st _ => .keep rfl rfl rfl rfl rfl
  | accept a e => exact of_withAcceptor hkeep fun acc _ => traffic_accept s a acc e
  | run e => exact traffic_run s fun f hf => hreceive f (by rw [hf])
  | prune => exact .keep rfl rfl rfl rfl rfl
  | cancel => exact .keep rfl rfl rfl rfl rfl
  | control f => exact Traffic.send s f
  | writeOut => exact absurd rfl hwrite
  | writerExit => exact absurd rfl hexit

theorem peer_ne (x : SessionRole) : peer x ≠ x := by cases x <;> simp [peer]

theorem peer_peer (x : SessionRole) : peer (peer x) = x := by cases x <;> rfl

theorem eq_peer {x y : SessionRole} (h : y ≠ x) : y = peer x := by
  cases x <;> cases y <;> simp_all [peer]

structure Joined (s : Link) : Prop where
  role : ∀ x, (s.ends x).role = x
  sound : ∀ x, Sound (s.ends x)
  fifo : ∀ x, InOrder (s.ends (peer x)).taken (s.wire x) (s.ends x)

variable {l : Link} {x : SessionRole}

theorem joined_initial : Joined initial :=
  ⟨fun _ => rfl, sound_initial, fun _ => ⟨[], rfl, fun _ => rfl⟩⟩

theorem Joined.step (hj : Joined l) {w : SessionRole → List Frame} (hrole : t.role = x)
    (hsound : Sound t) (hout : InOrder (l.ends (peer x)).taken (w x) t)
    (hin : InOrder t.taken (w (peer x)) (l.ends (peer x))) :
    Joined ⟨Function.update l.ends x t, w⟩ := by
  refine ⟨fun y => ?_, fun y => ?_, fun y => ?_⟩
  · by_cases hy : y = x
    · subst hy
      simpa using hrole
    · simpa [Function.update_of_ne hy] using hj.role y
  · by_cases hy : y = x
    · subst hy
      simpa using hsound
    · simpa [Function.update_of_ne hy] using hj.sound y
  · by_cases hy : y = x
    · subst hy
      simpa [Function.update_of_ne (peer_ne y)] using hout
    · obtain rfl := eq_peer hy
      simpa [Function.update_of_ne (peer_ne x), peer_peer] using hin

theorem Joined.acceptor_opened (hj : Joined l) {id : Nat}
    (hmem : id ∈ (l.ends (peer x)).taken.filterMap openId) : ∃ (h : Nat) (st : Stream),
      (l.ends x).table[h]? = some st ∧ st.id = id ∧ st.opening.isSome = true := by
  obtain ⟨f, hf, hid⟩ := List.mem_filterMap.mp hmem
  refine (hj.sound x).outbox.opened id (List.mem_filterMap.mpr ⟨f, ?_, hid⟩)
  exact (hj.fifo x).subset (List.mem_append_left _ hf)

/-- A stream that an end accepted was opened by its peer. -/
theorem Joined.invited (hj : Joined l) (hst : (l.ends x).table[h]? = some st)
    (hopening : st.opening.isSome = false) : ∃ (j : Nat) (su : Stream),
      (l.ends (peer x)).table[j]? = some su ∧ su.id = st.id ∧ su.opening.isSome = true := by
  obtain ⟨acc, hacc, hid, -⟩ := (((hj.sound x).listed h st hst).invited hopening).2
  have hasked := ((hj.sound x).inbox.asked acc hacc).1
  rw [hid] at hasked
  refine hj.acceptor_opened (x := peer x) ?_
  rwa [peer_peer]

theorem Joined.id_lt (hj : Joined l) (hst : (l.ends x).table[h]? = some st) : st.id < 2 ^ 64 := by
  have hown : ∀ {y : SessionRole} {k : Nat} {sv : Stream}, (l.ends y).table[k]? = some sv →
      sv.opening.isSome = true → sv.id < 2 ^ 64 := by
    intro y k sv hsv ho
    have hlt := (((hj.sound y).listed k sv hsv).own ho).2
    have hhigh := (hj.sound y).generator.high
    unfold overflowThreshold at hhigh
    omega
  cases ho : st.opening.isSome with
  | true => exact hown hst ho
  | false =>
    obtain ⟨j, su, hsu, hid, hopen⟩ := hj.invited hst ho
    exact hid ▸ hown hsu hopen

/-- Frames of a stream are sent after its OPEN_ACK was sent or taken: both ends have it. -/
theorem Joined.known (hj : Joined l) (hf : f ∈ (l.ends (peer x)).enqueued) (hstream : Streams f) :
    Known (l.ends x) f.streamId := by
  obtain ⟨j, su, hsu, hid, hpump⟩ := (hj.sound (peer x)).outbox.streaming f hf hstream
  rw [← hid]
  rcases ((hj.sound (peer x)).sends j su hsu).started hpump with hack | hack
  · obtain ⟨k, sv, hsv, hvid, hopening⟩ := (hj.sound (peer x)).outbox.acked su.id hack
    obtain ⟨h, st, hst, heq, -⟩ := hj.invited hsv hopening
    rw [peer_peer] at hst
    exact ⟨h, st, hst, heq.trans hvid⟩
  · have hsent := (hj.fifo x).subset (List.mem_append_left _ hack)
    obtain ⟨h, st, hst, heq, -⟩ := (hj.sound x).outbox.acked su.id hsent
    exact ⟨h, st, hst, heq⟩

/-- The writer drops none of a stream's bytes. -/
theorem Joined.fits (hj : Joined l) {id : Nat} {bytes : List UInt8}
    (hf : .newData id bytes ∈ (l.ends x).enqueued) : (Frame.newData id bytes).fits = true := by
  obtain ⟨h, st, hst, hid, -⟩ := (hj.sound x).outbox.streaming _ hf trivial
  have hlt : id < 2 ^ 64 := by
    rw [show id = st.id from hid.symm]
    exact hj.id_lt hst
  exact fits_newData hlt ((hj.sound x).outbox.sized id bytes hf)

theorem carried_filter {m : List Frame} {id : Nat}
    (hm : ∀ i bytes, .newData i bytes ∈ m → (Frame.newData i bytes).fits = true) :
    carried id (m.filter Frame.fits) = carried id m := by
  induction m with
  | nil => rfl
  | cons f m ih =>
    have ih := ih fun i bytes hmem => hm i bytes (List.mem_cons_of_mem _ hmem)
    rw [List.filter_cons]
    split
    · exact congrArg (payload id f ++ ·) ih
    · next hfits =>
      have hempty : payload id f = [] := by
        unfold payload
        split
        · next bytes hbody =>
          obtain ⟨i, body⟩ := f
          obtain rfl : body = .data bytes := hbody
          exact absurd (hm i bytes List.mem_cons_self) hfits
        · rfl
      rw [ih]
      change carried id m = payload id f ++ carried id m
      rw [hempty]
      rfl

/-- What has arrived for a stream, with the frames sent up to then. -/
theorem Joined.arrived (hj : Joined l) (x : SessionRole) : ∃ m, m <+: (l.ends x).enqueued ∧
    (l.ends (peer x)).taken ++ l.wire x = m.filter Frame.fits ∧
      ∀ id, carried id ((l.ends (peer x)).taken ++ l.wire x) = carried id m := by
  obtain ⟨m, hm, hsent⟩ := (hj.fifo x).sent
  refine ⟨m, hm, hsent, fun id => ?_⟩
  rw [hsent]
  exact carried_filter fun i bytes hmem => hj.fits (hm.subset hmem)

/-- Whatever arrived up to a FIN carries all that the stream read. -/
theorem Joined.arrived_finished (hj : Joined l) (hsu : (l.ends x).table[j]? = some su)
    {p : List Frame} (hp : p <+: (l.ends (peer x)).taken ++ l.wire x)
    (hfin : .newFin su.id ∈ p) : carried su.id p = su.readBytes := by
  obtain ⟨q, hq⟩ := hp
  obtain ⟨m, hm, hsent⟩ := (hj.fifo x).sent
  rw [← hq, eq_comm] at hsent
  obtain ⟨m₁, m₂, rfl, hp, -⟩ := List.filter_eq_append_iff.mp hsent
  have hm₁ : m₁ <+: (l.ends x).enqueued := (List.prefix_append _ _).trans hm
  rw [← hp, carried_filter fun i bytes hmem => hj.fits (hm₁.subset hmem)]
  refine ((hj.sound x).sends j su hsu).finished m₁ hm₁ ?_
  exact (List.mem_filter.mp (hp ▸ hfin)).1

theorem Joined.expected (hj : Joined l) {e : Event} (hallowed : NoRestart l (x, e))
    (harrives : Arrives l x e) : Expected (l.ends x) e := by
  cases e with
  | openStream opened => exact hallowed
  | run e =>
    cases e with
    | receive f =>
      obtain ⟨rest, hwire⟩ := List.head?_eq_some_iff.mp harrives
      have hfifo := hj.fifo (peer x)
      rw [peer_peer, hwire] at hfifo
      have hsent : f ∈ (l.ends (peer x)).enqueued := hfifo.subset (by simp)
      refine ⟨hj.known hsent, fun id hid htaken => ?_, fun hfin => ?_⟩
      · obtain ⟨m, hm, harrived⟩ := hfifo.sent
        have honce : ((l.ends x).taken ++ f :: rest).filterMap openId |>.Nodup := by
          rw [harrived]
          refine List.Nodup.sublist ?_ (hj.sound (peer x)).outbox.once
          exact (List.filter_sublist.trans hm.sublist).filterMap openId
        rw [List.filterMap_append, List.nodup_append] at honce
        refine honce.2.2 id htaken id ?_ rfl
        exact List.mem_filterMap.mpr ⟨f, List.mem_cons_self, hid⟩
      · have hsentFin : .newFin f.streamId ∈ (l.ends (peer x)).enqueued :=
          hfifo.subset (List.mem_append_left _ hfin)
        obtain ⟨j, su, hsu, hid, -⟩ := (hj.sound (peer x)).outbox.streaming _ hsentFin trivial
        have hid : su.id = f.streamId := hid
        have hall := fun p => hj.arrived_finished (p := p) hsu
        rw [peer_peer, hwire, hid] at hall
        have hbefore := hall (l.ends x).taken (List.prefix_append _ _) hfin
        have hafter := hall ((l.ends x).taken ++ [f]) (by simp) (List.mem_append_left _ hfin)
        rw [carried_concat, hbefore] at hafter
        exact List.append_right_eq_self.mp hafter
    | _ => trivial
  | _ => trivial

theorem joined_next (hj : Joined l) {e : Event} (hallowed : NoRestart l (x, e))
    (he : system.enabled l (x, e)) : Joined (system.next l (x, e)) := by
  obtain ⟨henabled, harrives⟩ := he
  have hsound := sound_next (hj.sound x) henabled (hj.expected hallowed harrives)
  have hin := hj.fifo (peer x)
  rw [peer_peer] at hin
  by_cases hreceive : ∃ f, e = .run (.receive f)
  · obtain ⟨f, rfl⟩ := hreceive
    obtain ⟨rest, hwire⟩ := List.head?_eq_some_iff.mp harrives
    have htraffic := traffic_receive (l.ends x) f
    have hout : InOrder (l.ends (peer x)).taken (l.wire x)
        { l.ends x with taken := (l.ends x).taken ++ [f] } := hj.fifo x
    refine hj.step (htraffic.role.trans (hj.role x)) hsound ?_ ?_
    · change InOrder _ (Function.update l.wire (peer x) (l.wire (peer x)).tail x) _
      rw [Function.update_of_ne (peer_ne x).symm]
      exact hout.traffic htraffic
    · change InOrder _ (Function.update l.wire (peer x) (l.wire (peer x)).tail (peer x)) _
      rw [Function.update_self, hwire]
      rw [hwire] at hin
      have hstep := hin.receive
      rwa [← show _ = (l.ends x).taken ++ [f] from htraffic.taken] at hstep
  · by_cases hwrite : e = .writeOut
    · subst hwrite
      refine hj.step (hj.role x) hsound ?_ ?_
      · change InOrder _ (Function.update l.wire x _ x) _
        rw [Function.update_self]
        exact (hj.fifo x).writeOut
      · change InOrder _ (Function.update l.wire x _ (peer x)) _
        rw [Function.update_of_ne (peer_ne x)]
        exact hin
    · have hwire : transport l x e = l.wire := by
        cases e with
        | writeOut => exact absurd rfl hwrite
        | run e =>
          cases e with
          | receive f => exact absurd ⟨f, rfl⟩ hreceive
          | _ => rfl
        | _ => rfl
      change Joined ⟨_, transport l x e⟩
      rw [hwire]
      by_cases hexit : e = .writerExit
      · subst hexit
        exact hj.step (hj.role x) hsound (hj.fifo x).writerExit hin
      · have htraffic := traffic_next (l.ends x) (fun f hf => hreceive ⟨f, hf⟩) hwrite hexit
        refine hj.step (htraffic.role.trans (hj.role x)) hsound ((hj.fifo x).traffic htraffic) ?_
        rwa [htraffic.taken]

theorem joined_of_reaches (h : system.Reaches NoRestart initial l) : Joined l :=
  system.invariant Joined (fun _ _ hj hallowed he => joined_next hj hallowed he) h joined_initial

end Joined

section Faithful

variable {l : Link} {x : SessionRole}

theorem filter_eq_singleton {α : Type} {m : List α} {p : α → Bool} {a : α} {j : Nat}
    (ha : m[j]? = some a) (hpa : p a = true)
    (honly : ∀ (i : Nat) (b : α), m[i]? = some b → p b = true → i = j) : m.filter p = [a] := by
  induction m generalizing j with
  | nil => cases ha
  | cons b m ih =>
    rw [List.filter_cons]
    cases j with
    | zero =>
      obtain rfl := Option.some.inj ha
      rw [if_pos hpa, List.filter_eq_nil_iff.mpr]
      intro c hc hpc
      obtain ⟨i, hi⟩ := List.mem_iff_getElem?.mp hc
      exact absurd (honly (i + 1) c hi hpc) (by simp)
    | succ j =>
      rw [if_neg fun hpb => absurd (honly 0 b rfl hpb) (by simp)]
      refine ih ha fun i c hc hpc => ?_
      exact Nat.succ.inj (honly (i + 1) c hc hpc)

theorem Joined.bytesRead_eq (hj : Joined l) (hsu : (l.ends x).table[j]? = some su) :
    bytesRead (l.ends x) su.id = su.readBytes := by
  have honly := filter_eq_singleton (p := fun sv : Stream => decide (sv.id = su.id)) hsu
    (by simp) fun i b hb hid => (hj.sound x).unique i j b su hb hsu (by simpa using hid)
  unfold bytesRead
  rw [honly]
  simp

theorem Joined.carried_bytesRead (hj : Joined l) (x : SessionRole) (id : Nat) :
    carried id (l.ends x).taken <+: bytesRead (l.ends (peer x)) id := by
  obtain ⟨m, hm, -, hcarried⟩ := hj.arrived (peer x)
  rw [peer_peer] at hcarried
  have hsent : carried id (l.ends x).taken <+: carried id (l.ends (peer x)).enqueued := by
    refine (carried_mono id (List.prefix_append _ (l.wire (peer x)))).trans ?_
    rw [hcarried]
    exact carried_mono id hm
  by_cases hknown : Known (l.ends (peer x)) id
  · obtain ⟨j, su, hsu, rfl⟩ := hknown
    rw [hj.bytesRead_eq hsu]
    exact hsent.trans ((hj.sound (peer x)).sends j su hsu).ahead
  · have hnone : carried id (l.ends (peer x)).enqueued = [] := by
      refine carried_eq_nil fun f hf hstream heq => hknown ?_
      obtain ⟨j, su, hsu, hid, -⟩ := (hj.sound (peer x)).outbox.streaming f hf hstream
      exact ⟨j, su, hsu, hid.trans heq⟩
    rw [hnone] at hsent
    rw [List.prefix_nil.mp hsent]
    exact List.nil_prefix

/-- After the FIN of its peer a stream that was not reset has written all that was read. -/
theorem Joined.written_eq (hj : Joined l) (hst : (l.ends x).table[h]? = some st)
    (hsu : (l.ends (peer x)).table[j]? = some su) (hid : su.id = st.id)
    (heof : st.remoteEof = true) (hreset : st.id ∉ (l.ends x).resets) :
    st.written = bytesRead (l.ends (peer x)) st.id := by
  have hreceive := (hj.sound x).receives h st hst
  have hwritten : st.written = carried st.id (l.ends x).taken := by
    rw [← hreceive.kept hreset, hreceive.settled heof, List.append_nil]
  have hfin := hreceive.eof (Or.inl heof)
  have hall := hj.arrived_finished (p := (l.ends x).taken) hsu
  rw [peer_peer, hid] at hall
  rw [hwritten, hall (List.prefix_append _ _) hfin, ← hid, hj.bytesRead_eq hsu]

theorem Joined.faithful (hj : Joined l) : Faithful l := by
  refine ⟨fun x h st hst => ?_, fun x id bytes hmem => ?_, ?_⟩
  · exact ((hj.sound x).receives h st hst).behind.trans (hj.carried_bytesRead x st.id)
  · obtain ⟨h, st, hst, hid, hpump⟩ := (hj.sound x).outbox.streaming _ hmem trivial
    have hack := ((hj.sound x).sends h st hst).started hpump
    rwa [show st.id = id from hid] at hack
  · intro x h j st su hst hsu hid hst' hsu' hreset hreset'
    refine ⟨hj.written_eq hst hsu hid hst' hreset, ?_⟩
    have hst'' : (l.ends (peer (peer x))).table[h]? = some st := by rwa [peer_peer]
    have hall := hj.written_eq hsu hst'' hid.symm hsu' (hid ▸ hreset')
    rwa [peer_peer, hid] at hall

/-- While every id is handed out once, the streams of linked sessions deliver what was read. -/
theorem faithful_without_restart (h : system.Reaches NoRestart initial l) : Faithful l :=
  (joined_of_reaches h).faithful

end Faithful

section Reuse

def service : OpenPayload := ⟨"127.0.0.1", 8080, ""⟩

/-- The server accepts a stream and sends two pieces of data. The client writes the first, fails to
read from its local connection and drops the stream, with the second piece still on its way. -/
def abandoned : List (SessionRole × Event) :=
  [(.client, .openStream service), (.client, .task 0 .announce), (.client, .writeOut),
    (.server, .run (.receive (.newOpen 2 service))), (.server, .accept 0 .check),
    (.server, .accept 0 (.dial true)), (.server, .accept 0 .register),
    (.server, .task 0 .announce), (.server, .task 0 .start), (.server, .writeOut),
    (.server, .pump 0 (.read [1])), (.server, .pump 0 .send), (.server, .writeOut),
    (.server, .pump 0 (.read [2])), (.server, .pump 0 .send), (.server, .writeOut),
    (.client, .run (.receive (.newOpenAck 2))), (.client, .run (.receive (.newData 2 [1]))),
    (.client, .run (.writeSome 1)), (.client, .pump 0 .readError), (.client, .pump 0 .send),
    (.client, .pump 0 .close), (.client, .prune)]

theorem abandoned_admitted : system.Admits NoRestart initial abandoned := by
  have hlow : 2 < overflowThreshold := by norm_num [overflowThreshold]
  refine ⟨hlow, ⟨rfl, trivial⟩, trivial, ⟨⟨rfl, ?_⟩, trivial⟩, trivial, ⟨⟨rfl, ?_⟩, trivial⟩,
    trivial, ⟨rfl, rfl⟩, trivial, ⟨rfl, trivial⟩, trivial, ⟨Or.inl rfl, trivial⟩, trivial,
    ⟨rfl, trivial⟩, trivial, ⟨⟨rfl, ?_⟩, trivial⟩, trivial, ⟨rfl, trivial⟩, trivial,
    ⟨⟨rfl, ?_⟩, trivial⟩, trivial, ⟨⟨rfl, ?_, ?_⟩, trivial⟩, trivial, ⟨?_, trivial⟩, trivial,
    ⟨⟨rfl, ?_⟩, trivial⟩, trivial, ⟨⟨rfl, ?_, ?_⟩, trivial⟩, trivial, ⟨?_, trivial⟩, trivial,
    ⟨⟨rfl, ?_⟩, trivial⟩, trivial, ⟨rfl, rfl⟩, trivial, ⟨rfl, rfl⟩, trivial,
    ⟨⟨0, [1], rfl, le_rfl, Or.inr rfl⟩, trivial⟩, trivial, ⟨rfl, trivial⟩, trivial,
    ⟨?_, trivial⟩, trivial, ⟨Or.inl rfl, trivial⟩, trivial, ⟨?_, trivial⟩, trivial⟩
  · exact Or.inr (by decide)
  · exact List.cons_ne_nil _ _
  · exact Or.inr (by decide)
  · exact List.cons_ne_nil _ _
  · exact List.cons_ne_nil _ _
  · decide
  · exact Or.inr (by decide)
  · exact List.cons_ne_nil _ _
  · exact List.cons_ne_nil _ _
  · decide
  · exact Or.inr (by decide)
  · exact List.cons_ne_nil _ _
  · exact Or.inr (by decide)
  · intro h
    cases h

/-- The data read so far arrived in part; what arrived is in order. -/
theorem faithful_abandoned : Faithful (system.follow initial abandoned) ∧
    ((system.follow initial abandoned).ends .client).table.map (·.written) = [[1]] ∧
      bytesRead ((system.follow initial abandoned).ends .server) 2 = [1, 2] :=
  ⟨faithful_without_restart (Events.System.reaches_follow abandoned_admitted), rfl, rfl⟩

structure Opened (s t : Endpoint) (n : Nat) : Prop where
  generator : t.generator = ⟨s.generator.current + 2 * n, s.generator.start⟩
  ids : ∀ id h, t.streams.get? id = some h →
    s.generator.current ≤ id ∧ id < s.generator.current + 2 * n
  run : t.run = s.run

/-- While the generator's next id is not in use it is the one handed out. -/
theorem openRemoteStream_free {id : Nat} (hid : s.generator.candidate = id)
    (hfree : s.streams.get? id = none) (opened : OpenPayload) :
    (s.generator.next s.streams.keys).isSome = true ∧ openRemoteStream s opened =
      { s with generator := ⟨id + 2, s.generator.start⟩ }.registerStream id (some opened) := by
  have hkeys : id ∉ s.streams.keys := by
    rw [BTreeMap.mem_keys, hfree]
    simp
  have hnext : s.generator.next s.streams.keys = some (id, ⟨id + 2, s.generator.start⟩) := by
    simp [Generator.next, Generator.search, Generator.advance, hid, hkeys]
  refine ⟨by rw [hnext]; rfl, ?_⟩
  unfold openRemoteStream
  rw [hnext]

theorem next_at (ends : SessionRole → Endpoint) (wire : SessionRole → List Frame) (x : SessionRole)
    (t : Endpoint) (e : Event) : system.next ⟨Function.update ends x t, wire⟩ (x, e) =
      ⟨Function.update ends x (next t e), transport ⟨Function.update ends x t, wire⟩ x e⟩ := by
  change Link.mk (Function.update (Function.update ends x t) x
    (next (Function.update ends x t x) e)) _ = _
  rw [Function.update_idem, Function.update_self]

theorem opens_reach (l : Link) (hempty : ∀ id, (l.ends .client).streams.get? id = none) (n : Nat)
    (hn : (l.ends .client).generator.current + 2 * n ≤ overflowThreshold + 1) :
    ∃ t, Opened (l.ends .client) t n ∧ system.Reaches Events.System.free l
      ⟨Function.update l.ends .client t, l.wire⟩ := by
  induction n with
  | zero =>
    refine ⟨l.ends .client, ⟨rfl, fun id h hget => ?_, rfl⟩, ?_⟩
    · rw [hempty] at hget
      cases hget
    · rw [Function.update_eq_self]
      exact .refl l
  | succ n ih =>
    obtain ⟨t, ht, hreach⟩ := ih (by omega)
    have hcandidate : t.generator.candidate = (l.ends .client).generator.current + 2 * n := by
      unfold Generator.candidate
      rw [ht.generator]
      exact if_neg (by dsimp only; omega)
    have hfree : t.streams.get? ((l.ends .client).generator.current + 2 * n) = none := by
      cases hget : t.streams.get? ((l.ends .client).generator.current + 2 * n) with
      | none => rfl
      | some h => exact absurd (ht.ids _ h hget).2 (lt_irrefl _)
    obtain ⟨henabled, hopen⟩ := openRemoteStream_free hcandidate hfree service
    have hstep := hreach.event (e := (.client, .openStream service)) trivial
      ⟨by simpa [Enabled] using henabled, trivial⟩
    refine ⟨openRemoteStream t service, ⟨?_, ?_, ?_⟩, ?_⟩
    · rw [hopen, ht.generator]
      change Generator.mk _ _ = _
      congr 1
    · rw [hopen]
      intro id h hget
      change (t.streams.insert _ _).get? id = some h at hget
      rw [BTreeMap.get?_insert] at hget
      split at hget
      · next hid => omega
      · have hrange := ht.ids id h hget
        omega
    · rw [hopen]
      exact ht.run
    · rwa [next_at] at hstep

/-- Data on its way is written to the stream that has its id by then. -/
theorem late_data_written (ends : SessionRole → Endpoint) (wire : SessionRole → List Frame)
    {u : Endpoint} {k : Nat} (hrun : u.run = .reading) (hget : u.streams.get? 2 = some k)
    (hst : u.table[k]? = some st) (hcan : st.canWrite = true)
    (hwire : (wire .server).head? = some (.newData 2 [2])) : ∃ v w,
      system.Reaches Events.System.free ⟨Function.update ends .client u, wire⟩
          ⟨Function.update ends .client v, w⟩ ∧
        v.table[k]? = some { st with written := st.written ++ [2] } := by
  have hstart : system.Reaches Events.System.free ⟨Function.update ends .client u, wire⟩
      ⟨Function.update ends .client u, wire⟩ := .refl _
  have hreach := hstart.event (e := (.client, .run (.receive (.newData 2 [2])))) trivial
    ⟨by simpa [Enabled, RunEnabled] using hrun, hwire⟩
  rw [next_at] at hreach
  have hreceive : next u (.run (.receive (.newData 2 [2]))) = { u with
      taken := u.taken ++ [.newData 2 [2]], run := .writing k [2] } := by
    change dispatchFrame { u with taken := u.taken ++ [.newData 2 [2]] } (.newData 2 [2]) = _
    simp only [dispatchFrame, Frame.newData, hget]
    rfl
  obtain ⟨v, hv⟩ : ∃ v, v = next u (.run (.receive (.newData 2 [2]))) := ⟨_, rfl⟩
  rw [← hv] at hreach
  have hst' : v.table[k]? = some st := by
    rw [hv, hreceive]
    exact hst
  have hrun' : v.run = .writing k [2] := by
    rw [hv, hreceive]
  have hwritten := hreach.event (e := (.client, .run (.writeSome 1))) trivial
    ⟨⟨k, [2], by simpa using hrun', le_rfl, Or.inr (by
      simp [Endpoint.canWriteAt, hst', hcan])⟩, trivial⟩
  rw [next_at] at hwritten
  refine ⟨_, _, hwritten, ?_⟩
  simp only [next, runNext, hrun', withStream_eq hst']
  exact List.getElem?_set_self (List.getElem?_eq_some_iff.mp hst').1

/-- Once the generator has started again, data on its way for a stream that was dropped is written
to the new stream with its id. -/
theorem reused_id_unfaithful : ¬ ∀ s, system.Reaches Events.System.free initial s → Faithful s := by
  intro hall
  obtain ⟨l, hl⟩ : ∃ l, l = system.follow initial abandoned := ⟨_, rfl⟩
  have hstart : system.Reaches Events.System.free initial l := by
    rw [hl]
    exact (Events.System.reaches_follow abandoned_admitted).weaken fun _ _ _ => trivial
  have hempty : ∀ id, (l.ends .client).streams.get? id = none := by
    rw [hl]
    exact fun _ => rfl
  have hgenerator : (l.ends .client).generator = ⟨4, 2⟩ := by
    rw [hl]
    rfl
  have hrun : (l.ends .client).run = .reading := by
    rw [hl]
    rfl
  have hwire : (l.wire .server).head? = some (.newData 2 [2]) := by
    rw [hl]
    rfl
  have hread : bytesRead (l.ends .server) 2 = [1, 2] := by
    rw [hl]
    rfl
  clear hl
  obtain ⟨t, ht, hreach⟩ := opens_reach l hempty (2 ^ 63 - 502) (by
    rw [hgenerator]
    norm_num [overflowThreshold])
  have hcandidate : t.generator.candidate = 2 := by
    unfold Generator.candidate
    rw [ht.generator, hgenerator]
    exact if_pos (by norm_num [overflowThreshold])
  have hfree : t.streams.get? 2 = none := by
    cases hget : t.streams.get? 2 with
    | none => rfl
    | some h =>
      have hlow := (ht.ids 2 h hget).1
      rw [hgenerator] at hlow
      exact absurd hlow (by decide)
  obtain ⟨henabled, hopen⟩ := openRemoteStream_free hcandidate hfree service
  have hreach₁ := hreach.event (e := (.client, .openStream service)) trivial
    ⟨by simpa [Enabled] using henabled, trivial⟩
  rw [next_at, show next t (.openStream service) = _ from hopen] at hreach₁
  obtain ⟨u, hu⟩ : ∃ u, u = Endpoint.registerStream
      { t with generator := ⟨2 + 2, t.generator.start⟩ } 2 (some service) := ⟨_, rfl⟩
  rw [← hu] at hreach₁
  obtain ⟨st, hst, hid, hcan, hwritten⟩ : ∃ st, u.table[t.table.length]? = some st ∧
      st.id = 2 ∧ st.canWrite = true ∧ st.written = [] := by
    rw [hu]
    exact ⟨_, List.getElem?_concat_length, rfl, rfl, rfl⟩
  have hget : u.streams.get? 2 = some t.table.length := by
    rw [hu]
    exact BTreeMap.get?_insert_self _ _ _
  have hrun₁ : u.run = .reading := by
    rw [hu]
    exact ht.run.trans hrun
  obtain ⟨v, w, hlate, hv⟩ := late_data_written l.ends l.wire hrun₁ hget hst hcan hwire
  have horder := (hall _ (hstart.trans (hreach₁.trans hlate))).inOrder .client t.table.length
    { st with written := st.written ++ [2] } ?_
  · rw [show ({ st with written := st.written ++ [2] } : Stream).id = 2 from hid] at horder
    change st.written ++ [2] <+: bytesRead (l.ends .server) 2 at horder
    rw [hread, hwritten] at horder
    exact absurd horder (by decide)
  · change (Function.update l.ends .client _ SessionRole.client).table[_]? = _
    rw [Function.update_self]
    exact hv

end Reuse

end LinkedSessions
