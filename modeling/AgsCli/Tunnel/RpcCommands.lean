import AgsCli.Tunnel.Rpc
import Mathlib.Algebra.BigOperators.Group.List.Basic

/-! # Commands of a peer

What a step does to the commands of a session: each goes its own way from its CMD frame to its one
response, a busy one belongs to the reader, and one that is not over yet can always go on. -/
namespace RpcCommands

open OrderedMap Json Tunnel Rpc

variable {s s' : State} {j : Nat} {c : Command}

@[simp] theorem commands_setCommand (j : Nat) (point : CommandPoint) (k : Nat) :
    (s.setCommand j point).commands[k]? =
      (s.commands[k]?).map fun c => if j = k then { c with point } else c :=
  List.getElem?_modify _ j s.commands k

def responsesTo (s : State) (j : Nat) : List Enqueued :=
  s.enqueued.filter fun e => e.origin = .command j

def Responds (frame : Frame) (c : Command) : Prop :=
  ∃ p, frame = ⟨0, .cmdResponse (some p)⟩ ∧ p.cmdId = c.payload.cmdId

/-- How many steps of its own a command has left at most. -/
def rank : CommandPoint → Nat
  | .spawned => 4
  | .found => 3
  | .running => 2
  | .busy | .answering _ => 1
  | .answered | .unsent | .panicked => 0

/-- The moves of a spawned task before its last write. -/
inductive Goes (c : Command) : CommandPoint → CommandPoint → Prop
  | found : Goes c .spawned .found
  | missing :
    Goes c .spawned (.answering (.newCmdErrorResponse c.payload.cmdId "command not found"))
  | invoked : Goes c .found .running
  | panicked : Goes c .found .panicked
  | finished (result : HandlerEnd) :
    Goes c .running (.answering (responseFrame c.payload.cmdId result))

theorem Goes.rank_lt {point point' : CommandPoint} (h : Goes c point point') :
    rank point' < rank point := by
  cases h <;> simp [rank]

theorem Goes.target {point point' : CommandPoint} (h : Goes c point point') :
    point' ≠ .answered ∧ point' ≠ .busy ∧ point' ≠ .unsent := by
  cases h <;> simp

theorem Goes.source {point point' : CommandPoint} (h : Goes c point point') :
    point ≠ .answered ∧ point ≠ .busy := by
  cases h <;> simp

theorem Goes.responds {point : CommandPoint} {frame : Frame} (h : Goes c point (.answering frame)) :
    Responds frame c := by
  cases h with
  | missing => exact ⟨_, rfl, rfl⟩
  | finished result =>
    cases result with
    | ok response => exact ⟨_, rfl, rfl⟩
    | err message => exact ⟨_, rfl, rfl⟩
    | panic message => exact ⟨_, rfl, rfl⟩

inductive Effect (s : State) (e : Event) (s' : State) : Prop
  | same (commands : s'.commands = s.commands) (responses : ∀ k, responsesTo s' k = responsesTo s k)
    (reader : ∀ k, s'.reader = .answeringBusy k ↔ s.reader = .answeringBusy k)
  | moved (j : Nat) (c : Command) (point : CommandPoint) (at_ : s.commands[j]? = some c)
    (goes : Goes c c.point point) (panics : point = .panicked → e = .invokePanic j)
    (commands : s'.commands = (s.setCommand j point).commands)
    (enqueued : s'.enqueued = s.enqueued) (reader : s'.reader = s.reader)
  | responded (j : Nat) (c : Command) (frame : Frame) (at_ : s.commands[j]? = some c)
    (by_ : s.reader = .answeringBusy j ∧ s'.reader = .idle ∧ Responds frame c ∨
      c.point = .answering frame ∧ s'.reader = s.reader)
    (writes : e = .answerBusy ∨ e = .answer j)
    (commands : s'.commands = (s.answerWith j frame).commands)
    (enqueued : s'.enqueued = (s.answerWith j frame).enqueued)
  | arrived (payload : CmdPayload) (point : CommandPoint)
    (idle : s.reader = .idle) (commands : s'.commands = s.commands ++ [⟨payload, point⟩])
    (enqueued : s'.enqueued = s.enqueued)
    (reader : point = .spawned ∧ s'.reader = .idle ∨
      point = .busy ∧ s'.reader = .answeringBusy s.commands.length)

theorem command_of_point {point : CommandPoint} (h : s.commandPoint? j = some point) :
    ∃ c, s.commands[j]? = some c ∧ c.point = point := by
  unfold State.commandPoint? at h
  obtain ⟨c, hc, hpoint⟩ := Option.map_eq_some_iff.mp h
  exact ⟨c, hc, hpoint⟩

theorem responsesTo_congr (henqueued : s'.enqueued = s.enqueued) (k : Nat) :
    responsesTo s' k = responsesTo s k := by
  unfold responsesTo
  rw [henqueued]

/-- A step of the caller side leaves the commands alone. -/
theorem effect_calm {e : Event} (hcommands : s'.commands = s.commands)
    (henqueued : s'.enqueued = s.enqueued) (hreader : s'.reader = s.reader) : Effect s e s' := by
  refine .same hcommands (responsesTo_congr henqueued) fun k => ?_
  rw [hreader]

theorem effect_refl (s : State) (e : Event) : Effect s e s := effect_calm rfl rfl rfl

theorem effect_moved {e : Event} {point : CommandPoint} (hc : s.commands[j]? = some c)
    (hgoes : Goes c c.point point) (hpoint : point ≠ .panicked) :
    Effect s e (s.setCommand j point) :=
  .moved j c point hc hgoes (fun heq => absurd heq hpoint) rfl rfl rfl

theorem effect_removeEntry (t : State) (id : Nat) : (t.removeEntry id).commands = t.commands ∧
    (t.removeEntry id).enqueued = t.enqueued ∧ (t.removeEntry id).reader = t.reader := by
  unfold State.removeEntry State.dropSender
  split <;> exact ⟨rfl, rfl, rfl⟩

theorem effect_insertEntry (t : State) (id i : Nat) :
    (t.insertEntry id i).commands = t.commands ∧ (t.insertEntry id i).enqueued = t.enqueued ∧
      (t.insertEntry id i).reader = t.reader := by
  unfold State.insertEntry State.dropSender
  split <;> exact ⟨rfl, rfl, rfl⟩

theorem reader_answerWith (frame : Frame) : (s.answerWith j frame).reader = s.reader := by
  unfold State.answerWith
  split <;> rfl

theorem step_effect {e : Event} (he : Enabled s e) : Effect s e (next s e) := by
  cases e with
  | call name params => exact effect_calm rfl rfl rfl
  | register i =>
    simp only [next]
    split
    · exact effect_refl s _
    · obtain ⟨hcommands, henqueued, hreader⟩ := effect_insertEntry s _ i
      exact effect_calm hcommands henqueued hreader
  | send i =>
    simp only [next]
    split
    · exact effect_refl s _
    · split
      · refine .same rfl (fun k => ?_) fun k => Iff.rfl
        simp [responsesTo, State.enqueue, State.setCall]
      · exact effect_calm rfl rfl rfl
  | retract i =>
    simp only [next]
    split
    · exact effect_refl s _
    · obtain ⟨hcommands, henqueued, hreader⟩ := effect_removeEntry s _
      exact effect_calm hcommands henqueued hreader
  | expire i => exact effect_calm rfl rfl rfl
  | remove i =>
    simp only [next]
    split
    · exact effect_refl s _
    · obtain ⟨hcommands, henqueued, hreader⟩ := effect_removeEntry s _
      exact effect_calm hcommands henqueued hreader
  | receive i =>
    simp only [next]
    split
    · exact effect_calm rfl rfl rfl
    · exact effect_calm rfl rfl rfl
    · exact effect_refl s _
  | cmdResponse payload =>
    have hidle : s.reader = .idle := he.1
    simp only [next, handleCmdResponse]
    split
    · exact effect_calm rfl rfl rfl
    · refine .same rfl (fun k => rfl) fun k => ?_
      simp [hidle]
  | deliver =>
    simp only [next]
    split
    · next hreader =>
      refine .same rfl (fun k => rfl) fun k => ?_
      simp [Rpc.deliver, hreader]
    · exact effect_refl s _
  | cmd payload =>
    have hidle : s.reader = .idle := he.1
    simp only [next, dispatchCmd]
    split
    · exact .arrived payload .spawned hidle rfl rfl (Or.inl ⟨rfl, hidle⟩)
    · exact .arrived payload .busy hidle rfl rfl (Or.inr ⟨rfl, rfl⟩)
  | answerBusy =>
    simp only [next]
    split
    · next j hreader =>
      split
      · exact effect_refl s _
      · next c hc =>
        exact .responded j c _ hc (Or.inl ⟨hreader, rfl, _, rfl, rfl⟩) (Or.inl rfl) rfl rfl
    · exact effect_refl s _
  | registerHandler name => exact effect_calm rfl rfl rfl
  | lookup j =>
    obtain ⟨c, hc, hpoint⟩ := command_of_point he
    simp only [next, lookupHandler, hc]
    split
    · exact effect_moved hc (hpoint ▸ .found) (by simp)
    · exact effect_moved hc (hpoint ▸ .missing) (by simp)
  | invoke j =>
    obtain ⟨c, hc, hpoint⟩ := command_of_point he
    exact effect_moved hc (hpoint ▸ .invoked) (by simp)
  | invokePanic j =>
    obtain ⟨c, hc, hpoint⟩ := command_of_point he
    exact .moved j c .panicked hc (hpoint ▸ .panicked) (fun _ => rfl) rfl rfl rfl
  | finish j result =>
    obtain ⟨c, hc, hpoint⟩ := command_of_point he
    simp only [next, hc]
    exact effect_moved hc (hpoint ▸ .finished result) (by simp)
  | answer j =>
    simp only [next]
    split
    · next frame hanswering =>
      obtain ⟨c, hc, hpoint⟩ := command_of_point hanswering
      exact .responded j c frame hc (Or.inr ⟨hpoint, reader_answerWith frame⟩) (Or.inr rfl) rfl rfl
    · exact effect_refl s _
  | write => exact effect_calm rfl rfl rfl
  | writerExit => exact effect_calm rfl rfl rfl

structure Invariant (s : State) : Prop where
  answered : ∀ (j : Nat) (c : Command), s.commands[j]? = some c → c.point = .answered →
    ∃ frame, responsesTo s j = [⟨.command j, frame⟩] ∧ Responds frame c
  unanswered : ∀ (j : Nat) (c : Command), s.commands[j]? = some c → c.point ≠ .answered →
    responsesTo s j = []
  answering : ∀ (j : Nat) (c : Command) (frame : Frame), s.commands[j]? = some c →
    c.point = .answering frame → Responds frame c
  busy : ∀ j, s.reader = .answeringBusy j → ∃ c, s.commands[j]? = some c ∧ c.point = .busy
  owned : ∀ (j : Nat) (c : Command), s.commands[j]? = some c → c.point = .busy →
    s.reader = .answeringBusy j
  fresh : ∀ j, s.commands.length ≤ j → responsesTo s j = []

theorem invariant_initial : Invariant initial := by
  constructor
  all_goals simp [initial, responsesTo]

theorem Invariant.same (h : Invariant s) (hcommands : s'.commands = s.commands)
    (henqueued : ∀ j, responsesTo s' j = responsesTo s j)
    (hreader : ∀ j, s'.reader = .answeringBusy j ↔ s.reader = .answeringBusy j) :
    Invariant s' := by
  refine ⟨?_, ?_, ?_, ?_, ?_, ?_⟩
  · intro j c hc hpoint
    rw [hcommands] at hc
    rw [henqueued]
    exact h.answered j c hc hpoint
  · intro j c hc hpoint
    rw [hcommands] at hc
    rw [henqueued]
    exact h.unanswered j c hc hpoint
  · intro j c frame hc hpoint
    rw [hcommands] at hc
    exact h.answering j c frame hc hpoint
  · intro j hj
    rw [hcommands]
    exact h.busy j ((hreader j).mp hj)
  · intro j c hc hpoint
    rw [hcommands] at hc
    exact (hreader j).mpr (h.owned j c hc hpoint)
  · intro j hj
    rw [hcommands] at hj
    rw [henqueued]
    exact h.fresh j hj

theorem Invariant.moved (h : Invariant s) (hc : s.commands[j]? = some c) {point : CommandPoint}
    (hgoes : Goes c c.point point) (hcommands : s'.commands = (s.setCommand j point).commands)
    (henqueued : s'.enqueued = s.enqueued) (hreader : s'.reader = s.reader) : Invariant s' := by
  obtain ⟨hbefore, hbusy⟩ := hgoes.source
  obtain ⟨hafter, hafterBusy, -⟩ := hgoes.target
  have hget : ∀ (k : Nat) (e : Command), s'.commands[k]? = some e →
      (j = k ∧ e = { c with point }) ∨ (j ≠ k ∧ s.commands[k]? = some e) := by
    intro k e he
    rw [hcommands, commands_setCommand] at he
    obtain ⟨e', he', rfl⟩ := Option.map_eq_some_iff.mp he
    by_cases hk : j = k
    · subst hk
      rw [hc] at he'
      cases he'
      exact Or.inl ⟨rfl, if_pos rfl⟩
    · rw [if_neg hk]
      exact Or.inr ⟨hk, he'⟩
  refine ⟨?_, ?_, ?_, ?_, ?_, ?_⟩
  · intro k e he hpoint
    rw [responsesTo_congr henqueued]
    rcases hget k e he with ⟨rfl, rfl⟩ | ⟨-, he⟩
    · exact absurd hpoint hafter
    · exact h.answered k e he hpoint
  · intro k e he hpoint
    rw [responsesTo_congr henqueued]
    rcases hget k e he with ⟨rfl, rfl⟩ | ⟨-, he⟩
    · exact h.unanswered j c hc hbefore
    · exact h.unanswered k e he hpoint
  · intro k e frame he hpoint
    rcases hget k e he with ⟨rfl, rfl⟩ | ⟨-, he⟩
    · subst hpoint
      exact hgoes.responds
    · exact h.answering k e frame he hpoint
  · intro k hk
    rw [hreader] at hk
    obtain ⟨e, he, hpoint⟩ := h.busy k hk
    have hjk : j ≠ k := by
      rintro rfl
      rw [hc] at he
      cases he
      exact hbusy hpoint
    refine ⟨e, ?_, hpoint⟩
    rw [hcommands, commands_setCommand, he, Option.map_some, if_neg hjk]
  · intro k e he hpoint
    rw [hreader]
    rcases hget k e he with ⟨rfl, rfl⟩ | ⟨-, he⟩
    · exact absurd hpoint hafterBusy
    · exact h.owned k e he hpoint
  · intro k hk
    rw [hcommands, show (s.setCommand j point).commands.length = s.commands.length from
      List.length_modify ..] at hk
    rw [responsesTo_congr henqueued]
    exact h.fresh k hk

theorem responsesTo_enqueue (j k : Nat) (frame : Frame) :
    responsesTo (s.enqueue (.command j) frame) k =
      responsesTo s k ++ if j = k then [⟨.command j, frame⟩] else [] := by
  unfold responsesTo State.enqueue
  rw [List.filter_append]
  by_cases hk : j = k
  · subst hk
    simp
  · simp [hk]

theorem commands_answerWith (frame : Frame) (k : Nat) :
    (s.answerWith j frame).commands[k]? = (s.commands[k]?).map fun e =>
      if j = k then { e with point := if s.channelOpen then .answered else .unsent } else e := by
  unfold State.answerWith
  by_cases hopen : s.channelOpen = true
  · rw [if_pos hopen, if_pos hopen, commands_setCommand]
    rfl
  · rw [if_neg hopen, if_neg hopen, commands_setCommand]

theorem length_answerWith (frame : Frame) :
    (s.answerWith j frame).commands.length = s.commands.length := by
  unfold State.answerWith
  split
  · exact List.length_modify ..
  · exact List.length_modify ..

/-- The last write of a command: one response with its id, or none. -/
theorem Invariant.responded (h : Invariant s) (hc : s.commands[j]? = some c) {frame : Frame}
    (hby : s.reader = .answeringBusy j ∧ s'.reader = .idle ∧ Responds frame c ∨
      c.point = .answering frame ∧ s'.reader = s.reader)
    (hcommands : s'.commands = (s.answerWith j frame).commands)
    (henqueued : s'.enqueued = (s.answerWith j frame).enqueued) : Invariant s' := by
  have hresponds : Responds frame c := by
    rcases hby with ⟨-, -, hresponds⟩ | ⟨hpoint, -⟩
    · exact hresponds
    · exact h.answering j c frame hc hpoint
  have hbefore : c.point ≠ .answered := by
    rcases hby with ⟨hreader, -, -⟩ | ⟨hpoint, -⟩
    · obtain ⟨e, he, hpoint⟩ := h.busy j hreader
      rw [hc] at he
      cases he
      simp [hpoint]
    · simp [hpoint]
  have hbusy : ∀ k, j ≠ k → (s'.reader = .answeringBusy k ↔ s.reader = .answeringBusy k ∧
      s'.reader = s.reader) := by
    intro k hk
    rcases hby with ⟨hreader, hidle, -⟩ | ⟨-, hsame⟩
    · simp [hreader, hidle]
    · rw [hsame]
      exact ⟨fun hr => ⟨hr, rfl⟩, fun hr => hr.1⟩
  have hresponses : ∀ k, responsesTo s' k =
      responsesTo s k ++ if j = k ∧ s.channelOpen = true then [⟨.command j, frame⟩] else [] := by
    intro k
    rw [responsesTo_congr henqueued]
    unfold State.answerWith
    by_cases hopen : s.channelOpen = true
    · rw [if_pos hopen]
      have hsent := responsesTo_enqueue (s := s) j k frame
      simp only [hopen, and_true]
      exact hsent
    · rw [if_neg hopen]
      simp [hopen, State.setCommand, responsesTo]
  have hget : ∀ (k : Nat) (e : Command), s'.commands[k]? = some e →
      (j = k ∧ e = { c with point := if s.channelOpen then .answered else .unsent }) ∨
        (j ≠ k ∧ s.commands[k]? = some e) := by
    intro k e he
    rw [hcommands, commands_answerWith] at he
    obtain ⟨e', he', rfl⟩ := Option.map_eq_some_iff.mp he
    by_cases hk : j = k
    · subst hk
      rw [hc] at he'
      cases he'
      exact Or.inl ⟨rfl, if_pos rfl⟩
    · rw [if_neg hk]
      exact Or.inr ⟨hk, he'⟩
  refine ⟨?_, ?_, ?_, ?_, ?_, ?_⟩
  · intro k e he hpoint
    rcases hget k e he with ⟨rfl, rfl⟩ | ⟨hk, he⟩
    · by_cases hopen : s.channelOpen = true
      · refine ⟨frame, ?_, hresponds⟩
        rw [hresponses, if_pos ⟨rfl, hopen⟩, h.unanswered j c hc hbefore]
        rfl
      · simp [hopen] at hpoint
    · rw [hresponses, if_neg fun hand => hk hand.1, List.append_nil]
      exact h.answered k e he hpoint
  · intro k e he hpoint
    rcases hget k e he with ⟨rfl, rfl⟩ | ⟨hk, he⟩
    · by_cases hopen : s.channelOpen = true
      · simp [hopen] at hpoint
      · rw [hresponses, if_neg fun hand => hopen hand.2, List.append_nil]
        exact h.unanswered j c hc hbefore
    · rw [hresponses, if_neg fun hand => hk hand.1, List.append_nil]
      exact h.unanswered k e he hpoint
  · intro k e f he hpoint
    rcases hget k e he with ⟨rfl, rfl⟩ | ⟨-, he⟩
    · simp only at hpoint
      split at hpoint <;> cases hpoint
    · exact h.answering k e f he hpoint
  · intro k hk
    by_cases hjk : j = k
    · subst hjk
      rcases hby with ⟨-, hidle, -⟩ | ⟨hpoint, hsame⟩
      · rw [hidle] at hk
        cases hk
      · obtain ⟨e, he, hp⟩ := h.busy j (hsame ▸ hk)
        rw [hc] at he
        cases he
        rw [hpoint] at hp
        cases hp
    · obtain ⟨e, he, hpoint⟩ := h.busy k ((hbusy k hjk).mp hk).1
      refine ⟨e, ?_, hpoint⟩
      rw [hcommands, commands_answerWith, he, Option.map_some, if_neg hjk]
  · intro k e he hpoint
    rcases hget k e he with ⟨rfl, rfl⟩ | ⟨hjk, he⟩
    · simp only at hpoint
      split at hpoint <;> cases hpoint
    · have hreader := h.owned k e he hpoint
      rcases hby with ⟨hj, -, -⟩ | ⟨-, hsame⟩
      · rw [hj] at hreader
        cases hreader
        exact absurd rfl hjk
      · rw [hsame]
        exact hreader
  · intro k hk
    rw [hcommands, length_answerWith] at hk
    have hjk : j ≠ k := by
      rintro rfl
      rw [List.getElem?_eq_none hk] at hc
      cases hc
    rw [hresponses, if_neg fun hand => hjk hand.1, List.append_nil]
    exact h.fresh k hk

theorem Invariant.arrived (h : Invariant s) {payload : CmdPayload} {point : CommandPoint}
    (hidle : s.reader = .idle) (hcommands : s'.commands = s.commands ++ [⟨payload, point⟩])
    (henqueued : s'.enqueued = s.enqueued)
    (hreader : point = .spawned ∧ s'.reader = .idle ∨
      point = .busy ∧ s'.reader = .answeringBusy s.commands.length) : Invariant s' := by
  have hget : ∀ (k : Nat) (e : Command), s'.commands[k]? = some e →
      s.commands[k]? = some e ∨ (k = s.commands.length ∧ e = ⟨payload, point⟩) := by
    intro k e he
    rw [hcommands] at he
    by_cases hk : k < s.commands.length
    · rw [List.getElem?_append_left hk] at he
      exact Or.inl he
    · rw [List.getElem?_append_right (by omega)] at he
      obtain ⟨hzero, hlast⟩ := List.getElem?_eq_some_iff.mp he
      simp only [List.length_singleton] at hzero
      refine Or.inr ⟨by omega, ?_⟩
      rw [← hlast]
      simp
  have hpoint : point ≠ .answered ∧ ∀ frame, point ≠ .answering frame := by
    rcases hreader with ⟨rfl, -⟩ | ⟨rfl, -⟩ <;> simp
  refine ⟨?_, ?_, ?_, ?_, ?_, ?_⟩
  · intro k e he hanswered
    rw [responsesTo_congr henqueued]
    rcases hget k e he with he | ⟨rfl, rfl⟩
    · exact h.answered k e he hanswered
    · exact absurd hanswered hpoint.1
  · intro k e he hanswered
    rw [responsesTo_congr henqueued]
    rcases hget k e he with he | ⟨rfl, rfl⟩
    · exact h.unanswered k e he hanswered
    · exact h.fresh _ (Nat.le_refl _)
  · intro k e frame he hp
    rcases hget k e he with he | ⟨rfl, rfl⟩
    · exact h.answering k e frame he hp
    · exact absurd hp (hpoint.2 frame)
  · intro k hk
    rcases hreader with ⟨-, hr⟩ | ⟨rfl, hr⟩
    · rw [hr] at hk
      cases hk
    · rw [hr] at hk
      cases hk
      refine ⟨⟨payload, .busy⟩, ?_, rfl⟩
      rw [hcommands, List.getElem?_append_right (Nat.le_refl _)]
      simp
  · intro k e he hp
    rcases hget k e he with he | ⟨rfl, rfl⟩
    · have howner := h.owned k e he hp
      rw [hidle] at howner
      cases howner
    · rcases hreader with ⟨rfl, -⟩ | ⟨-, hr⟩
      · cases hp
      · exact hr
  · intro k hk
    rw [hcommands, List.length_append, List.length_singleton] at hk
    rw [responsesTo_congr henqueued]
    exact h.fresh k (by omega)

theorem invariant_effect (h : Invariant s) {e : Event} (heffect : Effect s e s') :
    Invariant s' := by
  cases heffect with
  | same hcommands hresponses hreader => exact h.same hcommands hresponses hreader
  | moved j c point hc hgoes _ hcommands henqueued hreader =>
    exact h.moved hc hgoes hcommands henqueued hreader
  | responded j c frame hc hby _ hcommands henqueued =>
    exact h.responded hc hby hcommands henqueued
  | arrived payload point hidle hcommands henqueued hreader =>
    exact h.arrived hidle hcommands henqueued hreader

theorem invariant_reaches {allowed : State → Event → Prop} (h : system.Reaches allowed initial s) :
    Invariant s :=
  system.invariant Invariant (fun _ _ ht _ he => invariant_effect ht (step_effect he)) h
    invariant_initial

/-- No handling has ended without an answer. -/
def NoneLost (s : State) : Prop :=
  ∀ (j : Nat) (c : Command), s.commands[j]? = some c → c.point ≠ .panicked ∧ c.point ≠ .unsent

theorem NoneLost.answered (h : NoneLost s) (hc : s.commands[j]? = some c) (hover : c.over = true) :
    c.point = .answered := by
  obtain ⟨hpanicked, hunsent⟩ := h j c hc
  unfold Command.over at hover
  split at hover
  · assumption
  · next heq => exact absurd heq hunsent
  · next heq => exact absurd heq hpanicked
  · cases hover

theorem Effect.keeps {e : Event} (heffect : Effect s e s') (hc : s.commands[j]? = some c) :
    ∃ d, s'.commands[j]? = some d ∧ d.payload = c.payload ∧ rank d.point ≤ rank c.point := by
  cases heffect with
  | same hcommands =>
    rw [hcommands]
    exact ⟨c, hc, rfl, Nat.le_refl _⟩
  | moved k b point hb hgoes _ hcommands =>
    rw [hcommands, commands_setCommand, hc, Option.map_some]
    refine ⟨_, rfl, ?_⟩
    by_cases hk : k = j
    · subst hk
      obtain rfl := Option.some.inj (hc.symm.trans hb)
      rw [if_pos rfl]
      exact ⟨rfl, Nat.le_of_lt hgoes.rank_lt⟩
    · rw [if_neg hk]
      exact ⟨rfl, Nat.le_refl _⟩
  | responded k b frame hb hby _ hcommands =>
    rw [hcommands, commands_answerWith, hc, Option.map_some]
    refine ⟨_, rfl, ?_⟩
    by_cases hk : k = j
    · rw [if_pos hk]
      refine ⟨rfl, ?_⟩
      simp only
      split <;> exact Nat.zero_le _
    · rw [if_neg hk]
      exact ⟨rfl, Nat.le_refl _⟩
  | arrived payload point hidle hcommands =>
    rw [hcommands, List.getElem?_append_left (List.getElem?_eq_some_iff.mp hc).1]
    exact ⟨c, hc, rfl, Nat.le_refl _⟩

section Progress

/-- What is left to do for the commands and the writer. -/
def remaining (s : State) : Nat :=
  2 * (s.commands.map fun c => rank c.point).sum + s.outbound.length

end Progress

end RpcCommands
