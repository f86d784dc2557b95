import AgsCli.Library.Orbits
import AgsCli.Tunnel.IdGenerator

/-! # Allocating stream ids

Every state of a generator that calls lead to: its counter stays in range, and while an id of its
parity is free a call ends and returns one. -/
namespace StreamIds

open IdGenerator Generator Orbits

structure IsId (parity : IdParity) (id : Nat) : Prop where
  low : (new parity).start ≤ id
  parity : id % 2 = (new parity).start % 2

inductive Reachable (parity : IdParity) : Generator → Prop
  | new : Reachable parity (new parity)
  | call {g g' : Generator} {active : List Nat} {fuel id : Nat} (h : Reachable parity g)
    (hcall : search active fuel g = some (id, g')) : Reachable parity g'

structure Invariant (parity : IdParity) (g : Generator) : Prop where
  start : g.start = (new parity).start
  current : IsId parity g.current
  high : g.current ≤ overflowThreshold + 1

section Rounds

variable {parity : IdParity} {g g' : Generator} {active : List Nat} {id fuel k : Nat}

theorem start_range (parity : IdParity) :
    1 ≤ (new parity).start ∧ (new parity).start ≤ 2 := by
  cases parity <;> decide

theorem invariant_new (parity : IdParity) : Invariant parity (new parity) := by
  cases parity <;> exact ⟨rfl, ⟨by decide, rfl⟩, by decide⟩

theorem candidate_isId (h : Invariant parity g) :
    IsId parity g.candidate ∧ g.candidate < overflowThreshold := by
  have hrange := start_range parity
  unfold candidate
  split_ifs with hover
  · rw [h.start]
    refine ⟨⟨le_rfl, rfl⟩, ?_⟩
    unfold overflowThreshold
    omega
  · exact ⟨h.current, by omega⟩

theorem invariant_advance (h : Invariant parity g) : Invariant parity g.advance := by
  obtain ⟨hid, hlt⟩ := candidate_isId h
  refine ⟨h.start, ⟨?_, ?_⟩, ?_⟩
  · exact Nat.le_trans hid.low (Nat.le_add_right _ 2)
  · change (g.candidate + 2) % 2 = _
    rw [Nat.add_mod_right]
    exact hid.parity
  · change g.candidate + 2 ≤ _
    omega

theorem invariant_iterate (h : Invariant parity g) (k : Nat) :
    Invariant parity (advance^[k] g) := by
  induction k with
  | zero => exact h
  | succ k ih =>
    rw [Function.iterate_succ_apply']
    exact invariant_advance ih

/-- A call is some rounds: all but the last meet an id in use. -/
theorem search_rounds (h : search active fuel g = some (id, g')) : ∃ k,
    id = (advance^[k] g).candidate ∧ g' = advance^[k + 1] g ∧ id ∉ active := by
  induction fuel generalizing g with
  | zero => cases h
  | succ fuel ih =>
    rw [search] at h
    split at h
    · obtain ⟨k, hid, hg, hfree⟩ := ih h
      exact ⟨k + 1, hid, hg, hfree⟩
    · next hfree =>
      simp only [Option.some.injEq, Prod.mk.injEq] at h
      exact ⟨0, h.1.symm, h.2.symm, h.1 ▸ by simpa using hfree⟩

theorem invariant_search (hg : Invariant parity g)
    (h : search active fuel g = some (id, g')) : Invariant parity g' := by
  obtain ⟨k, -, rfl, -⟩ := search_rounds h
  exact invariant_iterate hg (k + 1)

theorem reachable_invariant (h : Reachable parity g) : Invariant parity g := by
  induction h with
  | new => exact invariant_new parity
  | call _ hcall ih => exact invariant_search ih hcall

end Rounds

section Search

variable {parity : IdParity} {g : Generator} {active : List Nat} {c f fuel k : Nat}

def following (start c : Nat) : Nat := if overflowThreshold ≤ c + 2 then start else c + 2

theorem following_up (start : Nat) (h : c + 2 * k < overflowThreshold) :
    (following start)^[k] c = c + 2 * k := by
  induction k with
  | zero => rfl
  | succ k ih =>
    rw [Function.iterate_succ_apply', ih (by omega), following, if_neg (by omega)]
    omega

theorem following_wraps (start : Nat) (h : c < overflowThreshold) :
    ∃ k, (following start)^[k] c = start := by
  obtain ⟨k, hk⟩ : ∃ k, k = (overflowThreshold - 1 - c) / 2 := ⟨_, rfl⟩
  refine ⟨k + 1, ?_⟩
  rw [Function.iterate_succ_apply', following_up start (by omega), following, if_pos (by omega)]

/-- From any candidate the search comes to every id of the parity. -/
theorem following_reaches (hc : IsId parity c) (hclt : c < overflowThreshold)
    (hf : IsId parity f) (hflt : f < overflowThreshold) :
    ∃ k, (following (new parity).start)^[k] c = f := by
  have hparity := hc.parity.trans hf.parity.symm
  by_cases hle : c ≤ f
  · refine ⟨(f - c) / 2, ?_⟩
    rw [following_up _ (by omega)]
    omega
  · obtain ⟨k, hk⟩ := following_wraps (new parity).start hclt
    have hlow := hf.low
    have hstart := hf.parity
    refine ⟨(f - (new parity).start) / 2 + k, ?_⟩
    rw [Function.iterate_add_apply, hk, following_up _ (by omega)]
    omega

theorem search_of_leaves (h : Leaves (following g.start) g.candidate active k)
    (hfuel : k < fuel) :
    search active fuel g = some ((advance^[k] g).candidate, advance^[k + 1] g) := by
  induction k generalizing g fuel with
  | zero =>
    obtain ⟨fuel, rfl⟩ := Nat.exists_eq_succ_of_ne_zero (Nat.ne_of_gt hfuel)
    have hfree : active.contains g.candidate = false := by simpa using h.outside
    rw [search, hfree]
    rfl
  | succ k ih =>
    obtain ⟨fuel, rfl⟩ := Nat.exists_eq_succ_of_ne_zero (Nat.ne_of_gt (Nat.zero_lt_of_lt hfuel))
    have hused : active.contains g.candidate = true := by
      simpa using h.inside 0 (Nat.succ_pos k)
    rw [search, if_pos hused]
    refine ih ⟨h.outside, fun j hj => h.inside (j + 1) (by omega)⟩ (by omega)

/-- A free id below the threshold ends the search. -/
theorem next_isSome (hg : Invariant parity g)
    (hfree : ∃ f, IsId parity f ∧ f < overflowThreshold ∧ f ∉ active) :
    ∃ id g', g.next active = some (id, g') := by
  obtain ⟨f, hf, hflt, hmem⟩ := hfree
  obtain ⟨hid, hlt⟩ := candidate_isId hg
  obtain ⟨k, hk⟩ := following_reaches hid hlt hf hflt
  obtain ⟨n, hleaves⟩ := exists_leaves (f := following g.start) (a := g.candidate) (l := active)
    ⟨k, by rwa [hg.start, hk]⟩
  exact ⟨_, _, search_of_leaves hleaves (Nat.lt_succ_of_le hleaves.le_length)⟩

end Search

theorem search_isId {parity : IdParity} {g g' : Generator} {active : List Nat} {fuel id : Nat}
    (hg : Reachable parity g) (h : search active fuel g = some (id, g')) : IsId parity id := by
  obtain ⟨k, rfl, -, -⟩ := search_rounds h
  exact (candidate_isId (invariant_iterate (reachable_invariant hg) k)).1

/-- In every reachable state: no round overflows the counter, a call with a free id returns a
new id of the parity, and the two parities share none. -/
theorem stream_ids :
    (∀ (parity : IdParity) (g : Generator), Reachable parity g →
      (∀ k, (advance^[k] g).candidate + 2 < 2 ^ 64 ∧ (advance^[k] g).current < 2 ^ 64) ∧
      ∀ active : List Nat,
        (∃ f, IsId parity f ∧ f < overflowThreshold ∧ f ∉ active) →
        ∃ id g', g.next active = some (id, g') ∧ id ≠ 0 ∧
          id % 2 = (new parity).start % 2 ∧ id ∉ active) ∧
    ∀ (g h g' h' : Generator) (active active' : List Nat) (fuel fuel' id id' : Nat),
      Reachable .odd g → Reachable .even h → search active fuel g = some (id, g') →
      search active' fuel' h = some (id', h') → id ≠ id' := by
  refine ⟨fun parity g hg => ⟨fun k => ?_, fun active hfree => ?_⟩,
    fun g h g' h' active active' fuel fuel' id id' hg hh hid hid' heq => ?_⟩
  · have hround := invariant_iterate (reachable_invariant hg) k
    have hlt := (candidate_isId hround).2
    have hhigh := hround.high
    unfold overflowThreshold at hlt hhigh
    omega
  · obtain ⟨id, g', hnext⟩ := next_isSome (reachable_invariant hg) hfree
    have hid := search_isId hg hnext
    have hlow := Nat.le_trans (start_range parity).1 hid.low
    exact ⟨id, g', hnext, by omega, hid.parity, next_not_active hnext⟩
  · have hodd : id % 2 = 1 := (search_isId hg hid).parity
    have heven : id' % 2 = 0 := (search_isId hh hid').parity
    omega

theorem stream_ids_third :
    (∃ id g', (new .odd).next [1, 3] = some (id, g') ∧ id ≠ 0 ∧
      id % 2 = (new .odd).start % 2 ∧ id ∉ [1, 3]) ∧ (1 : Nat) ≠ 2 :=
  ⟨(stream_ids.1 .odd (new .odd) .new).2 [1, 3] ⟨5, ⟨by decide, rfl⟩, by decide, by decide⟩,
    stream_ids.2 (new .odd) (new .even) ⟨3, 1⟩ ⟨4, 2⟩ [] [] 1 1 1 2 .new .new rfl rfl⟩

end StreamIds
