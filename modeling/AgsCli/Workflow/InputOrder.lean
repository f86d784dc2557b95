import AgsCli.Library.PullUp
import AgsCli.Workflow.RunInputs

/-! # Order of the run-start form

The form lists its inputs by first use, an input that a picker reads no later than the picker.
One pass pulls the read inputs up; the order is right exactly when that pass suffices. -/
namespace InputOrder

open OrderedMap Json WorkflowTypes RunInputs PullUp

/-- The picker of `p` reads `d`. -/
def reads (p d : WorkflowInputSpec) : Prop :=
  ∃ source, p.optionsSource = some source ∧ d.name ∈ pickerDependencies source

instance : DecidableRel reads := fun p d =>
  match h : p.optionsSource with
  | some source => decidable_of_iff (d.name ∈ pickerDependencies source) (by simp [reads, h])
  | none => isFalse (by simp [reads, h])

def use (steps : List CompiledStep) (spec : WorkflowInputSpec) : Nat := firstUse steps spec.name

section Keys

theorem get?_pullUp {deps : List String} {slot : Nat} (key : BTreeMap String Nat) (name : String) :
    (deps.foldl (pullUp slot) key).get? name =
      if name ∈ deps then (key.get? name).map (min · slot) else key.get? name := by
  induction deps generalizing key with
  | nil => rfl
  | cons dep rest ih =>
    have hone : (pullUp slot key dep).get? name =
        if name = dep then (key.get? name).map (min · slot) else key.get? name := by
      rw [pullUp]
      cases hdep : key.get? dep with
      | none =>
        split_ifs with heq
        · rw [heq, hdep]
          rfl
        · rfl
      | some n =>
        by_cases heq : name = dep
        · rw [if_pos heq, heq, hdep]
          exact BTreeMap.get?_insert_self key dep _
        · rw [if_neg heq]
          exact BTreeMap.get?_insert_of_ne key heq _
    rw [List.foldl_cons, ih, hone]
    by_cases heq : name = dep
    · rw [if_pos heq, if_pos (List.mem_cons.mpr (Or.inl heq))]
      split_ifs
      · rw [Option.map_map]
        congr 1
        funext n
        exact Nat.min_eq_left (Nat.min_le_right n slot)
      · rfl
    · rw [if_neg heq]
      by_cases hrest : name ∈ rest
      · rw [if_pos hrest, if_pos (List.mem_cons_of_mem dep hrest)]
      · rw [if_neg hrest, if_neg (List.not_mem_cons_of_ne_of_not_mem heq hrest)]

/-- The map of names holds the keys of the specs. -/
def Holds (inputs : List WorkflowInputSpec) (names : BTreeMap String Nat)
    (key : WorkflowInputSpec → Nat) : Prop :=
  ∀ spec ∈ inputs, names.get? spec.name = some (key spec)

theorem holds_pull {inputs : List WorkflowInputSpec} {names : BTreeMap String Nat}
    {key : WorkflowInputSpec → Nat} {p : WorkflowInputSpec} (hp : p ∈ inputs)
    (h : Holds inputs names key) : Holds inputs (pullDependencies names p) (pull reads key p) := by
  intro spec hspec
  rw [pullDependencies, pull]
  cases hsource : p.optionsSource with
  | none =>
    rw [if_neg (by simp [reads, hsource])]
    exact h spec hspec
  | some source =>
    have hreads : reads p spec ↔ spec.name ∈ pickerDependencies source := by
      simp [reads, hsource]
    simp only [get?_pullUp, h p hp, Option.getD_some, h spec hspec, Option.map_some]
    by_cases hmem : spec.name ∈ pickerDependencies source
    · rw [if_pos hmem, if_pos (hreads.mpr hmem)]
    · rw [if_neg hmem, if_neg fun hread => hmem (hreads.mp hread)]

theorem holds_fold {inputs rest : List WorkflowInputSpec} (hrest : rest ⊆ inputs)
    {names : BTreeMap String Nat} {key : WorkflowInputSpec → Nat} (h : Holds inputs names key) :
    Holds inputs (rest.foldl pullDependencies names) (rest.foldl (pull reads) key) := by
  induction rest generalizing names key with
  | nil => exact h
  | cons p rest ih =>
    exact ih (fun spec hspec => hrest (List.mem_cons_of_mem p hspec))
      (holds_pull (hrest List.mem_cons_self) h)

theorem holds_firstUse (inputs : List WorkflowInputSpec) (steps : List CompiledStep) :
    Holds inputs (.ofList (inputs.map fun s => (s.name, firstUse steps s.name))) (use steps) := by
  intro spec hspec
  have hgraph := BTreeMap.get?_ofList_graph inputs (·.name)
    (fun name => some (firstUse steps name)) hspec
  rw [← List.filterMap_eq_map]
  exact hgraph

/-- The form's order is the sort by the pulled keys. -/
theorem orderInputsByFirstUse_eq (inputs : List WorkflowInputSpec) (steps : List CompiledStep) :
    orderInputsByFirstUse inputs steps = sortByKey (keys reads (use steps) inputs) inputs := by
  have hkeys := holds_fold (List.Subset.refl inputs) (holds_firstUse inputs steps)
  unfold orderInputsByFirstUse
  extract_lets firstUses key indexed
  have hindexed : indexed = inputs.map fun s => (keys reads (use steps) inputs s, s) := by
    refine List.map_congr_left fun s hs => ?_
    have hget : key.get? s.name = some (keys reads (use steps) inputs s) := hkeys s hs
    rw [hget]
    rfl
  have hsort := List.map_insertionSort
    (fun a b => keys reads (use steps) inputs a ≤ keys reads (use steps) inputs b)
    (fun a b : Nat × WorkflowInputSpec => a.1 ≤ b.1)
    (fun s => (keys reads (use steps) inputs s, s)) inputs fun _ _ _ _ => Iff.rfl
  rw [hindexed, ← hsort, List.map_map]
  exact List.map_id _

end Keys

/-- The inputs come in order, and what a picker reads before it, exactly where the pass suffices. -/
theorem order_inputs_iff (inputs : List WorkflowInputSpec) (steps : List CompiledStep)
    (hnames : (inputs.map (·.name)).Nodup) :
    Ordered reads (use steps) inputs (orderInputsByFirstUse inputs steps) ↔
      PullsSuffice reads (use steps) inputs := by
  rw [orderInputsByFirstUse_eq]
  exact ordered_iff (List.Nodup.of_map _ hnames)

/-- An input whose picker, if it has one, reads the input named. -/
def askedInput (name : String) (picks : Option String) : WorkflowInputSpec where
  name := name
  description := none
  schema := none
  required := true
  default := none
  sensitive := false
  optionsSource := picks.map fun dep =>
    { operation := ⟨"iam", "search"⟩, parameters := [("query", .fromInput dep)]
      itemsPath := "$.data", value := "$.id", label := none, labelDetail := none
      fallbackDescription := none, filter := none }
  filePicker := none
  location := .body

def bindingStep (names : List String) : CompiledStep where
  id := "s"
  index := 0
  description := none
  kind := .api
  action := none
  operation := none
  dependencies := []
  confirm := false
  isOptional := false
  continueOnFailure := false
  skipIfExists := false
  isReviewed := none
  inputs := names.map fun name =>
    { field := name, source := .reference ⟨.workflow name, none, none⟩, description := none
      showInReview := false }
  outputs := []
  autoDerived := []

/-- A search text and the picker that reads it, which a step uses. -/
def searched : List WorkflowInputSpec := [askedInput "query" none, askedInput "user" (some "query")]

theorem searched_reads {p d : WorkflowInputSpec} (h : ReadsIn reads searched p d) :
    p = askedInput "user" (some "query") ∧ d = askedInput "query" none := by
  obtain ⟨hp, hd, hreads⟩ := h
  have hall : ∀ p ∈ searched, ∀ d ∈ searched, reads p d →
      p = askedInput "user" (some "query") ∧ d = askedInput "query" none := by decide
  exact hall p hp d hd hreads

theorem searched_needs {p d : WorkflowInputSpec} (h : Needs reads searched p d) :
    p = askedInput "user" (some "query") ∧ d = askedInput "query" none := by
  induction h with
  | single h => exact searched_reads h
  | tail _ h ih =>
    have hmiddle := (searched_reads h).1
    rw [ih.2] at hmiddle
    exact absurd hmiddle (by decide)

/-- The search text is asked for first, though no step uses it. -/
theorem order_inputs_searched : Ordered reads (use [bindingStep ["user"]]) searched
    (orderInputsByFirstUse searched [bindingStep ["user"]]) := by
  refine (order_inputs_iff searched [bindingStep ["user"]] (by decide)).mpr ⟨?_, ?_⟩
  · intro i x hneeds
    obtain ⟨rfl, rfl⟩ := searched_needs hneeds
    exact ⟨_, Or.inr ⟨_, by decide, .own _, by decide⟩, Nat.le_refl _⟩
  · intro p d hread hbefore
    obtain ⟨rfl, rfl⟩ := searched_reads hread
    exact absurd (List.Sublist.refl searched) hbefore

/-- A picker declared before the picker that needs it pulls nothing up; one declared before what it
reads, in the same step, stays before it. -/
theorem chained_pickers_unordered :
    (¬Ordered reads (use [bindingStep ["a"]])
        [askedInput "b" (some "c"), askedInput "a" (some "b"), askedInput "c" none]
        (orderInputsByFirstUse
          [askedInput "b" (some "c"), askedInput "a" (some "b"), askedInput "c" none]
          [bindingStep ["a"]])) ∧
    ¬Ordered reads (use [bindingStep ["user", "query"]])
        [askedInput "user" (some "query"), askedInput "query" none]
        (orderInputsByFirstUse [askedInput "user" (some "query"), askedInput "query" none]
          [bindingStep ["user", "query"]]) := by
  have hnames : ∀ {result : List WorkflowInputSpec} {p d : WorkflowInputSpec},
      Before result d p → Before (result.map (·.name)) d.name p.name := by
    intro result p d h
    exact h.map (·.name)
  constructor
  · intro h
    have hbefore := hnames (h.needed (askedInput "b" (some "c")) (askedInput "c" none)
      (.single ⟨by decide, by decide, by decide⟩))
    have horder : (orderInputsByFirstUse
        [askedInput "b" (some "c"), askedInput "a" (some "b"), askedInput "c" none]
        [bindingStep ["a"]]).map (·.name) = ["b", "a", "c"] := by decide
    rw [horder] at hbefore
    exact absurd hbefore (by unfold Before; decide)
  · intro h
    have hbefore := hnames (h.needed (askedInput "user" (some "query")) (askedInput "query" none)
      (.single ⟨by decide, by decide, by decide⟩))
    have horder : (orderInputsByFirstUse
        [askedInput "user" (some "query"), askedInput "query" none]
        [bindingStep ["user", "query"]]).map (·.name) = ["user", "query"] := by decide
    rw [horder] at hbefore
    exact absurd hbefore (by unfold Before; decide)

end InputOrder
