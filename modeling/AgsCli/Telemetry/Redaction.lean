import AgsCli.Telemetry.ArgumentRoles
import Mathlib.Data.List.TakeWhile
import Mathlib.Data.Set.Finite.List

/-! # Redaction of argument values

Two argument vectors that the parser reads alike are recorded alike exactly when the scan consumes
every value that may look like a flag. -/
namespace Redaction

open FlagCapture ArgumentRoles OrderedMap

section Tokens

theorem namePart_append {s : List Char} (h : '=' ∉ s) (t : List Char) :
    namePart (s ++ '=' :: t) = s := by
  induction s with
  | nil => rfl
  | cons c rest ih =>
    have hc : c ≠ '=' := fun heq => h (heq ▸ List.mem_cons_self)
    rw [namePart, List.cons_append, List.takeWhile_cons, if_pos (by simpa using hc)]
    exact congrArg (c :: ·) (ih fun hmem => h (List.mem_cons_of_mem c hmem))

theorem namePart_self {s : List Char} (h : '=' ∉ s) : namePart s = s := by
  rw [namePart, List.takeWhile_eq_self_iff]
  intro c hc
  rw [decide_eq_true_eq]
  rintro rfl
  exact h hc

/-- What stands behind `=` does not change whether a token looks like a flag. -/
theorem looksLikeFlag_inline {flag : String} (h : '=' ∉ flag.toList) (v : String) :
    looksLikeFlag (flag ++ "=" ++ v) = looksLikeFlag flag := by
  have htoken : (flag ++ "=" ++ v).toList = flag.toList ++ '=' :: v.toList := by
    simp [String.toList_append]
  rw [looksLikeFlag, looksLikeFlag, htoken]
  rcases hflag : flag.toList with _ | ⟨a, _ | ⟨b, rest⟩⟩
  · rfl
  · by_cases ha : a = '-'
    · subst ha
      rfl
    · simp [ha]
  · rw [hflag] at h
    by_cases ha : a = '-'
    · subst ha
      have hb : '=' ∉ b :: rest := fun hmem => h (List.mem_cons_of_mem _ hmem)
      have hrest : '=' ∉ rest := fun hmem => hb (List.mem_cons_of_mem _ hmem)
      by_cases hdash : b = '-'
      · subst hdash
        simp only [List.cons_append, namePart_append hrest, namePart_self hrest]
      · have hname := namePart_append hb v.toList
        simp only [List.cons_append] at hname
        simp [hdash, hname, namePart_self hb]
    · simp [ha]

theorem splitInline_inline {flag : String} (h : '=' ∉ flag.toList) (v : String) :
    splitInline (flag ++ "=" ++ v) = (flag, some v) := by
  have htoken : (flag ++ "=" ++ v).toList = flag.toList ++ '=' :: v.toList := by
    simp [String.toList_append]
  have hdrop : (flag.toList ++ '=' :: v.toList).dropWhile (· ≠ '=') = '=' :: v.toList := by
    rw [List.dropWhile_append_of_pos]
    · rfl
    · intro c hc
      rw [decide_eq_true_eq]
      rintro rfl
      exact h hc
  simp only [splitInline, htoken, hdrop, namePart_append h, String.ofList_toList]

theorem looksLikeFlag_attached {flags v : String} (h : (Role.attached flags).Sound)
    (hv : (Role.attached flags).Accepts v) : looksLikeFlag (flags ++ v) = false := by
  obtain ⟨c, cs, hflags, hdash, hequals⟩ := h
  obtain ⟨hne, hhead⟩ := hv
  have hc : c ≠ '=' := fun heq => hequals (heq ▸ List.mem_cons_self)
  obtain ⟨d, rest, hrest, hd⟩ : ∃ d rest, cs ++ v.toList = d :: rest ∧ d ≠ '=' := by
    cases cs with
    | nil =>
      cases hchars : v.toList with
      | nil => exact absurd (String.toList_eq_nil_iff.mp hchars) hne
      | cons d rest =>
        refine ⟨d, rest, rfl, fun heq => hhead ?_⟩
        rw [hchars, heq]
        rfl
    | cons d cs =>
      exact ⟨d, cs ++ v.toList, rfl, fun heq => hequals (heq ▸ by simp)⟩
  have htoken : (flags ++ v).toList = '-' :: c :: d :: rest := by
    rw [String.toList_append, hflags, List.cons_append, List.cons_append, hrest]
  have hname : namePart (c :: d :: rest) = c :: d :: namePart rest := by
    simp [namePart, hc, hd]
  simp [looksLikeFlag, htoken, hdash, hname]

end Tokens

section Scan

def scanToken : Capture × Option String → String → Capture × Option String
  | (c, some name), token => (c.valued name token, none)
  | (c, none), token =>
    if looksLikeFlag token then
      match (splitInline token).2 with
      | some value =>
        ((c.named (splitInline token).1).valued (splitInline token).1 value, none)
      | none => (c.named (splitInline token).1,
          if booleanFlags.contains (splitInline token).1 then none else some (splitInline token).1)
    else (c, none)

theorem extractFrom_eq (c : Capture) (argv : List String) :
    extractFrom c argv = (argv.foldl scanToken (c, none)).1 := by
  fun_induction extractFrom c argv with
  | case1 c => rfl
  | case2 c token rest hflag name value hvalue ih =>
    rw [ih, List.foldl_cons, scanToken, if_pos hflag]
    simp only [hvalue]
    rfl
  | case3 c token rest hflag name hvalue hboolean ih =>
    rw [ih, List.foldl_cons, scanToken, if_pos hflag]
    simp only [hvalue]
    rw [if_pos hboolean]
  | case4 c token hflag name hvalue hboolean =>
    rw [List.foldl_cons, scanToken, if_pos hflag]
    simp only [hvalue]
    rfl
  | case5 c token hflag name hvalue hboolean next rest ih =>
    rw [ih, List.foldl_cons, List.foldl_cons, scanToken, if_pos hflag]
    simp only [hvalue]
    rw [if_neg hboolean]
    rfl
  | case6 c token rest hflag ih =>
    rw [ih, List.foldl_cons, scanToken, if_neg hflag]

/-- A value that may look like a flag. -/
def isOpen : Role → Bool
  | .value .any => true
  | _ => false

def takesNext : Role → Bool
  | .word s => looksLikeFlag s && (splitInline s).2.isNone && !booleanFlags.contains s
  | _ => false

/-- Every value that may look like a flag stands where the scan gives it to a flag. -/
def ConsumedFrom : Bool → List Role → Prop
  | _, [] => True
  | taken, role :: rest =>
    (taken = true ∨ isOpen role = false) ∧ ConsumedFrom (!taken && takesNext role) rest

def Consumed (roles : List Role) : Prop := ConsumedFrom false roles

theorem splitInline_self {token : String} (h : (splitInline token).2 = none) :
    (splitInline token).1 = token := by
  rw [splitInline] at h ⊢
  split at h
  · rfl
  · cases h

theorem scanToken_plain {token : String} (h : looksLikeFlag token = false) (c : Capture) :
    scanToken (c, none) token = (c, none) := by
  rw [scanToken, h, if_neg Bool.false_ne_true]

theorem valued_redacted {name : String} (h : name ∉ valueSafeFlags) (c : Capture)
    (v w : String) : c.valued name v = c.valued name w := by
  have hnot : ¬valueSafeFlags.contains name = true := by simpa using h
  rw [Capture.valued, Capture.valued, recorded, recorded, if_neg hnot, if_neg hnot]

theorem scanToken_inline {flag : String} (h : '=' ∉ flag.toList) (c : Capture) (v : String) :
    scanToken (c, none) (flag ++ "=" ++ v) =
      if looksLikeFlag flag then ((c.named flag).valued flag v, none) else (c, none) := by
  rw [scanToken, looksLikeFlag_inline h, splitInline_inline h]

/-- A token of a role that is not open is scanned the same, whatever its value. -/
theorem scanToken_alike {role : Role} {v w : String} (hsound : role.Sound)
    (hopen : isOpen role = false) (hv : role.Accepts v) (hw : role.Accepts w) (c : Capture) :
    scanToken (c, none) (role.token v) = scanToken (c, none) (role.token w) := by
  cases role with
  | word s => rfl
  | inline flag =>
    rw [Role.token, Role.token, scanToken_inline hsound.2.1, scanToken_inline hsound.2.1,
      valued_redacted hsound.2.2]
  | attached flags =>
    have hv' : looksLikeFlag ((Role.attached flags).token v) = false :=
      looksLikeFlag_attached hsound hv
    have hw' : looksLikeFlag ((Role.attached flags).token w) = false :=
      looksLikeFlag_attached hsound hw
    rw [scanToken_plain hv', scanToken_plain hw']
  | value domain =>
    cases domain with
    | any => cases hopen
    | checked k =>
      have hv' : looksLikeFlag ((Role.value (.checked k)).token v) = false := k.plain v hv
      have hw' : looksLikeFlag ((Role.value (.checked k)).token w) = false := k.plain w hw
      rw [scanToken_plain hv', scanToken_plain hw']

/-- The flag that waits for a value is the word that takes the next token. -/
theorem scanToken_waits {role : Role} {v : String} (hsound : role.Sound)
    (hopen : isOpen role = false) (hv : role.Accepts v) (c : Capture) :
    (scanToken (c, none) (role.token v)).2.isSome = takesNext role ∧
      ∀ name, (scanToken (c, none) (role.token v)).2 = some name → role = .word name := by
  have hplain : looksLikeFlag (role.token v) = false → takesNext role = false →
      (scanToken (c, none) (role.token v)).2.isSome = takesNext role ∧
        ∀ name, (scanToken (c, none) (role.token v)).2 = some name → role = .word name := by
    intro hflag htakes
    rw [scanToken_plain hflag, htakes]
    exact ⟨rfl, fun name h => by cases h⟩
  cases role with
  | word s =>
    by_cases hflag : looksLikeFlag s = true
    · rw [Role.token, scanToken, if_pos hflag, takesNext, hflag]
      cases hvalue : (splitInline s).2 with
      | some value => exact ⟨rfl, fun name h => by cases h⟩
      | none =>
        rw [splitInline_self hvalue]
        by_cases hboolean : booleanFlags.contains s = true
        · simp only [if_pos hboolean]
          rw [hboolean]
          exact ⟨rfl, fun name h => by cases h⟩
        · simp only [if_neg hboolean]
          rw [Bool.not_eq_true] at hboolean
          rw [hboolean]
          exact ⟨rfl, fun name h => congrArg Role.word (Option.some.inj h)⟩
    · rw [Bool.not_eq_true] at hflag
      exact hplain hflag (by rw [takesNext, hflag]; rfl)
  | inline flag =>
    rw [Role.token, scanToken_inline hsound.2.1]
    split_ifs
    · exact ⟨rfl, fun name h => by cases h⟩
    · exact ⟨rfl, fun name h => by cases h⟩
  | attached flags => exact hplain (looksLikeFlag_attached hsound hv) rfl
  | value domain =>
    cases domain with
    | any => cases hopen
    | checked k => exact hplain (k.plain v hv) rfl

/-- Where every open value is consumed, all values are scanned alike. -/
theorem scan_alike {roles : List Role} (hsound : Sound roles) {waiting : Option String}
    (hnext : ∀ name, waiting = some name → name ∈ valueSafeFlags → ∀ role,
      roles.head? = some role → ∃ s, role = .word s)
    (hconsumed : ConsumedFrom waiting.isSome roles) {vs ws : List String} (hvs : Fills roles vs)
    (hws : Fills roles ws) (c : Capture) :
    (tokens roles vs).foldl scanToken (c, waiting) =
      (tokens roles ws).foldl scanToken (c, waiting) := by
  induction roles generalizing waiting vs ws c with
  | nil => rfl
  | cons role rest ih =>
    cases vs with
    | nil => cases hvs
    | cons v vs =>
      cases ws with
      | nil => cases hws
      | cons w ws =>
        obtain ⟨hv, hvs⟩ := hvs
        obtain ⟨hw, hws⟩ := hws
        obtain ⟨hopen, hconsumed⟩ := hconsumed
        have hrest : Sound rest :=
          ⟨fun r hr => hsound.each r (List.mem_cons_of_mem role hr), hsound.follows.tail⟩
        have hrole := hsound.each role List.mem_cons_self
        rw [tokens, tokens, List.foldl_cons, List.foldl_cons]
        cases waiting with
        | some name =>
          have hstep : scanToken (c, some name) (role.token v) =
              scanToken (c, some name) (role.token w) := by
            by_cases hsafe : name ∈ valueSafeFlags
            · obtain ⟨s, rfl⟩ := hnext name rfl hsafe role rfl
              rfl
            · rw [scanToken, scanToken, valued_redacted hsafe]
          have htaken : ConsumedFrom (none : Option String).isSome rest := hconsumed
          rw [hstep, scanToken]
          exact ih hrest (fun name h => by cases h) htaken hvs hws _
        | none =>
          have hclosed := hopen.resolve_left Bool.false_ne_true
          obtain ⟨hwaits, hword⟩ := scanToken_waits hrole hclosed hw c
          rw [scanToken_alike hrole hclosed hv hw]
          generalize scanToken (c, none) (role.token w) = after at hwaits hword
          refine ih hrest ?_ ?_ hvs hws after.1
          · intro name hname hsafe next hhead
            obtain rfl := hword name hname
            cases rest with
            | nil => cases hhead
            | cons r rest =>
              obtain rfl := Option.some.inj hhead
              exact (List.isChain_cons_cons.mp hsound.follows).1 name rfl hsafe
          · rw [hwaits]
            exact hconsumed

end Scan

section Routing

variable {cmd : Command} (shape : Shape cmd)

theorem tokens_words (words : List String) {roles : List Role} {vs : List String}
    (h : Fills (words.map .word ++ roles) vs) : ∃ ws, Fills roles ws ∧
      tokens (words.map .word ++ roles) vs = words ++ tokens roles ws := by
  induction words generalizing vs with
  | nil => exact ⟨vs, h, rfl⟩
  | cons w rest ih =>
    cases vs with
    | nil => cases h
    | cons v vs =>
      obtain ⟨-, hrest⟩ := h
      obtain ⟨ws, hws, htokens⟩ := ih hrest
      exact ⟨ws, hws, congrArg (w :: ·) htokens⟩

theorem dashed_token {role : Role} {v : String} (hsound : role.Sound) (h : role.dashed = true) :
    startsWithDash (role.token v) = true := by
  cases role with
  | word s => exact h
  | inline flag => exact startsWithDash_append (startsWithDash_append hsound.1 "=") v
  | attached flags =>
    obtain ⟨c, cs, hflags, -⟩ := hsound
    rw [startsWithDash, decide_eq_true_eq, Role.token, String.toList_append, hflags]
    rfl
  | value domain => cases h

theorem takeWhile_tokens {roles : List Role} (hsound : Sound roles)
    (hdashed : ∀ role, roles.head? = some role → role.dashed = true) (vs : List String) :
    (tokens roles vs).takeWhile (fun token => !startsWithDash token) = [] := by
  cases roles with
  | nil => rfl
  | cons role rest =>
    cases vs with
    | nil => rfl
    | cons v vs =>
      have hdash := dashed_token (v := v) (hsound.each role List.mem_cons_self) (hdashed role rfl)
      rw [tokens, List.takeWhile_cons, hdash]
      rfl

/-- No positional stands among the tokens of which the command path is made. -/
def Routed : Prop :=
  maxRoutingDepth cmd.words ≤ cmd.words.length ∨
    ∀ role, shape.roles.head? = some role → role.dashed = true

theorem maxRoutingDepth_append {words : List String} (hne : words ≠ []) (rest : List String) :
    maxRoutingDepth (words ++ rest) = maxRoutingDepth words := by
  obtain ⟨first, others, rfl⟩ := List.exists_cons_of_ne_nil hne
  rfl

theorem takeWhile_words (rest : List String) :
    (cmd.words ++ rest).takeWhile (fun token => !startsWithDash token) =
      cmd.words ++ rest.takeWhile fun token => !startsWithDash token := by
  apply List.takeWhile_append_of_pos
  intro w hw
  rw [cmd.undashed w hw]
  rfl

theorem routingNames_eq (hrouted : Routed shape) {vs : List String}
    (h : Fills shape.all vs) :
    routingNames (tokens shape.all vs) = cmd.words.take (maxRoutingDepth cmd.words) := by
  obtain ⟨ws, -, htokens⟩ := tokens_words cmd.words h
  have hsound := sound_of_reads shape.reads
  rw [Shape.all, htokens, routingNames, takeWhile_words]
  by_cases hempty : cmd.words = []
  · rw [takeWhile_tokens hsound (shape.rooted hempty), hempty, List.append_nil, List.take_nil,
      List.take_nil]
  · rw [maxRoutingDepth_append hempty]
    rcases hrouted with hle | hdashed
    · exact List.take_append_of_le_length hle
    · rw [takeWhile_tokens hsound hdashed, List.append_nil]

theorem fills_words (words : List String) {roles : List Role} {vs : List String}
    (h : Fills roles vs) : Fills (words.map .word ++ roles) (words.map (fun _ => "") ++ vs) ∧
      tokens (words.map .word ++ roles) (words.map (fun _ => "") ++ vs) =
        words ++ tokens roles vs := by
  induction words with
  | nil => exact ⟨h, rfl⟩
  | cons w rest ih => exact ⟨⟨rfl, ih.1⟩, congrArg (w :: ·) ih.2⟩

/-- Joined names tell which one stands behind the words. -/
theorem join_middle_inj (words : List String) {v w : String} (rest : List String)
    (h : Strings.join " " (words ++ v :: rest) = Strings.join " " (words ++ w :: rest)) : v = w := by
  induction words with
  | nil =>
    cases rest with
    | nil => exact h
    | cons t rest =>
      have hcancel := (String.append_left_inj _).mp h
      exact (String.append_left_inj " ").mp hcancel
  | cons s words ih =>
    apply ih
    cases words with
    | nil => exact (String.append_right_inj (s ++ " ")).mp h
    | cons t words => exact (String.append_right_inj (s ++ " ")).mp h

/-- Behind fewer words than are recorded, a positional is. -/
theorem positional_named {v : String} (hv : startsWithDash v = false) (hne : cmd.words ≠ [])
    (hdepth : cmd.words.length < maxRoutingDepth cmd.words) (rest : List String) :
    routingNames (cmd.words ++ v :: rest) =
      cmd.words ++ v :: (rest.takeWhile fun token => !startsWithDash token).take
        (maxRoutingDepth cmd.words - cmd.words.length - 1) := by
  have hfirst : (v :: rest).takeWhile (fun token => !startsWithDash token) =
      v :: rest.takeWhile fun token => !startsWithDash token := by
    rw [List.takeWhile_cons, hv]
    rfl
  obtain ⟨n, hn⟩ : ∃ n, maxRoutingDepth cmd.words - cmd.words.length = n + 1 :=
    ⟨maxRoutingDepth cmd.words - cmd.words.length - 1, by omega⟩
  rw [routingNames, takeWhile_words, hfirst, maxRoutingDepth_append hne, List.take_append,
    List.take_of_length_le (Nat.le_of_lt hdepth), hn, List.take_succ_cons, Nat.add_sub_cancel]

end Routing

section Globals

/-- Global flags that differ in values that are not on the allow list. -/
structure GlobalsAlike (f g : GlobalFlags) : Prop where
  verbosity : f.verbosity = g.verbosity
  isNoInput : f.isNoInput = g.isNoInput
  isNoColor : f.isNoColor = g.isNoColor
  isAutoConfirmed : f.isAutoConfirmed = g.isAutoConfirmed
  format : f.format = g.format
  ui : f.ui = g.ui
  «namespace» : f.namespace = g.namespace
  profile : f.profile.isSome = g.profile.isSome
  isDryRun : f.isDryRun = g.isDryRun
  isSkeleton : f.isSkeleton = g.isSkeleton
  timeout : f.timeout.isSome = g.timeout.isSome
  isPageAll : f.isPageAll = g.isPageAll
  pageLimitRaw : f.pageLimitRaw.isSome = g.pageLimitRaw.isSome
  output : f.output.isSome = g.output.isSome

theorem mergeGlobalFlags_append (c : Capture) (a b : List (String × Option String)) :
    mergeGlobalFlags c (a ++ b) = mergeGlobalFlags (mergeGlobalFlags c a) b := List.foldl_append

theorem mergeGlobalFlags_value (name : String) (hname : name ∉ valueSafeFlags)
    {v w : Option String} (h : v.isSome = w.isSome) (c : Capture) :
    mergeGlobalFlags c (valuePair name v) = mergeGlobalFlags c (valuePair name w) := by
  cases v with
  | none =>
    cases w with
    | none => rfl
    | some w => cases h
  | some v =>
    cases w with
    | none => cases h
    | some w => exact valued_redacted hname (c.named name) v w

theorem mergeGlobalFlags_alike {f g : GlobalFlags} (h : GlobalsAlike f g) (c : Capture) :
    mergeGlobalFlags c f.telemetryPairs = mergeGlobalFlags c g.telemetryPairs := by
  have hprofile := mergeGlobalFlags_value "--profile" (by decide) h.profile
  have htimeout := fun c => mergeGlobalFlags_value "--timeout" (by decide)
    (v := f.timeout.map toString) (w := g.timeout.map toString) (by simp [h.timeout]) c
  have hlimit := mergeGlobalFlags_value "--page-limit" (by decide) h.pageLimitRaw
  have houtput := fun c => mergeGlobalFlags_value "--output" (by decide)
    (v := f.output.map outputText) (w := g.output.map outputText) (by simp [h.output]) c
  simp only [GlobalFlags.telemetryPairs, mergeGlobalFlags_append, h.verbosity, h.isNoInput,
    h.isNoColor, h.isAutoConfirmed, h.format, h.ui, h.namespace, h.isDryRun, h.isSkeleton,
    h.isPageAll, hprofile, htimeout, hlimit, houtput]

end Globals

section Spoiled

/-- A flag of `n + 1` letters. -/
def flagText (n : Nat) : String := String.ofList ('-' :: '-' :: List.replicate (n + 1) 'a')

theorem flagText_injective : Function.Injective flagText := by
  intro m n h
  have hchars := congrArg (fun s : String => s.toList.length) h
  simp only [flagText, String.toList_ofList, List.length_cons, List.length_replicate] at hchars
  omega

theorem flagText_no_equals (n : Nat) : '=' ∉ List.replicate (n + 1) 'a' := by
  intro h
  cases List.eq_of_mem_replicate h

theorem doubleDash_replicate (n : Nat) : doubleDash (List.replicate n 'a') = false := by
  induction n with
  | zero => rfl
  | succ n ih =>
    rw [List.replicate_succ]
    cases n with
    | zero => rfl
    | succ n =>
      rw [List.replicate_succ] at ih ⊢
      exact ih

theorem flagText_looksLikeFlag (n : Nat) : looksLikeFlag (flagText n) = true := by
  have hlast : (List.replicate (n + 1) 'a').getLast? ≠ some '-' := by
    rw [List.getLast?_replicate]
    simp
  have hall : (List.replicate (n + 1) 'a').all fun c => Strings.isAsciiLower c || c = '-' := by
    rw [List.all_replicate]
    rfl
  have hname : looksLikeFlagName (List.replicate (n + 1) 'a') = true := by
    rw [looksLikeFlagName, hall, doubleDash_replicate, decide_eq_true hlast]
    rfl
  rw [flagText, looksLikeFlag, String.toList_ofList]
  simp only [namePart_self (flagText_no_equals n), hname]

theorem flagText_splitInline (n : Nat) : (splitInline (flagText n)).2 = none := by
  have hdrop : ('-' :: '-' :: List.replicate (n + 1) 'a').dropWhile (· ≠ '=') = [] := by
    rw [List.dropWhile_eq_nil_iff]
    intro c hc
    rw [decide_eq_true_eq]
    rintro rfl
    have hmem : '=' ∈ List.replicate (n + 1) 'a' := by
      rcases List.mem_cons.mp hc with heq | hc
      · cases heq
      · exact (List.mem_cons.mp hc).resolve_left (by decide)
    exact flagText_no_equals n hmem
  rw [splitInline, flagText, String.toList_ofList, hdrop]

/-- A value for each role, `w` wherever a value may look like a flag. -/
def filled (w : String) : Role → String
  | .word _ | .inline _ => ""
  | .attached _ => "x"
  | .value .any => w
  | .value (.checked c) => c.sample

theorem filled_accepted (w : String) (role : Role) : role.Accepts (filled w role) := by
  cases role with
  | word s => rfl
  | inline flag => trivial
  | attached flags =>
    have hx : "x" ≠ "" ∧ "x".toList.head? ≠ some '=' := by decide
    exact hx
  | value domain =>
    cases domain with
    | any => trivial
    | checked c => exact c.accepts_sample

theorem fills_filled (w : String) (roles : List Role) : Fills roles (roles.map (filled w)) := by
  induction roles with
  | nil => trivial
  | cons role rest ih => exact ⟨filled_accepted w role, ih⟩

theorem mem_named (c : Capture) (name : String) : name ∈ (c.named name).names := by
  rw [Capture.named]
  by_cases h : c.names.contains name = true
  · rw [if_pos h]
    simpa using h
  · rw [if_neg h]
    simp

theorem named_mono (c : Capture) (name : String) {n : String} (h : n ∈ c.names) :
    n ∈ (c.named name).names := by
  rw [Capture.named]
  split_ifs
  · exact h
  · exact List.mem_append_left _ h

theorem scanToken_mono (s : Capture × Option String) (token : String) {n : String}
    (h : n ∈ s.1.names) : n ∈ (scanToken s token).1.names := by
  obtain ⟨c, waiting⟩ := s
  cases waiting with
  | some name => exact h
  | none =>
    rw [scanToken]
    by_cases hflag : looksLikeFlag token = true
    · rw [if_pos hflag]
      cases (splitInline token).2 with
      | some value => exact named_mono c _ h
      | none => exact named_mono c _ h
    · rw [if_neg hflag]
      exact h

theorem scan_mono (argv : List String) (s : Capture × Option String) {n : String}
    (h : n ∈ s.1.names) : n ∈ (argv.foldl scanToken s).1.names := by
  induction argv generalizing s with
  | nil => exact h
  | cons token rest ih => exact ih _ (scanToken_mono s token h)

/-- A value that is not consumed is recorded as a name when it looks like a flag. -/
theorem spoiled_named {roles : List Role} (hsound : ∀ role ∈ roles, role.Sound)
    {waiting : Option String} (h : ¬ConsumedFrom waiting.isSome roles) {w : String}
    (hflag : looksLikeFlag w = true) (hsplit : (splitInline w).2 = none) (c : Capture) :
    w ∈ ((tokens roles (roles.map (filled w))).foldl scanToken (c, waiting)).1.names := by
  induction roles generalizing waiting c with
  | nil => exact absurd trivial h
  | cons role rest ih =>
    have hrest : ∀ r ∈ rest, r.Sound := fun r hr => hsound r (List.mem_cons_of_mem role hr)
    rw [List.map_cons, tokens, List.foldl_cons]
    cases waiting with
    | some name =>
      have hnot : ¬ConsumedFrom (none : Option String).isSome rest :=
        fun hconsumed => h ⟨Or.inl rfl, hconsumed⟩
      rw [scanToken]
      exact ih hrest hnot _
    | none =>
      by_cases hopen : isOpen role = true
      · have hrole : role = .value .any := by
          rcases role with s | flag | flags | ⟨_ | k⟩
          all_goals first | rfl | cases hopen
        rw [hrole, filled, Role.token]
        apply scan_mono
        rw [scanToken, if_pos hflag, hsplit, splitInline_self hsplit]
        exact mem_named c w
      · rw [Bool.not_eq_true] at hopen
        obtain ⟨hwaits, -⟩ := scanToken_waits (hsound role List.mem_cons_self) hopen
          (filled_accepted w role) c
        generalize scanToken (c, none) (role.token (filled w role)) = after at hwaits
        refine ih hrest (fun hconsumed => h ⟨Or.inr hopen, ?_⟩) after.1
        rw [hwaits] at hconsumed
        exact hconsumed

theorem flagText_not_all (names : List String) : ∃ n, flagText n ∉ names := by
  by_contra hall
  push Not at hall
  have hinfinite : Set.Infinite {name | name ∈ names} :=
    Set.infinite_of_injective_forall_mem flagText_injective hall
  exact hinfinite (List.finite_toSet names)

end Spoiled

section Agreement

def noGlobals : GlobalFlags where
  verbosity := .normal
  isNoInput := false
  isNoColor := false
  isAutoConfirmed := false
  format := none
  ui := none
  «namespace» := none
  profile := none
  isDryRun := false
  isSkeleton := false
  timeout := none
  isPageAll := false
  pageLimitRaw := none
  output := none

theorem noGlobals_pairs : noGlobals.telemetryPairs = [] := by decide

/-- Whatever the values, the same is recorded. -/
def RecordedAlike {cmd : Command} (shape : Shape cmd) : Prop :=
  ∀ f g vs ws, GlobalsAlike f g → Fills shape.all vs → Fills shape.all ws →
    record f (tokens shape.all vs) = record g (tokens shape.all ws)

theorem noGlobals_alike : GlobalsAlike noGlobals noGlobals :=
  ⟨rfl, rfl, rfl, rfl, rfl, rfl, rfl, rfl, rfl, rfl, rfl, rfl, rfl, rfl⟩

/-- A recorded positional leaks. -/
theorem routed_of_alike {cmd : Command} {shape : Shape cmd} (halike : RecordedAlike shape) :
    Routed shape := by
  by_contra hnot
  obtain ⟨hdepth, hfirst⟩ := not_or.mp hnot
  rw [Nat.not_le] at hdepth
  push Not at hfirst
  obtain ⟨role, hhead, hdashed⟩ := hfirst
  rw [Ne, Bool.not_eq_true] at hdashed
  have hne : cmd.words ≠ [] := by
    intro hempty
    rw [shape.rooted hempty role hhead] at hdashed
    cases hdashed
  obtain ⟨rest, hroles⟩ : ∃ rest, shape.roles = role :: rest := List.head?_eq_some_iff.mp hhead
  obtain ⟨c, rfl, v, w, hv, hw, hvdash, hwdash, hdiffer⟩ :=
    positional_of_undashed (hroles ▸ shape.reads) hdashed
  have hfills : ∀ x, c.accepts x = true → Fills shape.roles (x :: rest.map (filled "x")) := by
    intro x hx
    rw [hroles]
    exact ⟨hx, fills_filled "x" rest⟩
  have htokens : ∀ x, tokens shape.roles (x :: rest.map (filled "x")) =
      x :: tokens rest (rest.map (filled "x")) := by
    intro x
    rw [hroles]
    rfl
  obtain ⟨hvfills, hvtokens⟩ := fills_words cmd.words (hfills v hv)
  obtain ⟨hwfills, hwtokens⟩ := fills_words cmd.words (hfills w hw)
  have hrecord := congrArg Prod.fst
    (halike noGlobals noGlobals _ _ noGlobals_alike hvfills hwfills)
  rw [record, record, commandPathNames, commandPathNames, Shape.all, hvtokens, hwtokens, htokens,
    htokens, positional_named hvdash hne hdepth, positional_named hwdash hne hdepth]
    at hrecord
  exact hdiffer (join_middle_inj _ _ hrecord)

/-- Values leak exactly where one that may look like a flag is not consumed, or where a positional
is taken for a routing word. -/
theorem recorded_alike_iff {cmd : Command} (shape : Shape cmd) :
    RecordedAlike shape ↔ Consumed shape.all ∧ Routed shape := by
  constructor
  · intro halike
    refine ⟨?_, routed_of_alike halike⟩
    by_contra hnot
    have hnames : ∀ n, flagText n ∈
        (extractFlags (tokens shape.all (shape.all.map (filled (flagText 0))))).names := by
      intro n
      have hrecord := halike noGlobals noGlobals _ _ noGlobals_alike
        (fills_filled (flagText n) shape.all) (fills_filled (flagText 0) shape.all)
      have hflags : extractFlags (tokens shape.all (shape.all.map (filled (flagText n)))) =
          extractFlags (tokens shape.all (shape.all.map (filled (flagText 0)))) := by
        have hcapture := congrArg Prod.snd hrecord
        rw [record, record, noGlobals_pairs] at hcapture
        exact hcapture
      rw [← hflags, extractFlags, extractFrom_eq]
      have hstart : ¬ConsumedFrom (none : Option String).isSome shape.all := hnot
      exact spoiled_named shape.sound.each hstart (flagText_looksLikeFlag n)
        (flagText_splitInline n) .default
    obtain ⟨n, hn⟩ := flagText_not_all
      (extractFlags (tokens shape.all (shape.all.map (filled (flagText 0))))).names
    exact hn (hnames n)
  · intro ⟨hconsumed, hrouted⟩ f g vs ws hglobals hvs hws
    have hflags : extractFlags (tokens shape.all vs) = extractFlags (tokens shape.all ws) := by
      have hstart : ConsumedFrom (none : Option String).isSome shape.all := hconsumed
      rw [extractFlags, extractFlags, extractFrom_eq, extractFrom_eq,
        scan_alike shape.sound (fun name h => by cases h) hstart hvs hws]
    rw [record, record, commandPathNames, commandPathNames, routingNames_eq shape hrouted hvs,
      routingNames_eq shape hrouted hws, hflags, mergeGlobalFlags_alike hglobals]

end Agreement

section UpdateSecret

def longArg (name : String) (action : Action) (h : '=' ∉ name.toList) : Arg where
  long := some name
  short := none
  action := action
  long_name := by
    rintro _ ⟨⟩
    exact h
  short_name := by
    rintro c ⟨⟩

def appArg : Arg where
  long := some "app"
  short := some 'a'
  action := .set text false
  long_name := by
    rintro _ ⟨⟩
    decide
  short_name := by
    rintro _ ⟨⟩
    decide

def boolean : Checked where
  accepts v := v = "true" || v = "false"
  plain v h := by
    rcases Bool.or_eq_true_iff.mp h with h | h
    · obtain rfl := of_decide_eq_true h
      rfl
    · obtain rfl := of_decide_eq_true h
      rfl
  sample := "true"
  accepts_sample := rfl

def updateSecretArgs : List Arg :=
  [appArg, longArg "key" (.set text false) (by decide), longArg "value" (.set .any false) (by decide),
    longArg "value-stdin" .setTrue (by decide), longArg "description" (.set text false) (by decide),
    longArg "sensitive" (.set (.checked boolean) true) (by decide), longArg "force" .setTrue (by decide)]

theorem updateSecret_spells {s : String} {a : Arg} (h : Spells updateSecretArgs s a) :
    s ∉ valueSafeFlags := by
  cases h with
  | long ha hname =>
    have hall : ∀ a ∈ updateSecretArgs, "--" ++ a.long.getD "" ∉ valueSafeFlags := by decide
    have hsafe := hall a ha
    rw [hname] at hsafe
    exact hsafe
  | @short _ switches c ha hname hswitches =>
    have happ : ∀ b ∈ updateSecretArgs, b.short.isSome = true → b = appArg := by
      intro b hb hsome
      simp only [updateSecretArgs, List.mem_cons, List.not_mem_nil, or_false] at hb
      rcases hb with rfl | rfl | rfl | rfl | rfl | rfl | rfl
      · rfl
      all_goals cases hsome
    have hempty : switches = [] := by
      rw [List.eq_nil_iff_forall_not_mem]
      intro x hx
      obtain ⟨b, hb, hshort, haction⟩ := hswitches x hx
      rw [happ b hb (by rw [hshort]; rfl)] at haction
      cases haction
    rw [happ a ha (by rw [hname]; rfl)] at hname
    obtain rfl := Option.some.inj hname
    rw [hempty]
    decide

def updateSecret : Command where
  words := ["extend", "update-secret"]
  args := updateSecretArgs
  undashed := by decide
  safe_set _ _ hs hsafe := absurd hsafe (updateSecret_spells hs)

/-- `extend update-secret --app … --key … --force --value …`. -/
def forcedSecret : Shape updateSecret where
  roles := [.word "--app", .value text, .word "--key", .value text, .word "--force",
    .word "--value", .value .any]
  rooted h := absurd h (List.cons_ne_nil _ _)
  reads := by
    have hlong : ∀ a ∈ updateSecretArgs, ∀ name, a.long = some name →
        Spells updateSecret.args ("--" ++ name) a := fun a ha name hname => .long ha hname
    have happ := hlong appArg (by simp [updateSecretArgs]) "app" rfl
    have hkey := hlong (longArg "key" (.set text false) (by decide))
      (by simp [updateSecretArgs]) "key" rfl
    have hforce := hlong (longArg "force" .setTrue (by decide))
      (by simp [updateSecretArgs]) "force" rfl
    have hvalue := hlong (longArg "value" (.set .any false) (by decide))
      (by simp [updateSecretArgs]) "value" rfl
    refine .value happ rfl (updateSecret_spells happ) ?_
    refine .value hkey rfl (updateSecret_spells hkey) ?_
    refine .switch hforce (Or.inl rfl) ?_
    exact .value hvalue rfl (updateSecret_spells hvalue) (.done false)

/-- `describe [service] [resource] [method]`, which takes `workflow` and an id too. -/
def describe : Command where
  words := ["describe"]
  args := []
  undashed := by decide
  safe_set _ _ hs _ := by
    cases hs with
    | long ha _ => cases ha
    | short ha _ _ => cases ha

def describeWorkflow : Shape describe where
  roles := [.value text, .value text]
  rooted h := absurd h (List.cons_ne_nil _ _)
  reads := .positional undashed_varied (.positional undashed_varied (.done false))

/-- `--force` is a switch that the scan gives `--value` to, and the secret becomes a flag name; the
id of a described workflow stands where a routing word may. -/
theorem forced_secret_recorded : (∃ vs ws, Fills forcedSecret.all vs ∧ Fills forcedSecret.all ws ∧
    tokens forcedSecret.all vs = ["extend", "update-secret", "--app", "a", "--key", "k", "--force",
      "--value", "--my-secret"] ∧
    tokens forcedSecret.all ws = ["extend", "update-secret", "--app", "a", "--key", "k", "--force",
      "--value", "s3cret"] ∧
    (record noGlobals (tokens forcedSecret.all vs)).2.names =
      ["--app", "--key", "--force", "--my-secret"] ∧
    ¬RecordedAlike forcedSecret) ∧
    tokens describeWorkflow.all ["", "workflow", "my-flow"] = ["describe", "workflow", "my-flow"] ∧
    (record noGlobals (tokens describeWorkflow.all ["", "workflow", "my-flow"])).1 =
      "describe workflow my-flow" ∧
    ¬RecordedAlike describeWorkflow := by
  have hvs : Fills forcedSecret.all ["", "", "", "a", "", "k", "", "", "--my-secret"] :=
    ⟨rfl, rfl, rfl, rfl, rfl, rfl, rfl, rfl, trivial, trivial⟩
  have hws : Fills forcedSecret.all ["", "", "", "a", "", "k", "", "", "s3cret"] :=
    ⟨rfl, rfl, rfl, rfl, rfl, rfl, rfl, rfl, trivial, trivial⟩
  have hnames : (record noGlobals (tokens forcedSecret.all
      ["", "", "", "a", "", "k", "", "", "--my-secret"])).2.names =
      ["--app", "--key", "--force", "--my-secret"] := by decide
  have hothers : (record noGlobals (tokens forcedSecret.all
      ["", "", "", "a", "", "k", "", "", "s3cret"])).2.names = ["--app", "--key", "--force"] := by
    decide
  have hmine : (record noGlobals (tokens describeWorkflow.all ["", "workflow", "my-flow"])).1 =
      "describe workflow my-flow" := by decide
  have hyours : (record noGlobals (tokens describeWorkflow.all ["", "workflow", "yours"])).1 =
      "describe workflow yours" := by decide
  refine ⟨⟨_, _, hvs, hws, rfl, rfl, hnames, fun halike => ?_⟩, rfl, hmine, fun halike => ?_⟩
  · have hrecord := halike noGlobals noGlobals _ _ noGlobals_alike hvs hws
    rw [hrecord, hothers] at hnames
    cases hnames
  · have hrecord := halike noGlobals noGlobals ["", "workflow", "my-flow"] ["", "workflow", "yours"]
      noGlobals_alike ⟨rfl, rfl, rfl, trivial⟩ ⟨rfl, rfl, rfl, trivial⟩
    rw [hrecord, hyours] at hmine
    exact absurd hmine (by decide)

end UpdateSecret

end Redaction
