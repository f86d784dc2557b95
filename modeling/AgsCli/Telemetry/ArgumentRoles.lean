import AgsCli.Telemetry.FlagCapture
import Mathlib.Data.List.Chain

/-! # Argument vectors as the parser reads them

The flags a command declares, the role each token of an argument vector has for the parser, and
the values a role can take. A value that starts with a dash is only read as one where the flag
allows it, after `=` or behind `--`. -/
namespace ArgumentRoles

open FlagCapture

theorem startsWithDash_append {s : String} (h : startsWithDash s = true) (t : String) :
    startsWithDash (s ++ t) = true := by
  rw [startsWithDash, decide_eq_true_eq] at h ⊢
  rw [String.toList_append]
  cases hchars : s.toList with
  | nil =>
    rw [hchars] at h
    cases h
  | cons c rest =>
    rw [hchars] at h
    exact h

/-- A value check that lets nothing through that looks like a flag. -/
structure Checked where
  accepts : String → Bool
  plain : ∀ v, accepts v = true → looksLikeFlag v = false
  sample : String
  accepts_sample : accepts sample = true

/-- More than one text without a dash passes the check. -/
def Checked.Varied (c : Checked) : Prop :=
  ∃ v w, c.accepts v = true ∧ c.accepts w = true ∧ startsWithDash v = false ∧
    startsWithDash w = false ∧ v ≠ w

/-- `any` is a text of `allow_hyphen_values`, or what stands behind `--`. -/
inductive Domain
  | any
  | checked (c : Checked)

def Domain.Accepts : Domain → String → Prop
  | .any, _ => True
  | .checked c, v => c.accepts v = true

/-- `-` alone is a value. -/
def undashed (v : String) : Bool := !startsWithDash v || v = "-"

theorem undashed_plain (v : String) (h : undashed v = true) : looksLikeFlag v = false := by
  rw [undashed, Bool.or_eq_true, decide_eq_true_eq] at h
  rcases h with h | rfl
  · unfold looksLikeFlag
    rw [startsWithDash, Bool.not_eq_true', decide_eq_false_iff_not] at h
    split
    · next hv => rw [hv] at h; exact absurd rfl h
    · next hv => rw [hv] at h; exact absurd rfl h
    · rfl
  · rfl

/-- A text without `allow_hyphen_values`. -/
def text : Domain := .checked ⟨undashed, undashed_plain, "x", rfl⟩

theorem undashed_varied : Checked.Varied ⟨undashed, undashed_plain, "x", rfl⟩ :=
  ⟨"x", "y", rfl, rfl, rfl, rfl, by decide⟩

/-- `optional` is `num_args(0..=1)`. -/
inductive Action
  | setTrue
  | set (domain : Domain) (optional : Bool)

structure Arg where
  long : Option String
  short : Option Char
  action : Action
  long_name : ∀ name, long = some name → '=' ∉ name.toList
  short_name : ∀ c, short = some c → c ≠ '-' ∧ c ≠ '='

/-- The declared flag that a token names; short ones may be clustered behind switches. -/
inductive Spells (args : List Arg) : String → Arg → Prop
  | long {a : Arg} {name : String} (ha : a ∈ args) (hname : a.long = some name) :
      Spells args ("--" ++ name) a
  | short {a : Arg} {switches : List Char} {c : Char} (ha : a ∈ args) (hname : a.short = some c)
      (hswitches : ∀ s ∈ switches, ∃ b ∈ args, b.short = some s ∧ b.action = .setTrue) :
      Spells args (String.ofList ('-' :: (switches ++ [c]))) a

/-- The words that name a command and its flags. A flag on the allow list takes a plain value. -/
structure Command where
  words : List String
  args : List Arg
  undashed : ∀ w ∈ words, startsWithDash w = false
  safe_set : ∀ s a, Spells args s a → s ∈ valueSafeFlags →
    ∃ c, a.action = .set (.checked c) false

/-- `word` is a token whose text is fixed: a routing word, a flag, `--`, or a value of a flag on the
allow list. -/
inductive Role
  | word (s : String)
  | inline (flag : String)
  | attached (flags : String)
  | value (domain : Domain)

namespace Role

def token : Role → String → String
  | .word s, _ => s
  | .inline flag, v => flag ++ "=" ++ v
  | .attached flags, v => flags ++ v
  | .value _, v => v

def Accepts : Role → String → Prop
  | .word _, v => v = ""
  | .inline _, _ => True
  | .attached _, v => v ≠ "" ∧ v.toList.head? ≠ some '='
  | .value domain, v => domain.Accepts v

def dashed : Role → Bool
  | .word s => startsWithDash s
  | .inline _ | .attached _ => true
  | .value _ => false

end Role

/-- The roles a command's tokens can have; the flag says whether `--` has been read. -/
inductive Reads (cmd : Command) : Bool → List Role → Prop
  | done (escaped : Bool) : Reads cmd escaped []
  | switch {s : String} {a : Arg} {rest : List Role} (hs : Spells cmd.args s a)
      (haction : a.action = .setTrue ∨ ∃ d, a.action = .set d true) (h : Reads cmd false rest) :
      Reads cmd false (.word s :: rest)
  | value {s : String} {a : Arg} {d : Domain} {o : Bool} {rest : List Role}
      (hs : Spells cmd.args s a) (haction : a.action = .set d o) (hsafe : s ∉ valueSafeFlags)
      (h : Reads cmd false rest) : Reads cmd false (.word s :: .value d :: rest)
  | safe {s v : String} {a : Arg} {c : Checked} {rest : List Role} (hs : Spells cmd.args s a)
      (haction : a.action = .set (.checked c) false) (hv : c.accepts v = true)
      (h : Reads cmd false rest) : Reads cmd false (.word s :: .word v :: rest)
  | inline {s : String} {a : Arg} {d : Domain} {o : Bool} {rest : List Role}
      (hs : Spells cmd.args s a) (haction : a.action = .set d o) (hsafe : s ∉ valueSafeFlags)
      (h : Reads cmd false rest) : Reads cmd false (.inline s :: rest)
  | safeInline {s v : String} {rest : List Role} (hsafe : s ∈ valueSafeFlags)
      (h : Reads cmd false rest) : Reads cmd false (.word (s ++ "=" ++ v) :: rest)
  | attached {a : Arg} {d : Domain} {o : Bool} {switches : List Char} {c : Char}
      {rest : List Role} (ha : a ∈ cmd.args) (hname : a.short = some c)
      (hswitches : ∀ s ∈ switches, ∃ b ∈ cmd.args, b.short = some s ∧ b.action = .setTrue)
      (haction : a.action = .set d o) (h : Reads cmd false rest) :
      Reads cmd false (.attached (String.ofList ('-' :: (switches ++ [c]))) :: rest)
  | positional {c : Checked} {rest : List Role} (hvaried : c.Varied) (h : Reads cmd false rest) :
      Reads cmd false (.value (.checked c) :: rest)
  | escape {rest : List Role} (h : Reads cmd true rest) : Reads cmd false (.word "--" :: rest)
  | escaped {rest : List Role} (h : Reads cmd true rest) :
      Reads cmd true (.value .any :: rest)

/-- An argument vector without its values: behind a command's words, the roles of its tokens. `ags`
itself has no positionals. -/
structure Shape (cmd : Command) where
  roles : List Role
  rooted : cmd.words = [] → ∀ role, roles.head? = some role → role.dashed = true
  reads : Reads cmd false roles

def tokens : List Role → List String → List String
  | role :: roles, v :: vs => role.token v :: tokens roles vs
  | _, _ => []

/-- Values for the roles, each accepted. -/
def Fills : List Role → List String → Prop
  | [], [] => True
  | role :: roles, v :: vs => role.Accepts v ∧ Fills roles vs
  | _, _ => False

section Sound

/-- What the declared names leave for the tokens of a role. -/
def Role.Sound : Role → Prop
  | .inline flag => startsWithDash flag = true ∧ '=' ∉ flag.toList ∧ flag ∉ valueSafeFlags
  | .attached flags => ∃ c cs, flags.toList = '-' :: c :: cs ∧ c ≠ '-' ∧ '=' ∉ c :: cs
  | .word _ | .value _ => True

/-- Only fixed words follow a flag on the allow list. -/
def Follows (role next : Role) : Prop :=
  ∀ s, role = .word s → s ∈ valueSafeFlags → ∃ v, next = .word v

structure Sound (roles : List Role) : Prop where
  each : ∀ role ∈ roles, role.Sound
  follows : roles.IsChain Follows

theorem safe_looksLikeFlag {s : String} (h : s ∈ valueSafeFlags) : looksLikeFlag s = true := by
  have hall : ∀ s ∈ valueSafeFlags, looksLikeFlag s = true := by decide
  exact hall s h

theorem safe_no_equals {s : String} (h : s ∈ valueSafeFlags) : '=' ∉ s.toList := by
  have hall : ∀ s ∈ valueSafeFlags, '=' ∉ s.toList := by decide
  exact hall s h

theorem Sound.cons {role : Role} {rest : List Role} (hrole : role.Sound)
    (hfollows : ∀ s, role = .word s → s ∉ valueSafeFlags) (h : Sound rest) :
    Sound (role :: rest) where
  each := by
    intro r hr
    rcases List.mem_cons.mp hr with rfl | hr
    · exact hrole
    · exact h.each r hr
  follows := by
    cases rest with
    | nil => exact List.isChain_singleton role
    | cons next rest =>
      refine List.isChain_cons_cons.mpr ⟨fun s hs hsafe => ?_, h.follows⟩
      exact absurd hsafe (hfollows s hs)

/-- Short names are neither dashes nor equals signs. -/
theorem cluster_chars {args : List Arg} {a : Arg} {switches : List Char} {c : Char}
    (hname : a.short = some c)
    (hswitches : ∀ s ∈ switches, ∃ b ∈ args, b.short = some s ∧ b.action = .setTrue) :
    ∀ x ∈ switches ++ [c], x ≠ '-' ∧ x ≠ '=' := by
  intro x hx
  rcases List.mem_append.mp hx with hx | hx
  · obtain ⟨b, -, hb, -⟩ := hswitches x hx
    exact b.short_name x hb
  · obtain rfl := List.mem_singleton.mp hx
    exact a.short_name x hname

theorem spells_no_equals {args : List Arg} {s : String} {a : Arg} (h : Spells args s a) :
    '=' ∉ s.toList := by
  cases h with
  | long ha hname =>
    rw [String.toList_append]
    simpa using a.long_name _ hname
  | short ha hname hswitches =>
    rw [String.toList_ofList]
    intro hmem
    rcases List.mem_cons.mp hmem with heq | hmem
    · cases heq
    · exact (cluster_chars hname hswitches _ hmem).2 rfl

theorem spells_dash {args : List Arg} {s : String} {a : Arg} (h : Spells args s a) :
    startsWithDash s = true := by
  cases h with
  | long ha hname =>
    rw [startsWithDash, String.toList_append]
    rfl
  | short ha hname hswitches =>
    rw [startsWithDash, String.toList_ofList]
    rfl

theorem sound_of_reads {cmd : Command} {escaped : Bool} {roles : List Role}
    (h : Reads cmd escaped roles) : Sound roles := by
  induction h with
  | done => exact ⟨fun role h => absurd h List.not_mem_nil, List.isChain_nil⟩
  | switch hs haction _ ih =>
    refine ih.cons trivial fun s heq hsafe => ?_
    obtain rfl := Role.word.inj heq
    obtain ⟨c, hset⟩ := cmd.safe_set _ _ hs hsafe
    rw [hset] at haction
    rcases haction with haction | ⟨d, haction⟩
    · cases haction
    · cases haction
  | value hs haction hsafe _ ih =>
    refine Sound.cons trivial (fun s heq => ?_) (ih.cons trivial fun s heq => by cases heq)
    obtain rfl := Role.word.inj heq
    exact hsafe
  | @safe s v a c rest hs haction hv _ ih =>
    have hrest : Sound (.word v :: rest) := by
      refine ih.cons trivial fun s' heq hsafe => ?_
      obtain rfl := Role.word.inj heq
      have := c.plain _ hv
      rw [safe_looksLikeFlag hsafe] at this
      cases this
    refine ⟨fun role hrole => ?_, List.isChain_cons_cons.mpr ⟨fun _ _ _ => ⟨v, rfl⟩, hrest.follows⟩⟩
    rcases List.mem_cons.mp hrole with rfl | hrole
    · trivial
    · exact hrest.each role hrole
  | inline hs haction hsafe _ ih =>
    exact ih.cons ⟨spells_dash hs, spells_no_equals hs, hsafe⟩ fun s heq => by cases heq
  | @safeInline s v rest hsafe _ ih =>
    refine ih.cons trivial fun s' heq hsafe' => ?_
    obtain rfl := Role.word.inj heq
    apply safe_no_equals hsafe'
    simp [String.toList_append]
  | @attached a d o switches c rest ha hname hswitches haction _ ih =>
    refine ih.cons ?_ fun s heq => by cases heq
    have hchars := cluster_chars hname hswitches
    obtain ⟨x, xs, hcons⟩ := List.exists_cons_of_ne_nil
      (show switches ++ [c] ≠ [] from List.append_ne_nil_of_right_ne_nil _ (List.cons_ne_nil c []))
    rw [hcons] at hchars
    refine ⟨x, xs, by rw [String.toList_ofList, hcons], (hchars x List.mem_cons_self).1, ?_⟩
    exact fun hmem => (hchars _ hmem).2 rfl
  | positional _ _ ih => exact ih.cons trivial fun s heq => by cases heq
  | escape _ ih =>
    refine ih.cons trivial fun s heq hsafe => ?_
    obtain rfl := Role.word.inj heq
    exact absurd hsafe (by decide)
  | escaped _ ih => exact ih.cons trivial fun s heq => by cases heq

theorem sound_words {words : List String} {roles : List Role} (h : Sound roles)
    (hwords : ∀ w ∈ words, startsWithDash w = false) : Sound (words.map .word ++ roles) := by
  induction words with
  | nil => exact h
  | cons w rest ih =>
    refine (ih fun v hv => hwords v (List.mem_cons_of_mem w hv)).cons trivial fun s heq hsafe => ?_
    obtain rfl := Role.word.inj heq
    have hdash : ∀ s ∈ valueSafeFlags, startsWithDash s = true := by decide
    have hstarts := hdash w hsafe
    rw [hwords w List.mem_cons_self] at hstarts
    cases hstarts

/-- In front of `--` a token without a dash is a positional. -/
theorem positional_of_undashed {cmd : Command} {role : Role} {rest : List Role}
    (h : Reads cmd false (role :: rest)) (hdashed : role.dashed = false) :
    ∃ c : Checked, role = .value (.checked c) ∧ c.Varied := by
  cases h with
  | positional hvaried _ => exact ⟨_, rfl, hvaried⟩
  | switch hs _ _ | value hs _ _ _ | safe hs _ _ _ =>
    rw [Role.dashed, spells_dash hs] at hdashed
    cases hdashed
  | @safeInline s v rest hsafe _ =>
    have hdash : ∀ s ∈ valueSafeFlags, startsWithDash s = true := by decide
    rw [Role.dashed, startsWithDash_append (startsWithDash_append (hdash s hsafe) "=") v] at hdashed
    cases hdashed
  | inline | attached => cases hdashed
  | escape => exact absurd hdashed (by decide)

end Sound

namespace Shape

variable {cmd : Command} (shape : Shape cmd)

def all : List Role := cmd.words.map .word ++ shape.roles

theorem sound : Sound shape.all := sound_words (sound_of_reads shape.reads) cmd.undashed

end Shape

end ArgumentRoles
