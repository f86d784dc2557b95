import AgsCli.Library.ShellWords

/-! # Shell tokens

POSIX token recognition as a scan that tells what each character is to the shell. A text may have
holes. A hole is plain where the shell reads ordinary unquoted text that it does not look up; plain
holes filled with quoted values leave everything around them as it was and read as the values
themselves. -/
namespace ShellTokens

inductive Number
  | digits
  | holes
  | other
  deriving DecidableEq, Repr

/-- Where in an unquoted word: in plain text, behind `=` or `:`, in a tilde prefix, in a bracket
expression. -/
inductive Point
  | plain (number : Number)
  | separator
  | tilde
  | bracket
  deriving DecidableEq, Repr

/-- Between two words; in a word; in double quotes; in `${`. -/
inductive Ground
  | blank
  | word (point : Point)
  | double
  | brace (quoted : Bool)
  deriving DecidableEq, Repr

/-- What the next character is read in, with the ground to go back to. -/
inductive Mode
  | ground (g : Ground)
  | escaped (g : Ground)
  | single (g : Ground)
  | dollar (g : Ground)
  | name (g : Ground)
  | dollarParen (g : Ground)
  | dollarSingle (g : Ground)
  | dollarSingleEscaped (g : Ground)
  | backquote (g : Ground)
  | backquoteEscaped (g : Ground)
  | arithmetic (g : Ground) (depth : Nat)
  | comment
  | body (line : List Char) (escaped : Bool)
  | foreign
  deriving DecidableEq, Repr

/-- `stack` has the grounds outside the open quotes, braces and parentheses. -/
structure State where
  mode : Mode
  stack : List Ground
  course : Course
  deriving DecidableEq, Repr

def State.start : State := ⟨.ground .blank, [], .start⟩

variable {η : Type*}

def isBlank (c : Char) : Bool := c = ' ' || c = '\t'

def isSpecialParameter (c : Char) : Bool :=
  isDigit c || ['@', '*', '#', '?', '-', '$', '!'].contains c

def isOperator (c : Char) : Bool := ['|', '&', ';', '<', '>', '(', ')', '\n'].contains c

namespace Ground

/-- The ground behind quoted or expanded material. -/
def resumed : Ground → Ground
  | .blank => .word (.plain .other)
  | .word .bracket => .word .bracket
  | .word _ => .word (.plain .other)
  | g => g

def isQuoted : Ground → Bool
  | .double => true
  | .brace quoted => quoted
  | _ => false

def isBetween (g : Ground) : Bool := g = .blank

def isCommandText : Ground → Bool
  | .blank | .word _ => true
  | _ => false

def isNumber (g : Ground) : Bool := g = .word (.plain .digits)

/-- A tilde opens a prefix at the start of a word and behind the separators of an assignment. -/
def opensTilde : Ground → Bool
  | .blank | .word .separator => true
  | _ => false

def numberAfter : Ground → Number
  | .blank => .digits
  | .word (.plain n) => n
  | _ => .other

/-- The point behind an ordinary unquoted character. -/
def after (g : Ground) (c : Char) : Point :=
  match g with
  | .word .tilde =>
    if c = '/' then .plain .other else if c = ':' then .separator else .tilde
  | .word .bracket => if c = ']' then .plain .other else .bracket
  | g =>
    if c = '~' && g.opensTilde then .tilde
    else if c = '[' then .bracket
    else if c = '=' || c = ':' then .separator
    else if isDigit c then .plain g.numberAfter
    else .plain .other

/-- An ordinary unquoted character, or one of a pattern or a tilde prefix. -/
def glyph (g : Ground) (c : Char) : Lexeme η :=
  match g with
  | .word .tilde => if c = '/' || c = ':' then .literal c else .active c
  | .word .bracket => .active c
  | g =>
    if c = '*' || c = '?' || c = '[' || (c = '~' && g.opensTilde) then .active c else .literal c

end Ground

/-- A character read there stands for itself, without quotes. -/
def Mode.isPlain : Mode → Bool
  | .ground g | .name g | .dollar g => g.isCommandText
  | .dollarParen _ => true
  | _ => false

namespace State

def goto (s : State) (mode : Mode) : State := { s with mode }

def push (s : State) (outer inner : Ground) : State :=
  { s with mode := .ground inner, stack := outer :: s.stack }

/-- Back to the ground outside. -/
def pop (s : State) : State :=
  match s.stack with
  | [] => s.goto (.ground (.word (.plain .other)))
  | g :: rest => { s with mode := .ground g, stack := rest }

/-- The begin of a word, where one begins. -/
def starts (s : State) (g : Ground) : List (Lexeme η) :=
  if g.isBetween then [.begin s.course.place.looks] else []

/-- The parentheses around a pattern of a `case` command open and close nothing. -/
def inPattern (s : State) : Bool := s.course.place.leave.position.isPattern

end State

def readOperator (s : State) (g : Ground) (c : Char) : State × List (Lexeme η) :=
  if c = '(' && !s.inPattern then (s.push .blank .blank, [.operator c false])
  else if c = ')' && !s.inPattern then
    match s.stack with
    | [] | .blank :: _ => (s.pop.goto (.ground .blank), [.operator c false])
    | _ :: _ => (s.pop, [.closes])
  else (s.goto (.ground .blank), [.operator c ((c = '<' || c = '>') && g.isNumber)])

/-- A character of command text. -/
def readUnquoted (s : State) (g : Ground) (c : Char) : State × List (Lexeme η) :=
  if c = '\\' then (s.goto (.escaped g), [])
  else if c = '\'' then (s.goto (.single g.resumed), s.starts g)
  else if c = '"' then (s.push g.resumed .double, s.starts g)
  else if c = '$' then (s.goto (.dollar g.resumed), s.starts g ++ [.active c])
  else if c = '`' then (s.goto (.backquote g.resumed), s.starts g ++ [.active c])
  else if isBlank c then (s.goto (.ground .blank), [.gap])
  else if c = '#' && g.isBetween then (s.goto .comment, [])
  else if isOperator c || (c = '-' && g.isBetween && s.course.opensHere) then readOperator s g c
  else (s.goto (.ground (.word (g.after c))), s.starts g ++ [g.glyph c])

def readDouble (s : State) (c : Char) : State × List (Lexeme η) :=
  if c = '"' then (s.pop, [])
  else if c = '\\' then (s.goto (.escaped .double), [])
  else if c = '$' then (s.goto (.dollar .double), [.active c])
  else if c = '`' then (s.goto (.backquote .double), [.active c])
  else (s, [.literal c])

/-- A character of a parameter expansion. -/
def readBrace (s : State) (quoted : Bool) (c : Char) : State × List (Lexeme η) :=
  if c = '}' then (s.pop, [.active c])
  else if c = '\\' then (s.goto (.escaped (.brace quoted)), [])
  else if c = '\'' && !quoted then (s.goto (.single (.brace quoted)), [])
  else if c = '"' then (s.push (.brace quoted) .double, [])
  else if c = '$' then (s.goto (.dollar (.brace quoted)), [.active c])
  else if c = '`' then (s.goto (.backquote (.brace quoted)), [.active c])
  else (s, [.active c])

def readGround (s : State) (g : Ground) (c : Char) : State × List (Lexeme η) :=
  match g with
  | .double => readDouble s c
  | .brace quoted => readBrace s quoted c
  | g => readUnquoted s g c

/-- The character behind a backslash; a newline goes with it. -/
def readEscaped (s : State) (g : Ground) (c : Char) : State × List (Lexeme η) :=
  if c = '\n' then (s.goto (.ground g), [])
  else if g.isQuoted && !(['$', '`', '"', '\\'].contains c) then
    (s.goto (.ground g), [.literal '\\', .literal c])
  else (s.goto (.ground g.resumed), s.starts g ++ [.literal c])

def readDollar (s : State) (g : Ground) (c : Char) : State × List (Lexeme η) :=
  if c = '{' then (s.push g (.brace g.isQuoted), [.active c])
  else if c = '(' then (s.goto (.dollarParen g), [.opens])
  else if c = '\'' && !g.isQuoted then (s.goto (.dollarSingle g), [])
  else if isNameStart c then (s.goto (.name g), [.active c])
  else if isSpecialParameter c then (s.goto (.ground g), [.active c])
  else readGround (s.goto (.ground g)) g c

/-- A character of a here-document, up to the line that is its delimiter. Where the delimiter is
not quoted, a backslash joins two lines. -/
def readBody (s : State) (line : List Char) (escaped : Bool) (c : Char) :
    State × List (Lexeme η) :=
  match s.course.pending with
  | [] => (s.goto (.ground .blank), [.document c])
  | d :: rest =>
    if escaped then
      (s.goto (.body (if c = '\n' then line else line ++ ['\\', c]) false), [.document c])
    else if c = '\\' && !d.quoted then (s.goto (.body line true), [.document c])
    else if c = '\n' && d.endsAt line then
      ({ s with
          mode := if rest.isEmpty then .ground .blank else .body [] false
          course := { s.course with pending := rest } }, [.document c])
    else (s.goto (.body (if c = '\n' then [] else line ++ [c]) false), [.document c])

def readMode (s : State) (c : Char) : State × List (Lexeme η) :=
  match s.mode with
  | .ground g => readGround s g c
  | .escaped g => readEscaped s g c
  | .single g => if c = '\'' then (s.goto (.ground g), []) else (s, [.literal c])
  | .dollar g => readDollar s g c
  | .name g => if isNameChar c then (s, [.active c]) else readGround (s.goto (.ground g)) g c
  | .dollarParen g =>
    if c = '(' then (s.goto (.arithmetic g 2), [.active c])
    else readUnquoted (s.push g .blank) .blank c
  | .dollarSingle g =>
    if c = '\'' then (s.goto (.ground g), [])
    else if c = '\\' then (s.goto (.dollarSingleEscaped g), [.active c])
    else (s, [.literal c])
  | .dollarSingleEscaped g => (s.goto (.dollarSingle g), [.active c])
  | .backquote g =>
    if c = '`' then (s.goto (.ground g), [.active c])
    else if c = '\\' then (s.goto (.backquoteEscaped g), [.active c])
    else (s, [.active c])
  | .backquoteEscaped g => (s.goto (.backquote g), [.active c])
  | .arithmetic g depth =>
    if c = '(' then (s.goto (.arithmetic g (depth + 1)), [.active c])
    else if c = ')' then
      if depth = 1 then (s.goto (.ground g), [.closes])
      else (s.goto (.arithmetic g (depth - 1)), [.active c])
    else (s, [.active c])
  | .comment => if c = '\n' then readOperator s .blank c else (s, [])
  | .body line escaped => readBody s line escaped c
  | .foreign => (s, [])

def Lexeme.isNewline : Lexeme η → Bool
  | .operator c _ => c = '\n'
  | _ => false

/-- The state with its course behind the lexemes of a character. Behind a newline the pending
here-documents follow. -/
def State.settle (s : State) (plain : Bool) (c : Char) (out : List (Lexeme η)) : State :=
  let followed := out.foldl (Course.follow plain) s.course
  let course := if plain && (c = '\'' || c = '"') then followed.quote else followed
  let text := out.any Lexeme.isNewline && !course.pending.isEmpty
  { s with mode := if text then .body [] false else s.mode, course }

/-- A NUL is no character of a shell's text. -/
def step (s : State) (c : Char) : State × List (Lexeme η) :=
  if c = '\x00' then (s.goto .foreign, [])
  else
    let after : State × List (Lexeme η) := readMode s c
    (after.1.settle s.mode.isPlain c after.2, after.2)

def read (s : State) : List Char → State × List (Lexeme η)
  | [] => (s, [])
  | c :: rest =>
    let after : State × List (Lexeme η) := step s c
    let last := read after.1 rest
    (last.1, after.2 ++ last.2)

/-- The words of a command, with what is nested in them; an operator's number is none. -/
def words (depth : Nat) (word : Option (List (Lexeme η))) :
    List (Lexeme η) → List (List (Lexeme η))
  | [] => word.toList
  | .begin looked :: rest =>
    if depth = 0 then words 0 (some (word.getD [])) rest
    else words depth (word.map (· ++ [.begin looked])) rest
  | .gap :: rest =>
    if depth = 0 then word.toList ++ words 0 none rest
    else words depth (word.map (· ++ [.gap])) rest
  | .operator c number :: rest =>
    if depth = 0 then (if number then [] else word.toList) ++ words 0 none rest
    else words depth (word.map (· ++ [.operator c number])) rest
  | .opens :: rest => words (depth + 1) (word.map (· ++ [.opens])) rest
  | .closes :: rest => words (depth - 1) (word.map (· ++ [.closes])) rest
  | .literal c :: rest => words depth (word.map (· ++ [.literal c])) rest
  | .active c :: rest => words depth (word.map (· ++ [.active c])) rest
  | .hole h :: rest => words depth (word.map (· ++ [.hole h])) rest
  | .document c :: rest => words depth (word.map (· ++ [.document c])) rest

inductive Symbol (η : Type*)
  | char (c : Char)
  | hole (h : η)
  deriving DecidableEq, Repr

def Ground.behindHole? : Ground → Option Ground
  | .blank | .word (.plain .digits) | .word (.plain .holes) => some (.word (.plain .holes))
  | .word (.plain .other) | .word .separator => some (.word (.plain .other))
  | _ => none

def State.entered (s : State) (g : Ground) : Course :=
  if g.isBetween then s.course.enter else s.course

/-- Where a text may stand that the shell neither interprets nor looks up: behind it the ground is
`behind`. -/
def Plain (s : State) (g behind : Ground) : Prop :=
  s.mode = .ground g ∧ g.behindHole? = some behind ∧ (s.entered g).isSettled = true

/-- A redirection behind a word that may be its number. -/
def Clashes (s : State) (c : Char) : Prop :=
  s.mode = .ground (.word (.plain .holes)) ∧ (c = '<' ∨ c = '>')

instance (s : State) (c : Char) : Decidable (Clashes s c) :=
  inferInstanceAs (Decidable (_ ∧ _))

def State.behindText (s : State) (g behind : Ground) : State :=
  { s with mode := .ground behind, course := s.entered g }

/-- What the shell makes of a text whose holes are plain; none where one is not. -/
def scan (s : State) : List (Symbol η) → Option (State × List (Lexeme η))
  | [] => some (s, [])
  | .char c :: rest =>
    if Clashes s c then none
    else
      let after : State × List (Lexeme η) := step s c
      (scan after.1 rest).map fun last => (last.1, after.2 ++ last.2)
  | .hole h :: rest =>
    match s.mode with
    | .ground g =>
      match g.behindHole? with
      | some behind =>
        if (s.entered g).isSettled then
          (scan (s.behindText g behind) rest).map fun last =>
            (last.1, s.starts g ++ .hole h :: last.2)
        else none
      | none => none
    | _ => none

def Lexeme.fill (value : η → List Char) : Lexeme η → List (Lexeme η)
  | .hole h => (value h).map .literal
  | lexeme => [lexeme]

def Symbol.render (text : η → List Char) : Symbol η → List Char
  | .char c => [c]
  | .hole h => text h

/-- A word that may be a number stands for one that is or is not. -/
def Ground.Like (g g' : Ground) : Prop :=
  g = g' ∨ g = .word (.plain .holes) ∧ ∃ n, g' = .word (.plain n)

inductive Mode.Like : Mode → Mode → Prop
  | refl (m : Mode) : Mode.Like m m
  | ground {g g' : Ground} : g.Like g' → Mode.Like (.ground g) (.ground g')
  | escaped {g g' : Ground} : g.Like g' → Mode.Like (.escaped g) (.escaped g')

structure State.Like (s t : State) : Prop where
  mode : s.mode.Like t.mode
  stack : s.stack = t.stack
  course : s.course = t.course

/-- A text that reads as a value wherever a hole is plain. -/
def ReadsAs (text value : List Char) : Prop :=
  ∀ (s : State) (g behind : Ground), Plain s g behind →
    ∃ g', behind.Like g' ∧
      read (η := η) s text = (s.behindText g g', s.starts g ++ value.map .literal)

section Likeness

theorem State.Like.refl (s : State) : s.Like s := ⟨.refl _, rfl, rfl⟩

theorem like_goto {s t : State} (h : s.Like t) {g g' : Ground} (hlike : g.Like g') :
    (s.goto (.ground g)).Like (t.goto (.ground g')) :=
  ⟨.ground hlike, h.stack, h.course⟩

theorem readOperator_like {s t : State} (hstack : s.stack = t.stack) (hcourse : s.course = t.course)
    {n : Number} {c : Char} (hless : c ≠ '<') (hmore : c ≠ '>') :
    (readOperator (η := η) s (.word (.plain .holes)) c).1.Like
        (readOperator (η := η) t (.word (.plain n)) c).1 ∧
      (readOperator (η := η) s (.word (.plain .holes)) c).2 =
        (readOperator t (.word (.plain n)) c).2 := by
  obtain ⟨mode, stack, course⟩ := s
  obtain ⟨mode', stack', course'⟩ := t
  obtain rfl : stack = stack' := hstack
  obtain rfl : course = course' := hcourse
  have hpattern : State.inPattern ⟨mode, stack, course⟩ = State.inPattern ⟨mode', stack, course⟩ :=
    rfl
  unfold readOperator
  simp only [hless, hmore, decide_false, Bool.or_self, Bool.false_and]
  rw [hpattern]
  split_ifs
  · exact ⟨⟨.refl _, rfl, rfl⟩, rfl⟩
  · rcases stack with _ | ⟨_ | _ | _ | _, stack⟩
    all_goals exact ⟨⟨.refl _, rfl, rfl⟩, rfl⟩
  · exact ⟨⟨.refl _, rfl, rfl⟩, rfl⟩

/-- Behind a hole a character that does not clash reads as behind the value of the hole. -/
theorem readUnquoted_like {s t : State} (hstack : s.stack = t.stack) (hcourse : s.course = t.course)
    {n : Number} {c : Char} (hless : c ≠ '<') (hmore : c ≠ '>') :
    (readUnquoted (η := η) s (.word (.plain .holes)) c).1.Like
        (readUnquoted (η := η) t (.word (.plain n)) c).1 ∧
      (readUnquoted (η := η) s (.word (.plain .holes)) c).2 =
        (readUnquoted t (.word (.plain n)) c).2 := by
  have hrefl : ∀ m : Mode, (s.goto m).Like (t.goto m) := fun m => ⟨.refl m, hstack, hcourse⟩
  have hbetween : ∀ p, Ground.isBetween (.word p) = false := fun _ => rfl
  unfold readUnquoted State.starts
  simp only [hbetween, Bool.and_false, Bool.false_and, Bool.or_false, Bool.false_eq_true, if_false]
  split_ifs
  · exact ⟨⟨.escaped (Or.inr ⟨rfl, n, rfl⟩), hstack, hcourse⟩, rfl⟩
  · exact ⟨hrefl _, rfl⟩
  · exact ⟨⟨.refl _, congrArg (_ :: ·) hstack, hcourse⟩, rfl⟩
  · exact ⟨hrefl _, rfl⟩
  · exact ⟨hrefl _, rfl⟩
  · exact ⟨hrefl _, rfl⟩
  · exact readOperator_like hstack hcourse hless hmore
  · refine ⟨⟨.ground ?_, hstack, hcourse⟩, rfl⟩
    simp only [Ground.after, Ground.opensTilde, Ground.numberAfter, Bool.and_false,
      Bool.false_eq_true, if_false]
    split_ifs
    · exact Or.inl rfl
    · exact Or.inl rfl
    · exact Or.inr ⟨rfl, n, rfl⟩
    · exact Or.inl rfl

theorem starts_like {s t : State} (h : s.Like t) {g g' : Ground} (hlike : g.Like g') :
    s.starts (η := η) g = t.starts g' := by
  unfold State.starts
  rw [h.course]
  rcases hlike with rfl | ⟨rfl, n, rfl⟩
  · rfl
  · rfl

theorem readEscaped_like {s t : State} (h : s.Like t) {g g' : Ground} (hlike : g.Like g')
    (c : Char) : (readEscaped (η := η) s g c).1.Like (readEscaped (η := η) t g' c).1 ∧
      (readEscaped (η := η) s g c).2 = (readEscaped t g' c).2 := by
  have hquoted : g.isQuoted = g'.isQuoted := by
    rcases hlike with rfl | ⟨rfl, n, rfl⟩ <;> rfl
  have hresumed : g.resumed = g'.resumed := by
    rcases hlike with rfl | ⟨rfl, n, rfl⟩ <;> rfl
  unfold readEscaped
  rw [hquoted, hresumed, starts_like h hlike]
  split_ifs
  · exact ⟨like_goto h hlike, rfl⟩
  · exact ⟨like_goto h hlike, rfl⟩
  · exact ⟨like_goto h (Or.inl rfl), rfl⟩

theorem readMode_like {s t : State} (h : s.Like t) {c : Char} (hclash : ¬Clashes s c) :
    (readMode (η := η) s c).1.Like (readMode (η := η) t c).1 ∧
      (readMode (η := η) s c).2 = (readMode t c).2 := by
  obtain ⟨hmode, hstack, hcourse⟩ := h
  obtain ⟨mode, stack, course⟩ := s
  obtain ⟨mode', stack', course'⟩ := t
  obtain rfl : stack = stack' := hstack
  obtain rfl : course = course' := hcourse
  cases hmode with
  | refl m => exact ⟨.refl _, rfl⟩
  | @ground g g' hlike =>
    rcases hlike with rfl | ⟨rfl, n, rfl⟩
    · exact ⟨.refl _, rfl⟩
    · have hless : c ≠ '<' := fun heq => hclash ⟨rfl, Or.inl heq⟩
      have hmore : c ≠ '>' := fun heq => hclash ⟨rfl, Or.inr heq⟩
      exact readUnquoted_like rfl rfl hless hmore
  | @escaped g g' hlike =>
    have hstates : State.Like ⟨.escaped g, stack, course⟩ ⟨.escaped g', stack, course⟩ :=
      ⟨.escaped hlike, rfl, rfl⟩
    exact readEscaped_like hstates hlike c

theorem settle_like {s t : State} (h : s.Like t) (plain : Bool) (c : Char)
    (out : List (Lexeme η)) : (s.settle plain c out).Like (t.settle plain c out) := by
  unfold State.settle
  rw [h.course]
  refine ⟨?_, h.stack, rfl⟩
  dsimp only
  split_ifs
  · exact .refl _
  · exact h.mode
  · exact .refl _
  · exact h.mode

/-- Like states read a character alike. -/
theorem step_like {s t : State} (h : s.Like t) {c : Char} (hclash : ¬Clashes s c) :
    (step (η := η) s c).1.Like (step (η := η) t c).1 ∧
      (step (η := η) s c).2 = (step t c).2 := by
  have hplain : s.mode.isPlain = t.mode.isPlain := by
    obtain ⟨mode, stack, course⟩ := s
    obtain ⟨mode', stack', course'⟩ := t
    cases h.mode with
    | refl m => rfl
    | ground hlike => rcases hlike with rfl | ⟨rfl, n, rfl⟩ <;> rfl
    | escaped hlike => rfl
  unfold step
  by_cases hnul : c = '\x00'
  · rw [if_pos hnul, if_pos hnul]
    exact ⟨⟨.refl _, h.stack, h.course⟩, rfl⟩
  · rw [if_neg hnul, if_neg hnul]
    obtain ⟨hstate, hout⟩ := readMode_like (η := η) h hclash
    dsimp only
    rw [hplain, hout]
    exact ⟨settle_like hstate _ c _, rfl⟩

end Likeness

section Filling

theorem read_append (s : State) (a b : List Char) :
    read (η := η) s (a ++ b) =
      ((read (η := η) (read (η := η) s a).1 b).1,
        (read s a).2 ++ (read (read (η := η) s a).1 b).2) := by
  induction a generalizing s with
  | nil => rfl
  | cons c a ih => simp [read, ih]

variable (value : η → List Char)

def Closed (lexemes : List (Lexeme η)) : Prop := lexemes.flatMap (Lexeme.fill value) = lexemes

theorem starts_closed (s : State) (g : Ground) : Closed value (s.starts g) := by
  unfold State.starts
  split_ifs <;> rfl

theorem glyph_fill (g : Ground) (c : Char) : (g.glyph c).fill value = [g.glyph c] := by
  have hlexeme : (∃ d, g.glyph (η := η) c = .literal d) ∨ ∃ d, g.glyph (η := η) c = .active d := by
    unfold Ground.glyph
    split
    · split_ifs
      · exact Or.inl ⟨c, rfl⟩
      · exact Or.inr ⟨c, rfl⟩
    · exact Or.inr ⟨c, rfl⟩
    · split_ifs
      · exact Or.inr ⟨c, rfl⟩
      · exact Or.inl ⟨c, rfl⟩
  rcases hlexeme with ⟨d, heq⟩ | ⟨d, heq⟩ <;> rw [heq] <;> rfl

theorem closed_append {a b : List (Lexeme η)} (ha : Closed value a) (hb : Closed value b) :
    Closed value (a ++ b) := by
  unfold Closed at *
  rw [List.flatMap_append, ha, hb]

theorem readOperator_closed (s : State) (g : Ground) (c : Char) :
    Closed value (readOperator s g c).2 := by
  unfold readOperator
  split_ifs
  · rfl
  · split <;> rfl
  · rfl

theorem readUnquoted_closed (s : State) (g : Ground) (c : Char) :
    Closed value (readUnquoted s g c).2 := by
  unfold readUnquoted
  split_ifs
  · rfl
  · exact starts_closed value s g
  · exact starts_closed value s g
  · exact closed_append value (starts_closed value s g) rfl
  · exact closed_append value (starts_closed value s g) rfl
  · rfl
  · rfl
  · exact readOperator_closed value s g c
  · refine closed_append value (starts_closed value s g) ?_
    rw [Closed, List.flatMap_singleton, glyph_fill]

theorem readGround_closed (s : State) (g : Ground) (c : Char) :
    Closed value (readGround s g c).2 := by
  unfold readGround
  split
  · unfold readDouble
    split_ifs <;> rfl
  · unfold readBrace
    split_ifs <;> rfl
  · exact readUnquoted_closed value s g c

theorem readBody_closed (s : State) (line : List Char) (escaped : Bool) (c : Char) :
    Closed value (readBody s line escaped c).2 := by
  unfold readBody
  split
  · rfl
  · split_ifs <;> rfl

theorem readMode_closed (s : State) (c : Char) : Closed value (readMode s c).2 := by
  unfold readMode
  split
  · exact readGround_closed value s _ c
  · unfold readEscaped
    split_ifs
    · rfl
    · rfl
    · exact closed_append value (starts_closed value s _) rfl
  · split_ifs <;> rfl
  · unfold readDollar
    split_ifs
    all_goals first | rfl | exact readGround_closed value _ _ c
  · split_ifs
    · rfl
    · exact readGround_closed value _ _ c
  · split_ifs
    · rfl
    · exact readUnquoted_closed value _ _ c
  · split_ifs <;> rfl
  · rfl
  · split_ifs <;> rfl
  · rfl
  · split_ifs <;> rfl
  · split_ifs
    · exact readOperator_closed value s _ c
    · rfl
  · exact readBody_closed value s _ _ c
  · rfl

theorem step_closed (s : State) (c : Char) : Closed value (step s c).2 := by
  unfold step
  split_ifs
  · rfl
  · exact readMode_closed value s c

theorem ground_of_like {s t : State} (h : s.Like t) {g : Ground} (hmode : s.mode = .ground g) :
    ∃ g', t.mode = .ground g' ∧ g.Like g' := by
  obtain ⟨hlike, -, -⟩ := h
  rw [hmode] at hlike
  cases hlike' : t.mode with
  | ground g' =>
    rw [hlike'] at hlike
    cases hlike with
    | refl => exact ⟨g, rfl, Or.inl rfl⟩
    | ground hground => exact ⟨g', rfl, hground⟩
  | _ =>
    rw [hlike'] at hlike
    cases hlike

theorem entered_like {s t : State} (h : s.Like t) {g g' : Ground} (hlike : g.Like g') :
    s.entered g = t.entered g' := by
  unfold State.entered
  rw [h.course]
  rcases hlike with rfl | ⟨rfl, n, rfl⟩
  · rfl
  · rfl

theorem plain_like {s t : State} (h : s.Like t) {g behind : Ground} (hplain : Plain s g behind) :
    ∃ g' behind', g.Like g' ∧ Plain t g' behind' ∧ ∀ g'', behind'.Like g'' → behind.Like g'' := by
  obtain ⟨hmode, hbehind, hsettled⟩ := hplain
  obtain ⟨g', hmode', hlike⟩ := ground_of_like h hmode
  rw [entered_like h hlike] at hsettled
  rcases hlike with rfl | ⟨rfl, n, rfl⟩
  · exact ⟨g, behind, Or.inl rfl, ⟨hmode', hbehind, hsettled⟩, fun _ h => h⟩
  · obtain rfl := Option.some.inj hbehind
    have hlike : (Ground.word (.plain .holes)).Like (.word (.plain n)) := Or.inr ⟨rfl, n, rfl⟩
    cases n with
    | digits => exact ⟨_, _, hlike, ⟨hmode', rfl, hsettled⟩, fun _ h => h⟩
    | holes => exact ⟨_, _, hlike, ⟨hmode', rfl, hsettled⟩, fun _ h => h⟩
    | other =>
      refine ⟨_, _, hlike, ⟨hmode', rfl, hsettled⟩, fun g'' h => ?_⟩
      rcases h with rfl | ⟨hbad, -⟩
      · exact Or.inr ⟨rfl, .other, rfl⟩
      · cases hbad

theorem behindText_like {s t : State} (h : s.Like t) {g g' : Ground} (hlike : g.Like g')
    {behind behind' : Ground} (hbehind : behind.Like behind') :
    (s.behindText g behind).Like (t.behindText g' behind') :=
  ⟨.ground hbehind, h.stack, entered_like h hlike⟩

theorem scan_hole {s last : State} {h : η} {rest : List (Symbol η)} {lexemes : List (Lexeme η)}
    (hscan : scan s (.hole h :: rest) = some (last, lexemes)) :
    ∃ g behind out, Plain s g behind ∧ scan (s.behindText g behind) rest = some (last, out) ∧
      lexemes = s.starts g ++ .hole h :: out := by
  rw [scan] at hscan
  split at hscan
  · rename_i g hmode
    split at hscan
    · rename_i behind hbehind
      split_ifs at hscan with hsettled
      obtain ⟨⟨last', out⟩, hrest, heq⟩ := Option.map_eq_some_iff.mp hscan
      obtain ⟨rfl, rfl⟩ := Prod.mk.inj heq
      exact ⟨g, behind, out, ⟨hmode, hbehind, hsettled⟩, hrest, rfl⟩
    · cases hscan
  · cases hscan

theorem scan_char {s last : State} {c : Char} {rest : List (Symbol η)} {lexemes : List (Lexeme η)}
    (hscan : scan s (.char c :: rest) = some (last, lexemes)) :
    ¬Clashes s c ∧ ∃ out, scan (step (η := η) s c).1 rest = some (last, out) ∧
      lexemes = (step s c).2 ++ out := by
  rw [scan] at hscan
  split_ifs at hscan with hclash
  obtain ⟨⟨last', out⟩, hrest, heq⟩ := Option.map_eq_some_iff.mp hscan
  obtain ⟨rfl, rfl⟩ := Prod.mk.inj heq
  exact ⟨hclash, out, hrest, rfl⟩

/-- Plain holes filled with texts that read as their values leave the lexemes around them. -/
theorem read_render {text : η → List Char} {symbols : List (Symbol η)} {s t last : State}
    {lexemes : List (Lexeme η)}
    (htext : ∀ h, .hole h ∈ lexemes → ReadsAs (η := η) (text h) (value h)) (hlike : s.Like t)
    (h : scan s symbols = some (last, lexemes)) :
    (read t (symbols.flatMap (Symbol.render text))).2 =
      lexemes.flatMap (Lexeme.fill value) ∧
    last.Like (read (η := η) t (symbols.flatMap (Symbol.render text))).1 := by
  induction symbols generalizing s t lexemes with
  | nil =>
    cases h
    exact ⟨rfl, hlike⟩
  | cons symbol rest ih =>
    rw [List.flatMap_cons]
    cases symbol with
    | char c =>
      obtain ⟨hclash, out, hrest, rfl⟩ := scan_char h
      obtain ⟨hstep, hout⟩ := step_like (η := η) hlike hclash
      obtain ⟨hlexemes, hlast⟩ :=
        ih (fun h hmem => htext h (List.mem_append_right _ hmem)) hstep hrest
      refine ⟨?_, hlast⟩
      rw [Symbol.render, List.singleton_append, read, List.flatMap_append, hout, ← hlexemes,
        step_closed value t c]
    | hole hole =>
      obtain ⟨g, behind, out, hplain, hrest, rfl⟩ := scan_hole h
      obtain ⟨g', behind', hground, hplain', hweaker⟩ := plain_like hlike hplain
      have hmem : Lexeme.hole hole ∈ s.starts g ++ .hole hole :: out :=
        List.mem_append_right _ (List.mem_cons_self ..)
      obtain ⟨g'', hafter, hread⟩ := htext hole hmem t g' behind' hplain'
      have hbehind := behindText_like hlike hground (hweaker g'' hafter)
      obtain ⟨hlexemes, hlast⟩ := ih
        (fun h hmem => htext h (List.mem_append_right _ (List.mem_cons_of_mem _ hmem)))
        hbehind hrest
      rw [Symbol.render, read_append, hread]
      refine ⟨?_, hlast⟩
      rw [hlexemes, List.flatMap_append, starts_closed, List.flatMap_cons,
        starts_like hlike hground, List.append_assoc]
      rfl

end Filling

section Quoting

/-- A quote inside single quotes: close, escape, open again. -/
def requote (c : Char) : List Char := if c = '\'' then ['\'', '\\', '\'', '\''] else [c]

theorem follow_starts (s : State) (g : Ground) (plain : Bool) :
    (s.starts (η := η) g).foldl (Course.follow plain) s.course = s.entered g := by
  unfold State.starts State.entered
  split_ifs <;> rfl

theorem follow_literals {r : Course} (hsettled : r.isSettled = true) (plain : Bool)
    (chars : List Char) :
    (chars.map (Lexeme.literal (η := η))).foldl (Course.follow plain) r = r := by
  induction chars with
  | nil => rfl
  | cons c chars ih => rw [List.map_cons, List.foldl_cons, Course.follow_literal_settled hsettled, ih]

theorem literals_noNewline (s : State) (g : Ground) (chars : List Char) :
    (s.starts (η := η) g ++ chars.map Lexeme.literal).any Lexeme.isNewline = false := by
  have hchars : (chars.map (Lexeme.literal (η := η))).any Lexeme.isNewline = false := by
    rw [List.any_map]
    exact List.any_eq_false.mpr fun c _ => Bool.false_ne_true
  rw [List.any_append, hchars, Bool.or_false]
  unfold State.starts
  split_ifs <;> rfl

theorem step_literals {s : State} {c : Char} {mode : Mode} (g : Ground) (chars : List Char)
    (hnul : c ≠ '\x00') (hsettled : (s.entered g).isSettled = true)
    (hread : readMode (η := η) s c = (s.goto mode, s.starts g ++ chars.map .literal)) :
    step (η := η) s c =
      ({ s with mode, course := s.entered g }, s.starts g ++ chars.map .literal) := by
  have hfollow : (s.starts (η := η) g ++ chars.map Lexeme.literal).foldl
      (Course.follow s.mode.isPlain) s.course = s.entered g := by
    rw [List.foldl_append, follow_starts, follow_literals hsettled]
  have hcourse : (s.goto mode).course = s.course := rfl
  unfold step
  rw [if_neg hnul, hread]
  dsimp only [State.settle]
  rw [hcourse, hfollow, Course.quote_settled hsettled, ite_self, literals_noNewline]
  rfl

theorem read_requote {s : State} (hsettled : s.course.isSettled = true) {c : Char}
    (hnul : c ≠ '\x00') :
    read (η := η) (s.goto (.single (.word (.plain .other)))) (requote c) =
      (s.goto (.single (.word (.plain .other))), [.literal c]) := by
  by_cases hquote : c = '\''
  · subst hquote
    have hclose : step (η := η) (s.goto (.single (.word (.plain .other)))) '\'' =
        (s.goto (.ground (.word (.plain .other))), []) :=
      step_literals (.word (.plain .other)) [] (by decide) hsettled rfl
    have hescape : step (η := η) (s.goto (.ground (.word (.plain .other)))) '\\' =
        (s.goto (.escaped (.word (.plain .other))), []) :=
      step_literals (.word (.plain .other)) [] (by decide) hsettled rfl
    have hescaped : step (η := η) (s.goto (.escaped (.word (.plain .other)))) '\'' =
        (s.goto (.ground (.word (.plain .other))), [.literal '\'']) :=
      step_literals (.word (.plain .other)) ['\''] (by decide) hsettled rfl
    have hopen : step (η := η) (s.goto (.ground (.word (.plain .other)))) '\'' =
        (s.goto (.single (.word (.plain .other))), []) :=
      step_literals (.word (.plain .other)) [] (by decide) hsettled rfl
    rw [requote, if_pos rfl]
    simp only [read, hclose, hescape, hescaped, hopen]
    rfl
  · have hone : readMode (η := η) (s.goto (.single (.word (.plain .other)))) c =
        (s.goto (.single (.word (.plain .other))), [.literal c]) := by
      unfold readMode
      exact if_neg hquote
    have hstep : step (η := η) (s.goto (.single (.word (.plain .other)))) c =
        (s.goto (.single (.word (.plain .other))), [.literal c]) :=
      step_literals (.word (.plain .other)) [c] hnul hsettled hone
    rw [requote, if_neg hquote]
    simp only [read, hstep]
    rfl

theorem read_quoted {s : State} (hsettled : s.course.isSettled = true) {value : List Char}
    (hnul : '\x00' ∉ value) :
    read (η := η) (s.goto (.single (.word (.plain .other)))) (value.flatMap requote ++ ['\'']) =
      (s.goto (.ground (.word (.plain .other))), value.map .literal) := by
  induction value with
  | nil =>
    have hclose : step (η := η) (s.goto (.single (.word (.plain .other)))) '\'' =
        (s.goto (.ground (.word (.plain .other))), []) :=
      step_literals (.word (.plain .other)) [] (by decide) hsettled rfl
    rw [List.flatMap_nil, List.nil_append, read, hclose]
    rfl
  | cons c value ih =>
    have hc : c ≠ '\x00' := fun heq => hnul (heq ▸ List.mem_cons_self ..)
    have hvalue : '\x00' ∉ value := fun hmem => hnul (List.mem_cons_of_mem c hmem)
    rw [List.flatMap_cons, List.append_assoc, read_append, read_requote hsettled hc, ih hvalue]
    rfl

end Quoting

end ShellTokens
