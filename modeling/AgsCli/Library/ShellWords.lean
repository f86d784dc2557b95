import Mathlib.Data.List.Basic
import Mathlib.Tactic.Common

/-! # Words of a shell command

What the shell keeps of the tokens it has read: where the next word stands, and which
here-documents are open. A word in some positions is looked up as a reserved word or an alias. -/
namespace ShellTokens

/-- What a character is: the begin of a word, looked up or not, or a part of one, literal or
subject to expansion; an operator, behind a number or not; a blank; text of a here-document.
Command substitutions are bracketed. -/
inductive Lexeme (η : Type*)
  | begin (looked : Bool)
  | literal (c : Char)
  | active (c : Char)
  | hole (h : η)
  | opens
  | closes
  | operator (c : Char) (number : Bool)
  | gap
  | document (c : Char)
  deriving DecidableEq, Repr

variable {η : Type*}

def isDigit (c : Char) : Bool := '0' ≤ c && c ≤ '9'

def isNameStart (c : Char) : Bool :=
  ('a' ≤ c && c ≤ 'z') || ('A' ≤ c && c ≤ 'Z') || c = '_'

def isNameChar (c : Char) : Bool := isNameStart c || isDigit c

def isName : List Char → Bool
  | [] => false
  | c :: rest => isNameStart c && rest.all isNameChar

inductive Position
  | command
  | argument
  | loopName
  | loopIn
  | caseWord
  | caseIn
  | pattern
  | patternRest
  deriving DecidableEq, Repr

/-- A word so far: none, a bare one that is looked up, an assignment, any other. -/
inductive Text
  | nothing
  | bare (chars : List Char)
  | assignment
  | other
  deriving DecidableEq, Repr

def commandOpeners : List String :=
  ["!", "\x7b", "\x7d", "do", "done", "elif", "else", "esac", "fi", "if", "then", "until", "while"]

namespace Position

def looks : Position → Bool
  | .command | .loopIn | .caseIn | .pattern => true
  | _ => false

def isPattern : Position → Bool
  | .pattern | .patternRest => true
  | _ => false

def behind : Position → Text → Position
  | .command, .bare chars =>
    if chars = "for".toList then .loopName
    else if chars = "case".toList then .caseWord
    else if (commandOpeners.map String.toList).contains chars then .command
    else .argument
  | .command, .assignment => .command
  | .loopName, _ => .loopIn
  | .loopIn, .bare chars => if chars = "do".toList then .command else .argument
  | .caseWord, _ => .caseIn
  | .caseIn, .bare chars => if chars = "in".toList then .pattern else .argument
  | .pattern, .bare chars => if chars = "esac".toList then .command else .patternRest
  | .pattern, _ | .patternRest, _ => .patternRest
  | _, _ => .argument

def behindOperator (p : Position) (before : Option Char) (c : Char) : Position :=
  if before = some ';' && (c = ';' || c = '&') then .pattern
  else
    match p with
    | .loopIn | .caseIn => if c = '\n' then p else .command
    | .pattern =>
      if c = '\n' || c = '(' then .pattern else if c = '|' then .patternRest else .command
    | .patternRest => if c = '|' then .patternRest else .command
    | _ => .command

end Position

/-- The position of a word, whether it is the file of a redirection, and the word so far. -/
structure Place where
  position : Position
  redirected : Bool
  text : Text
  deriving DecidableEq, Repr

namespace Place

def start : Place := ⟨.command, false, .nothing⟩

def looks (p : Place) : Bool := !p.redirected && p.position.looks

def enter (p : Place) : Place := { p with text := if p.looks then .bare [] else .other }

def isBare (p : Place) : Bool :=
  match p.text with
  | .bare _ => true
  | _ => false

def quote (p : Place) : Place := if p.isBare then { p with text := .other } else p

/-- One more character; a bare name in front of `=` is an assignment. -/
def take (p : Place) (c : Char) : Place :=
  match p.text with
  | .bare chars =>
    { p with text := if c = '=' && isName chars then .assignment else .bare (chars ++ [c]) }
  | _ => p

def leave (p : Place) : Place :=
  match p.text with
  | .nothing => p
  | text =>
    { position := if p.redirected then p.position else p.position.behind text
      redirected := false
      text := .nothing }

/-- Behind an operator; a number in front of a redirection is no word. -/
def operator (p : Place) (before : Option Char) (c : Char) (number : Bool) : Place :=
  let p := if number then { p with text := .nothing } else p.leave
  if c = '<' || c = '>' then { p with redirected := true }
  else if (before = some '<' && (c = '&' || c = '-')) ||
      (before = some '>' && (c = '&' || c = '|')) then p
  else ⟨p.position.behindOperator before c, false, .nothing⟩

end Place

/-- A here-document: its delimiter, whether that is quoted, whether leading tabs go. -/
structure Document where
  delimiter : List Char
  quoted : Bool
  tabs : Bool
  deriving DecidableEq, Repr

namespace Document

def isNamed (d : Document) : Bool := d.quoted || !d.delimiter.isEmpty

def take (d : Document) (c : Char) : Document := { d with delimiter := d.delimiter ++ [c] }

def quote (d : Document) : Document := { d with quoted := true }

def endsAt (d : Document) (line : List Char) : Bool :=
  (if d.tabs then line.dropWhile (· = '\t') else line) = d.delimiter

end Document

/-- `outer` has the places outside the open command substitutions; `before` is an operator directly
before; `here` is the here-document whose delimiter is read, `pending` those whose text is to
come. -/
structure Course where
  place : Place
  outer : List Place
  before : Option Char
  here : Option Document
  pending : List Document
  deriving DecidableEq, Repr

namespace Course

def start : Course := ⟨.start, [], none, none, []⟩

/-- Directly behind the `<<` of a here-document. -/
def opensHere (r : Course) : Bool := r.here.isSome && r.before = some '<'

def enter (r : Course) : Course := { r with place := r.place.enter, before := none }

def quote (r : Course) : Course :=
  { r with place := r.place.quote, here := r.here.map Document.quote }

/-- Behind the delimiter of a here-document, if there is one. -/
def finish (r : Course) : Course :=
  match r.here with
  | some d => if d.isNamed then { r with here := none, pending := r.pending ++ [d] } else r
  | none => r

def operator (r : Course) (c : Char) (number : Bool) : Course :=
  { r with
    place := r.place.operator r.before c number
    before := some c
    here :=
      match r.here with
      | some d => some (if c = '-' then { d with tabs := true } else d)
      | none => if r.before = some '<' && c = '<' then some ⟨[], false, false⟩ else none }

/-- The course behind a lexeme; `plain` tells that a literal stands without quotes. -/
def follow (plain : Bool) (r : Course) : Lexeme η → Course
  | .begin _ => r.enter
  | .literal c =>
    let r := if plain then r else r.quote
    { r with place := r.place.take c, here := r.here.map (·.take c) }
  | .active c => { r with place := r.place.quote, here := r.here.map (·.take c) }
  | .opens =>
    { r with place := .start, outer := r.place :: r.outer, here := r.here.map (·.take '(') }
  | .closes =>
    { r with
      place := r.outer.headD ⟨.argument, false, .other⟩
      outer := r.outer.tail
      before := none
      here := r.here.map (·.take ')') }
  | .operator c number => r.finish.operator c number
  | .gap => { r.finish with place := r.place.leave, before := none }
  | .hole _ | .document _ => r

/-- No bare word and no delimiter of a here-document: nothing that a literal changes. -/
def isSettled (r : Course) : Bool := r.here.isNone && !r.place.isBare

theorem quote_settled {r : Course} (h : r.isSettled = true) : r.quote = r := by
  obtain ⟨place, outer, before, here, pending⟩ := r
  simp only [isSettled, Bool.and_eq_true, Option.isNone_iff_eq_none, Bool.not_eq_true'] at h
  obtain ⟨rfl, hbare⟩ := h
  simp [quote, Place.quote, hbare]

theorem follow_literal_settled {r : Course} (h : r.isSettled = true) (plain : Bool) (c : Char) :
    r.follow (η := η) plain (.literal c) = r := by
  have hquoted : (if plain then r else r.quote) = r := by
    rw [quote_settled h, ite_self]
  obtain ⟨⟨position, redirected, text⟩, outer, before, here, pending⟩ := r
  simp only [isSettled, Bool.and_eq_true, Option.isNone_iff_eq_none, Bool.not_eq_true'] at h
  obtain ⟨rfl, hbare⟩ := h
  have htake : Place.take ⟨position, redirected, text⟩ c = ⟨position, redirected, text⟩ := by
    cases text with
    | bare chars => cases hbare
    | nothing | assignment | other => rfl
  simp only [follow, hquoted, htake, Option.map_none]

end Course

end ShellTokens
