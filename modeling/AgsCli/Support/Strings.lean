import Mathlib.Algebra.Order.Ring.Int
import Mathlib.Data.String.Basic

/-! # Name transforms

The rewrite passes of `to_kebab_case` over characters, and Rust's unsigned decimal parser. -/
namespace Strings

/-- Leftmost, non-overlapping rewriting: `rule` answers the replacement of a match at the head
and the match's length; `skip` characters still belong to the last match. -/
def rewriteAll (rule : List Char → Option (List Char × Nat)) : Nat → List Char → List Char
  | _, [] => []
  | skip + 1, _ :: rest => rewriteAll rule skip rest
  | 0, c :: rest =>
    match rule (c :: rest) with
    | some (replacement, length) => replacement ++ rewriteAll rule (length - 1) rest
    | none => c :: rewriteAll rule 0 rest

def literalRule (pattern replacement : List Char) (s : List Char) : Option (List Char × Nat) :=
  if pattern.isPrefixOf s then some (replacement, pattern.length) else none

def acronymReplacements : List (String × String) :=
  [("IDs", "Ids"), ("URLs", "Urls"), ("APIs", "Apis"), ("QoS", "Qos"), ("S2S", "S2s")]

def isAsciiLower (c : Char) : Bool := 'a' ≤ c && c ≤ 'z'
def isAsciiUpper (c : Char) : Bool := 'A' ≤ c && c ≤ 'Z'
def isAsciiDigit (c : Char) : Bool := '0' ≤ c && c ≤ '9'

def connectors : List (List Char) := ["by", "for", "from", "with"].map String.toList

/-- `([a-z]{3})(by|for|from|with)([A-Z])` to `$1-$2-$3`. -/
def connectorRule : List Char → Option (List Char × Nat)
  | a :: b :: c :: rest =>
    if isAsciiLower a && isAsciiLower b && isAsciiLower c then
      connectors.findSome? fun word =>
        if word.isPrefixOf rest then
          match rest.drop word.length with
          | u :: _ =>
            if isAsciiUpper u then
              some ([a, b, c] ++ ['-'] ++ word ++ ['-'] ++ [u], word.length + 4)
            else none
          | [] => none
        else none
    else none
  | _ => none

/-- `([a-z0-9])([A-Z])` to `$1-$2`. -/
def lowerUpperRule : List Char → Option (List Char × Nat)
  | a :: b :: _ =>
    if (isAsciiLower a || isAsciiDigit a) && isAsciiUpper b then some ([a, '-', b], 2) else none
  | _ => none

/-- `([A-Z]+)([A-Z][a-z])` to `$1-$2`: only a maximal upper-case run can match. -/
def acronymRule (s : List Char) : Option (List Char × Nat) :=
  let run := s.takeWhile isAsciiUpper
  match s.drop run.length with
  | l :: _ =>
    if 2 ≤ run.length && isAsciiLower l then
      some (run.dropLast ++ ['-'] ++ run.drop (run.length - 1) ++ [l], run.length + 1)
    else none
  | [] => none

def kebabWords (name : String) : List Char :=
  let s := name.toList.map fun c => if c = '_' then '-' else c
  let s := acronymReplacements.foldl
    (fun s r => rewriteAll (literalRule r.1.toList r.2.toList) 0 s) s
  let s := rewriteAll connectorRule 0 s
  let s := rewriteAll lowerUpperRule 0 s
  rewriteAll acronymRule 0 s

/-- The kebab-case name a prompt shows: letters outside ASCII keep their case. -/
def kebabLabel (name : String) : String := String.ofList ((kebabWords name).map Char.toLower)

example : ["GetUserIDs", "getUserbyId", "S2SToken", "user_id"].map kebabLabel =
    ["get-user-ids", "get-user-by-id", "s2s-token", "user-id"] := by decide

def decimal? : List Char → Option Nat
  | [] => none
  | cs => cs.foldl (fun acc c => do
      let n ← acc
      if isAsciiDigit c then some (n * 10 + (c.toNat - '0'.toNat)) else none) (some 0)

/-- `str::parse::<usize>` on a 64-bit target: an optional `+`, then digits that fit. -/
def parseUsize (s : List Char) : Option Nat :=
  let digits := match s with
    | '+' :: rest => rest
    | _ => s
  match decimal? digits with
  | some n => if n < 2 ^ 64 then some n else none
  | none => none

def asciiLower (s : String) : String :=
  String.ofList (s.toList.map fun c => if isAsciiUpper c then c.toLower else c)

def uncountable : List String := ["qos", "iap-oculus"]

def stripSuffix? (suffix s : String) : Option String :=
  if suffix.toList.isSuffixOf s.toList then
    some (String.ofList (s.toList.take (s.toList.length - suffix.toList.length)))
  else none

def stripPrefix? (start s : String) : Option String :=
  if start.toList.isPrefixOf s.toList then
    some (String.ofList (s.toList.drop start.toList.length))
  else none

def kebabCaseToWords (name : String) : String :=
  String.ofList (name.toList.map fun c => if c = '-' then ' ' else c)

def endsWith (suffix s : String) : Bool := suffix.toList.isSuffixOf s.toList

def singularize (name : String) : String :=
  if uncountable.any fun word => asciiLower word = asciiLower name then name
  else match stripSuffix? "ies" name with
    | some stem => stem ++ "y"
    | none => match (stripSuffix? "es" name).filter (endsWith "s") with
      | some stem => stem
      | none => match (stripSuffix? "s" name).filter fun stem => !endsWith "s" stem with
        | some stem => stem
        | none => name

def pluralize (noun : String) (count : Nat) : String :=
  if count = 1 then singularize noun
  else if ["sh", "ch", "x", "z", "ss", "us"].any fun suffix => endsWith suffix noun then
    noun ++ "es"
  else if endsWith "s" noun then noun
  else match stripSuffix? "y" noun with
    | none => noun ++ "s"
    | some stem => match stem.toList.getLast? with
      | none => noun ++ "s"
      | some c => if "aeiou".toList.contains c then noun ++ "s" else stem ++ "ies"

def parseU32 (s : List Char) : Option Nat := (parseUsize s).filter (· < 2 ^ 32)

def asciiUpper (s : String) : String :=
  String.ofList (s.toList.map fun c => if isAsciiLower c then c.toUpper else c)

/-- The Unicode `White_Space` property. -/
def isWhiteSpace (c : Char) : Bool :=
  (9 ≤ c.toNat && c.toNat ≤ 13) || (0x2000 ≤ c.toNat && c.toNat ≤ 0x200A) ||
    [0x20, 0x85, 0xA0, 0x1680, 0x2028, 0x2029, 0x202F, 0x205F, 0x3000].contains c.toNat

def trim (s : String) : String :=
  String.ofList ((s.toList.dropWhile isWhiteSpace).reverse.dropWhile isWhiteSpace).reverse

/-- `s.split(sep)`. -/
def splitOn (sep : Char) (s : String) : List String := (s.toList.splitOn sep).map String.ofList

def splitOnce (sep : Char) (s : String) : Option (String × String) :=
  let front := s.toList.takeWhile (· ≠ sep)
  match s.toList.drop front.length with
  | [] => none
  | _ :: back => some (String.ofList front, String.ofList back)

def trimEndMatches (c : Char) (s : String) : String :=
  String.ofList (s.toList.reverse.dropWhile (· = c)).reverse

def join (sep : String) : List String → String
  | [] => ""
  | [s] => s
  | s :: t :: rest => s ++ sep ++ join sep (t :: rest)

theorem toList_join_cons (sep : String) (c : Char) (hsep : sep.toList = [c]) (s t : String)
    (rest : List String) : (join sep (s :: t :: rest)).toList =
      s.toList ++ c :: (join sep (t :: rest)).toList := by
  rw [join]
  simp [hsep]

def isAsciiLetter (c : Char) : Bool := isAsciiLower c || isAsciiUpper c

def ansiRule : List Char → Option (List Char × Nat)
  | '\x1b' :: '[' :: rest =>
    let codes := rest.takeWhile fun c => isAsciiDigit c || c = ';'
    match rest.drop codes.length with
    | c :: _ => if isAsciiLetter c then some ([], codes.length + 3) else none
    | [] => none
  | '\x1b' :: ']' :: rest =>
    let text := rest.takeWhile fun c => c ≠ '\x07' && c ≠ '\x1b'
    match rest.drop text.length with
    | '\x07' :: _ => some ([], text.length + 3)
    | '\x1b' :: '\\' :: _ => some ([], text.length + 4)
    | _ => none
  | _ => none

def stripTerminalControlSequences (value : String) : String :=
  String.ofList ((rewriteAll ansiRule 0 value.toList).filter fun c =>
    c = '\n' || c = '\t' || (' ' ≤ c && c ≠ '\x7f'))

example : stripTerminalControlSequences "\x1b[1;31mred\x1b[0m \x1b]0;t\x07x\x1b" = "red x" := by
  decide

end Strings
