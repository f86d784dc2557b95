import AgsCli.Support.Casing
import AgsCli.Support.Strings
import AgsCli.Library.ByteSlices

/-! # Help texts

The texts of the help tree: summaries cut at a byte, descriptions rid of their markup and broken
between sentences. A slice inside a character has no result. -/
namespace DisplayText

open ByteSlices Casing Strings
open String (utf8Len)

section Pieces

/-- `char_indices`, from a byte offset on. -/
def charIndices (index : Nat) : List Char → List (Nat × Char)
  | [] => []
  | c :: rest => (index, c) :: charIndices (index + c.utf8Size) rest

def sliceFrom (start : Nat) (text : List Char) : Option (List Char) := (cut start text).map (·.2)

def slice (start stop : Nat) (text : List Char) : Option (List Char) :=
  if start ≤ stop then (cut stop text).bind fun parts => sliceFrom start parts.1 else none

def trimStart (text : List Char) : List Char := text.dropWhile isWhiteSpace

def trimEnd (text : List Char) : List Char := (text.reverse.dropWhile isWhiteSpace).reverse

def stripReturn (line : List Char) : List Char :=
  if line.getLast? = some '\r' then line.dropLast else line

/-- `str::lines`: a return belongs to the line end it is in front of. -/
def lines (text : List Char) : List (List Char) :=
  match (text.splitOn '\n').reverse with
  | [] => []
  | last :: others => (others.map stripReturn).reverse ++ (if last = [] then [] else [last])

/-- `str::split` at a text; `skip` characters still belong to the last separator. -/
def splitText (sep : List Char) : Nat → List Char → List (List Char)
  | _, [] => [[]]
  | skip + 1, _ :: rest => splitText sep skip rest
  | 0, c :: rest =>
    if sep.isPrefixOf (c :: rest) then [] :: splitText sep (sep.length - 1) rest
    else match splitText sep 0 rest with
      | piece :: pieces => (c :: piece) :: pieces
      | [] => [[c]]

def joinWith (sep : List Char) (pieces : List (List Char)) : List Char := sep.intercalate pieces

def replace (pattern replacement : String) (text : List Char) : List Char :=
  rewriteAll (literalRule pattern.toList replacement.toList) 0 text

def bullet : List Char := ['-', ' ']

end Pieces

def truncateSummary (text : List Char) (maxLen : Nat) : Option (List Char) :=
  if utf8Len text ≤ maxLen then some text
  else if maxLen < 3 then none
  else (cut (maxLen - 3) text).map fun parts => trimEnd parts.1 ++ "...".toList

section Markup

def trimHeadingPrefix (line : List Char) : List Char :=
  let trimmed := trimStart line
  if trimmed.head? = some '#' then
    let afterHashes := trimmed.dropWhile (· = '#')
    if afterHashes.head? = some ' ' then trimStart afterHashes else line
  else line

/-- A link whose label opens at an offset, as it is shown, and the offset of its last byte. -/
def linkAt (text : List Char) (index : Nat) : Option (Option (List Char × Nat)) := do
  let label ← sliceFrom (index + 1) text
  match find [']'] label with
  | none => return none
  | some length =>
    let bracketEnd := index + 1 + length
    if slice (bracketEnd + 1) (bracketEnd + 2) text = some ['('] then
      let target ← sliceFrom (bracketEnd + 2) text
      match find [')'] target with
      | none => return none
      | some length =>
        let parenEnd := bracketEnd + 2 + length
        let linkText ← slice (index + 1) bracketEnd text
        let url ← slice (bracketEnd + 2) parenEnd text
        return some (linkText ++ " (".toList ++ url ++ [')'], parenEnd)
    else return none

/-- The loop of `convert_markdown_links`; characters before the offset `until_` are shown. -/
def linksFrom (text : List Char) (until_ : Nat) : List (Nat × Char) → Option (List Char)
  | [] => some []
  | (index, c) :: rest =>
    if index < until_ then linksFrom text until_ rest
    else if c = '[' then do
      match ← linkAt text index with
      | some (shown, parenEnd) => return shown ++ (← linksFrom text (parenEnd + 1) rest)
      | none => return c :: (← linksFrom text until_ rest)
    else do return c :: (← linksFrom text until_ rest)

def convertMarkdownLinks (text : List Char) : Option (List Char) :=
  linksFrom text 0 (charIndices 0 text)

def collapseInnerSpaces (previousSpace : Bool) : List Char → List Char
  | [] => []
  | c :: rest =>
    if c = ' ' then
      if previousSpace then collapseInnerSpaces true rest else ' ' :: collapseInnerSpaces true rest
    else c :: collapseInnerSpaces false rest

def collapseSpaces (line : List Char) : Option (List Char) :=
  let trimmed := trimStart line
  if bullet.isPrefixOf trimmed then
    if utf8Len line < utf8Len trimmed then none
    else (cut (utf8Len line - utf8Len trimmed) line).map fun parts =>
      parts.1 ++ collapseInnerSpaces false trimmed
  else some (collapseInnerSpaces false line)

/-- The lines of a paragraph: bullets on their own, what is between them joined. -/
def paragraphLines (proseBuffer : List (List Char)) :
    List (List Char) → Option (List (List Char))
  | [] => some (if proseBuffer = [] then [] else [joinWith [' '] proseBuffer])
  | line :: rest => do
    let trimmed ← convertMarkdownLinks (trimHeadingPrefix (trimEnd (trimStart line)))
    if bullet.isPrefixOf trimmed then
      let flushed := if proseBuffer = [] then [] else [joinWith [' '] proseBuffer]
      return flushed ++ trimmed :: (← paragraphLines [] rest)
    else paragraphLines (proseBuffer ++ [trimmed]) rest

def entities : List (String × String) :=
  [("&#39;", "'"), ("&#34;", "\""), ("&amp;", "&"), ("&lt;", "<"), ("&gt;", ">"),
    ("&quot;", "\""), ("**", ""), ("__", ""), ("\t", "  ")]

/-- `normalize_description` up to its last step. -/
def flatten (text : List Char) : Option (List Char) := do
  let text := entities.foldl (fun text r => replace r.1 r.2 text) text
  let paragraphs ← (splitText ['\n', '\n'] 0 text).mapM fun paragraph => do
    return joinWith ['\n'] (← paragraphLines [] (lines paragraph))
  let collapsed ← (lines (joinWith ['\n', '\n'] paragraphs)).mapM collapseSpaces
  return joinWith ['\n'] collapsed

def actionCode : List Char := "action code".toList

variable (table : CaseTable)

def stripActionCode (text : List Char) : Option (List Char) :=
  match find actionCode (toLowercase table text) with
  | some position => (cut position text).map fun parts => trimEnd parts.1
  | none => some text

def normalizeDescription (text : List Char) : Option (List Char) := do
  stripActionCode table (← flatten text)

end Markup

section Sentences

variable (table : CaseTable)

/-- A space and a capital come next. -/
def startsSentence : List (Nat × Char) → Bool
  | (_, space) :: (_, c) :: _ => space = ' ' && table.isUppercase c
  | _ => false

def distanceFrom (length : Nat) : List (Nat × Char) → Nat
  | [] => length
  | (index, c) :: rest =>
    if c = '.' && startsSentence table rest then index + c.utf8Size else distanceFrom length rest

def distanceToSentenceEnd (text : List Char) : Nat :=
  distanceFrom table (utf8Len text) (charIndices 0 text)

/-- The loop over a long line. -/
def sentencesFrom (line : List Char) (skipSpace : Bool) (currentLine : List Char) :
    List (Nat × Char) → Option (List (List Char))
  | [] => some (if currentLine = [] then [] else [currentLine])
  | (_, c) :: rest =>
    if skipSpace then sentencesFrom line false currentLine rest
    else
      let currentLine := currentLine ++ [c]
      if c = '.' && startsSentence table rest && 40 < utf8Len currentLine then
        match rest with
        | _ :: (next, _) :: _ => do
          let remainder ← sliceFrom next line
          if utf8Len currentLine + distanceToSentenceEnd table remainder ≤ 120 then
            sentencesFrom line false currentLine rest
          else return currentLine :: (← sentencesFrom line true [] rest)
        | _ => sentencesFrom line false currentLine rest
      else sentencesFrom line false currentLine rest

def splitLongSentences (text : List Char) : Option (List Char) := do
  let result ← (lines text).mapM fun line =>
    if bullet.isPrefixOf (trimStart line) || utf8Len line ≤ 120 then some [line]
    else sentencesFrom table line false [] (charIndices 0 line)
  return joinWith ['\n'] result.flatten

end Sentences

end DisplayText
