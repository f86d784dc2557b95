import AgsCli.Support.Strings

/-! # The upload directory

The local half of an upload: file trees with links, the checks of the entrypoint, and the walk
that selects what is archived. The two look files up by different rules. -/
namespace UploadDirectory

open Strings

section Files

/-- A character of a file name, or a stretch of it that is not UTF-8. -/
inductive Glyph
  | char (c : Char)
  | invalid (bytes : List UInt8)
  deriving DecidableEq, Repr

abbrev Name := List Glyph

def nameOf (s : String) : Name := s.toList.map .char

/-- `to_string_lossy`. -/
def Glyph.lossy : Glyph → Char
  | .char c => c
  | .invalid _ => '\uFFFD'

def lossy (name : Name) : String := String.ofList (name.map Glyph.lossy)

/-- `Path::extension`: what follows the last dot, unless nothing is before it. -/
def extension (name : Name) : Option Name :=
  match name.reverse.dropWhile (· ≠ .char '.') with
  | [] | [_] => none
  | _ => some (name.reverse.takeWhile (· ≠ .char '.')).reverse

structure FileName where
  glyphs : Name
  nonempty : glyphs ≠ []
  slashless : .char '/' ∉ glyphs
  notDot : glyphs ≠ nameOf "."
  notDotDot : glyphs ≠ nameOf ".."
  deriving DecidableEq

structure Content where
  bytes : List UInt8
  failure : Option String

inductive Stat
  | directory
  | file (content : Content)

/-- A directory behind a link: what the paths below it name, and what `read_dir` lists there. -/
structure View where
  stat : List Name → Option Stat
  names : List Name → Except String (List Name)

inductive Target
  | dangling
  | file (content : Content)
  | directory (view : View)

inductive Listing
  | nil
  | file (name : FileName) (content : Content) (rest : Listing)
  | link (name : FileName) (target : Target) (rest : Listing)
  | directory (name : FileName) (children rest : Listing)

namespace Listing

def names : Listing → List FileName
  | nil => []
  | file name _ rest => name :: rest.names
  | link name _ rest => name :: rest.names
  | directory name _ rest => name :: rest.names

def Apart : Listing → Prop
  | nil => True
  | file name _ rest => name ∉ rest.names ∧ rest.Apart
  | link name _ rest => name ∉ rest.names ∧ rest.Apart
  | directory name children rest => name ∉ rest.names ∧ children.Apart ∧ rest.Apart

end Listing

structure Tree where
  listing : Listing
  apart : listing.Apart

inductive Found
  | file (content : Content)
  | link (target : Target)
  | directory (children : Listing)

end Files

section Lookup

-- which names a file system takes for one another: on Windows and macOS, not only equal ones
variable (same : Name → Name → Bool)

def Listing.find? (name : Name) : Listing → Option Found
  | .nil => none
  | .file other content rest =>
    if same name other.glyphs then some (.file content) else rest.find? name
  | .link other target rest =>
    if same name other.glyphs then some (.link target) else rest.find? name
  | .directory other children rest =>
    if same name other.glyphs then some (.directory children) else rest.find? name

def stat : List Name → Listing → Option Stat
  | [], _ => some .directory
  | name :: rest, listing =>
    match listing.find? same name with
    | none => none
    | some (.file content) => if rest = [] then some (.file content) else none
    | some (.link .dangling) => none
    | some (.link (.file content)) => if rest = [] then some (.file content) else none
    | some (.link (.directory view)) => view.stat rest
    | some (.directory children) => stat rest children

def readDir : List Name → Listing → Except String (List Name)
  | [], listing => .ok (listing.names.map (·.glyphs))
  | name :: rest, listing =>
    match listing.find? same name with
    | some (.directory children) => readDir rest children
    | some (.link (.directory view)) => view.names rest
    | some _ => .error "Not a directory (os error 20)"
    | none => .error "No such file or directory (os error 2)"

end Lookup

/-- The errors of `AmsUploadError` met before the network is. -/
inductive UploadError
  | imageNameTooShort (min : Nat)
  | imageNameTooLong (max : Nat)
  | directoryMissing (directory : String)
  | directoryNotADirectory (directory : String)
  | directoryEmpty (directory : String)
  | executableMissing (typed : String)
  | executableIsDirectory (typed : String)
  | executableWrongCase (typed : String)
  | executableOutsideDirectory (typed : String)
  | executableNotAcceptedBinary
  | shellScriptNeedsTargetArchitecture
  | shellScriptInvalid (path reason : String)
  | architectureMismatch (requested detected : String)
  | io (context source : String)
  deriving DecidableEq, Repr

inductive TargetArchitecture
  | linuxX86_64
  | linuxArm64
  deriving DecidableEq, Repr

def TargetArchitecture.wireValue : TargetArchitecture → String
  | .linuxX86_64 => "linux-x86_64"
  | .linuxArm64 => "linux-arm_64"

inductive EntrypointKind
  | shellScript
  | elfBinary
  deriving DecidableEq, Repr

structure ResolvedEntrypoint where
  kind : EntrypointKind
  architecture : TargetArchitecture
  command : String
  deriving DecidableEq, Repr

structure UploadRequest where
  directory : String
  executable : String
  imageName : String
  targetArchitecture : Option TargetArchitecture
  includeSymbolFiles : Bool
  skipScriptValidation : Bool

def joinPath (directory rest : String) : String :=
  if endsWith "/" directory then directory ++ rest else directory ++ "/" ++ rest

section Entrypoint

def imageNameMinLength : Nat := 3
def imageNameMaxLength : Nat := 128

def validateImageName (name : String) : Except UploadError Unit :=
  if name.utf8ByteSize < imageNameMinLength then .error (.imageNameTooShort imageNameMinLength)
  else if imageNameMaxLength < name.utf8ByteSize then
    .error (.imageNameTooLong imageNameMaxLength)
  else .ok ()

/-- The segments left of a path once `.` and `..` are worked off; `none` above its start. -/
def launchSegments (segments : List String) : List String → Option (List String)
  | [] => some segments
  | segment :: rest =>
    if segment = "" ∨ segment = "." then launchSegments segments rest
    else if segment = ".." then
      if segments = [] then none else launchSegments segments.dropLast rest
    else launchSegments (segments ++ [segment]) rest

def relativeLaunchCommand (executable : String) : Except UploadError String :=
  let normalised := String.ofList (executable.toList.map fun c => if c = '\\' then '/' else c)
  if trim normalised = "" then .error (.executableMissing executable)
  else if ['/'].isPrefixOf normalised.toList then .error (.executableOutsideDirectory executable)
  else
    match launchSegments [] (splitOn '/' normalised) with
    | none => .error (.executableOutsideDirectory executable)
    | some [] => .error (.executableMissing executable)
    | some segments => .ok ("./" ++ join "/" segments)

def trimDotSlash : List Char → List Char
  | '.' :: '/' :: rest => trimDotSlash rest
  | s => s

def components (path : String) : List String :=
  (splitOn '/' path).filter fun segment => segment ≠ "" && segment ≠ "."

/-- Where the command's file is looked for, below the directory. -/
def executableSegments (command : String) : List Name :=
  (components (String.ofList (trimDotSlash command.toList))).map nameOf

def checkFilenameCase (same : Name → Name → Bool) (directory : String) (listing : Listing)
    (path : List Name) (typed : String) : Except UploadError Content :=
  match stat same path listing, path.getLast? with
  | none, _ => .error (.executableMissing typed)
  | some .directory, _ => .error (.executableIsDirectory typed)
  | some (.file _), none => .error (.executableMissing typed)
  | some (.file content), some fileName =>
    let parent := path.dropLast
    match readDir same parent listing with
    | .error e =>
      let parentPath := joinPath directory (join "/" (parent.map lossy))
      .error (.io s!"Failed to read {parentPath}" e)
    | .ok names =>
      if names.contains fileName then .ok content else .error (.executableWrongCase typed)

def hasShellScriptExtension (path : List Name) : Bool :=
  path.getLast?.bind extension = some (nameOf "sh")

structure ScriptScan where
  line : Nat
  column : Nat
  previousByte : UInt8
  hasShebang : Bool

/-- One byte of a script; the reason it is refused. -/
def scanByte (scan : ScriptScan) (byte : UInt8) : Except String ScriptScan :=
  let column := scan.column + 1
  if byte = 13 then
    .error s!"CR or CRLF line ending at line {scan.line}, column {column}; expected LF"
  else if byte = 10 then .ok { scan with column := 0, line := scan.line + 1 }
  else
    .ok { scan with
      column
      hasShebang := scan.hasShebang || (column = 2 && scan.previousByte = 35 && byte = 33)
      previousByte := byte }

def validateShellScript (path : List Name) (display : String) (content : Content)
    (typed : String) : Except UploadError Unit :=
  if hasShellScriptExtension path = false then
    .error (.shellScriptInvalid typed "file extension is not .sh")
  else
    match content.failure with
    | some e => .error (.io s!"Failed to open {display}" e)
    | none =>
      match content.bytes.foldlM scanByte ⟨1, 0, 0, false⟩ with
      | .error reason => .error (.shellScriptInvalid typed reason)
      | .ok scan =>
        if scan.hasShebang then .ok ()
        else .error (.shellScriptInvalid typed "no shebang (#!) line found")

def headerPrefixLen : Nat := 20

def elfMagic : List UInt8 := [0x7f, 0x45, 0x4c, 0x46]

def detectArchitecture (header : List UInt8) : Option TargetArchitecture :=
  if header.length < headerPrefixLen then none
  else if header.take 4 ≠ elfMagic then none
  else if header.getD 4 0 ≠ 2 ∨ header.getD 5 0 ≠ 1 ∨ header.getD 6 0 ≠ 1 then none
  else
    let machine := (header.getD 18 0).toNat + 256 * (header.getD 19 0).toNat
    if machine = 62 then some .linuxX86_64
    else if machine = 183 then some .linuxArm64
    else none

def detectBinaryArchitecture (display : String) (content : Content) :
    Except UploadError (Option TargetArchitecture) :=
  match content.failure with
  | some e => .error (.io s!"Failed to open {display}" e)
  | none => .ok (detectArchitecture (content.bytes.take headerPrefixLen))

def resolveEntrypoint (same : Name → Name → Bool) (listing : Listing) (request : UploadRequest) :
    Except UploadError ResolvedEntrypoint := do
  let typed := request.executable
  let command ← relativeLaunchCommand typed
  let path := executableSegments command
  let display := joinPath request.directory (join "/" (path.map lossy))
  let content ← checkFilenameCase same request.directory listing path typed
  if hasShellScriptExtension path then
    match request.targetArchitecture with
    | none => .error .shellScriptNeedsTargetArchitecture
    | some architecture =>
      if request.skipScriptValidation then .ok ⟨.shellScript, architecture, command⟩
      else do
        validateShellScript path display content typed
        .ok ⟨.shellScript, architecture, command⟩
  else
    match ← detectBinaryArchitecture display content with
    | none => .error .executableNotAcceptedBinary
    | some detected =>
      match request.targetArchitecture with
      | none => .ok ⟨.elfBinary, detected, command⟩
      | some requested =>
        if requested ≠ detected then
          .error (.architectureMismatch requested.wireValue detected.wireValue)
        else .ok ⟨.elfBinary, detected, command⟩

end Entrypoint

section Archive

structure ArchiveEntry where
  path : List FileName
  archivePath : String
  sizeBytes : Nat

structure ArchiveManifest where
  entries : List ArchiveEntry
  totalBytes : Nat
  excludedSymbolFileCount : Nat
  skippedDirectorySymlinks : List String

def symbolFileExtensions : List String := ["PDB", "SYM", "debug", "pdb", "sym"]

def isSymbolFile (name : FileName) : Bool :=
  match extension name.glyphs with
  | some ext => (symbolFileExtensions.map nameOf).contains ext
  | none => false

def archivePath (path : List FileName) : String := join "/" (path.map fun name => lossy name.glyphs)

def ArchiveManifest.push (manifest : ArchiveManifest) (path : List FileName) (content : Content) :
    ArchiveManifest :=
  { manifest with
    entries := manifest.entries ++ [⟨path, archivePath path, content.bytes.length⟩] }

def ArchiveManifest.exclude (manifest : ArchiveManifest) : ArchiveManifest :=
  { manifest with excludedSymbolFileCount := manifest.excludedSymbolFileCount + 1 }

def ArchiveManifest.skip (manifest : ArchiveManifest) (path : List FileName) : ArchiveManifest :=
  { manifest with
    skippedDirectorySymlinks := manifest.skippedDirectorySymlinks ++ [archivePath path] }

/-- `walk`, from the directory `parents` leads to. -/
def walk (directory : String) (includeSymbolFiles : Bool) (parents : List FileName) :
    Listing → ArchiveManifest → Except UploadError ArchiveManifest
  | .nil, manifest => .ok manifest
  | .directory name children rest, manifest => do
    let manifest ← walk directory includeSymbolFiles (parents ++ [name]) children manifest
    walk directory includeSymbolFiles parents rest manifest
  | .file name content rest, manifest =>
    if !includeSymbolFiles && isSymbolFile name then
      walk directory includeSymbolFiles parents rest manifest.exclude
    else
      walk directory includeSymbolFiles parents rest (manifest.push (parents ++ [name]) content)
  | .link name target rest, manifest =>
    if !includeSymbolFiles && isSymbolFile name then
      walk directory includeSymbolFiles parents rest manifest.exclude
    else
      match target with
      | .dangling =>
        .error (.io s!"Failed to stat {joinPath directory (archivePath (parents ++ [name]))}"
          "No such file or directory (os error 2)")
      | .directory _ =>
        walk directory includeSymbolFiles parents rest (manifest.skip (parents ++ [name]))
      | .file content =>
        walk directory includeSymbolFiles parents rest (manifest.push (parents ++ [name]) content)

def collectEntries (directory : String) (includeSymbolFiles : Bool) (listing : Listing) :
    Except UploadError ArchiveManifest := do
  let manifest ← walk directory includeSymbolFiles [] listing ⟨[], 0, 0, []⟩
  let entries := manifest.entries.mergeSort fun left right => left.archivePath ≤ right.archivePath
  .ok { manifest with
    entries
    skippedDirectorySymlinks := manifest.skippedDirectorySymlinks.mergeSort (· ≤ ·)
    totalBytes := (entries.map (·.sizeBytes)).sum }

end Archive

inductive Root
  | missing
  | notDirectory
  | directory (tree : Tree)

def validateDirectory (directory : String) : Root → Except UploadError Tree
  | .missing => .error (.directoryMissing directory)
  | .notDirectory => .error (.directoryNotADirectory directory)
  | .directory tree =>
    match tree.listing with
    | .nil => .error (.directoryEmpty directory)
    | _ => .ok tree

def validate (same : Name → Name → Bool) (root : Root) (request : UploadRequest) :
    Except UploadError (ResolvedEntrypoint × ArchiveManifest) := do
  validateImageName request.imageName
  let tree ← validateDirectory request.directory root
  let resolved ← resolveEntrypoint same tree.listing request
  let manifest ← collectEntries request.directory request.includeSymbolFiles tree.listing
  if manifest.entries.isEmpty then .error (.directoryEmpty request.directory)
  else .ok (resolved, manifest)

end UploadDirectory
