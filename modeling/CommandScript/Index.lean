import CommandScript.Document
import CommandScript.Folder
import CommandScript.Symbol
import CommandScript.Table
import CommandScript.Uri

/-! # The symbol index of an editor

The index holds the symbols of every document whose text parsed, and the same symbols by name.
A text that does not parse leaves the symbols of its document as they were. The scripts of the
workspace folder are read in at the first lookup.
-/

namespace CommandScript

/-- A folder and the URI that its paths are below. -/
structure Workspace where
  uri : String := ""
  folder : Folder := {}
  /-- Whether the editor works in the folder, so that its scripts are indexed. -/
  rooted : Bool := false

/-- The path of a file, below the folder of the workspace or not. -/
inductive Location where
  | below (path : String)
  | elsewhere (path : String)
  deriving DecidableEq, Repr

structure Index where
  workspace : Workspace := {}
  /-- The texts of the open documents. -/
  documents : Table String String := {}
  symbols : Table String (List Symbol) := {}
  names : Table String (List Symbol) := {}
  /-- Whether the workspace has been read in. -/
  indexed : Bool := false

/-- Why a request could not be answered. -/
inductive RequestError where
  | halt (h : Halt)
  /-- A file is no UTF-8 text. -/
  | undecodable
  | unreadable (e : ReadError) (path : String)
  | malformedUri (e : UriError)
  | notOpen (uri : String)
  deriving DecidableEq, Repr

abbrev Request := EStateM RequestError Index

namespace Workspace

def uriOf (w : Workspace) (path : String) : String := w.uri ++ "/" ++ Uri.percentEncode path

/-- The path below the folder that a URI names, if it starts like those of the folder. -/
def pathOf? (w : Workspace) (uri : String) : Option String :=
  if (w.uri ++ "/").toList.isPrefixOf uri.toList then
    some (Uri.percentDecode (Uri.dropQuery (Uri.dropBreaks (uri.toList.drop (w.uri.length + 1)))))
  else none

end Workspace

namespace Index

def addName (names : Table String (List Symbol)) (s : Symbol) : Table String (List Symbol) :=
  names.put s.name ((names.get? s.name).getD [] ++ [s])

/-- All symbols, document by document, grouped by name. -/
def group (symbols : Table String (List Symbol)) : Table String (List Symbol) :=
  symbols.values.flatten.foldl addName {}

def insert (index : Index) (uri : String) (symbols : List Symbol) : Index :=
  let symbols := index.symbols.put uri symbols
  { index with symbols := symbols, names := group symbols }

def ofExcept {α : Type} : Except Halt α → Request α
  | .ok a => return a
  | .error halt => throw (.halt halt)

/-- Indexes the text of a document if it parses; its diagnostics are the answer. -/
def update (uri text : String) : Request (List Diagnostic) := do
  match ← ofExcept (Diagnostic.check text) with
  | .error diagnostic => return [diagnostic]
  | .ok program =>
    let symbols ← ofExcept (Symbol.collect uri program)
    modify fun index => index.insert uri symbols
    return []

/-- Reads in one entry of the workspace, unless its URI is indexed. Directories are passed
over. -/
def readEntry (uri : String) : Entry → Request Unit
  | .directory => return
  | .file bytes => do
    if ((← get).symbols.get? uri).isSome then return
    match Text.decodeFile? bytes with
    | none => throw .undecodable
    | some text =>
      let _ ← update uri text

def readEntries (w : Workspace) : List (String × Entry) → Request Unit
  | [] => return
  | (path, entry) :: rest => do
    readEntry (w.uriOf path) entry
    readEntries w rest

/-- Reads in the scripts of the workspace. -/
def readWorkspace : Request Unit := do
  let w := (← get).workspace
  if w.rooted then readEntries w w.folder.scripts
  modify fun index => { index with indexed := true }

/-- The first symbol of this name. -/
def lookup (word : String) : Request (Option Symbol) := do
  if !(← get).indexed then readWorkspace
  return ((← get).names.get? word).bind List.head?

/-- Where the file of a URI is. Only URIs that do not start like those of the workspace can be
malformed. -/
def locate (uri : String) : Request Location := do
  match (← get).workspace.pathOf? uri, Uri.parse uri with
  | some path, _ => return .below path
  | none, .ok named => return .elsewhere named.filePath
  | none, .error e => throw (.malformedUri e)

/-- Reads the file that a URI names. -/
def readDocument (uri : String) : Request String := do
  let w := (← get).workspace
  let (path, content) ← match ← locate uri with
    | .below path => pure (path, w.folder.readBelow path)
    | .elsewhere path => pure (path, Folder.readElsewhere path)
  match content with
  | .error e => throw (.unreadable e path)
  | .ok bytes =>
    match Text.decodeFile? bytes with
    | none => throw .undecodable
    | some text => return text

/-- The text of a document: as stored if it is open, else read from its file. -/
def sourceOf (uri : String) : Request String := do
  match (← get).documents.get? uri with
  | some text => return text
  | none => readDocument uri

def openDocument (uri text : String) : Request (List Diagnostic) := do
  let _ ← locate uri
  modify fun index => { index with documents := index.documents.put uri text }
  update uri text

/-- Applies changes to an open document. -/
def applyChanges (uri : String) (changes : List Change) : Request Unit := do
  match (← get).documents.get? uri with
  | none => throw (.notOpen uri)
  | some source =>
    modify fun index =>
      { index with documents := index.documents.put uri (changes.foldl Change.apply source) }

/-- Changes a document and indexes the text of the last change. The answer is the text of the
document, and the diagnostics if there was a change. -/
def changeDocument (uri : String) (changes : List Change) :
    Request (String × Option (List Diagnostic)) := do
  match changes.getLast? with
  | none => return (← sourceOf uri, none)
  | some change =>
    applyChanges uri changes
    let diagnostics ← update uri change.text
    return (← sourceOf uri, some diagnostics)

/-- The symbol that the word at a position names. -/
def symbolAt (uri : String) (p : Position) : Request (Option Symbol) := do
  let word := Document.wordAt (← sourceOf uri) p
  if word.isEmpty then return none
  lookup word

def symbolsOf (uri : String) : Request (List Symbol) := do
  return ((← get).symbols.get? uri).getD []

end Index

/-- The name of a symbol on its line. -/
def Symbol.range (s : Symbol) : Range :=
  ⟨⟨s.line.toNat, 0⟩, ⟨s.line.toNat, s.name.length⟩⟩

end CommandScript
