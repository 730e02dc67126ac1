-- The frontend on source texts. Texts held in memory come before files; a standard library is
-- parsed when it is first asked for and kept, and since its text never changes, keeping it
-- changes nothing but the time it takes.
import Acausal.Grammar.Source
import Acausal.Instance.Message
import Acausal.Session.Collaborator
import Acausal.SourcePath
import Acausal.StandardLibrary

namespace Acausal

/-! ## The frontend -/

structure SourceFrontend where
  /-- Texts by path, the newest first. -/
  sources : List (PathKey × String)
  /-- The paths of registered libraries. -/
  libraries : Table String
  /-- The standard libraries parsed so far, by version. -/
  standard : Table (Program Float)
  verbose : Bool
  files : Files

/-- Why the frontend has no answer. -/
inductive SourceFailure where
  | unreadable (path : String) (cause : FileProblem)
  | malformed (cause : SyntaxError)
  | unknownVersion (cause : UnknownVersion)
  | unregistered (id : String)
  | instantiation (cause : InstanceError Float)

namespace SourceFailure

/-- Whether a failure comes from reading or parsing a source text. -/
def isParseFailure : SourceFailure → Bool
  | unreadable _ _ => true
  | malformed _ => true
  | _ => false

def message : SourceFailure → String
  | unreadable path cause => "failed to read " ++ path ++ ": " ++ cause.message
  | malformed cause => cause.message
  | unknownVersion cause => cause.message
  | unregistered id => "no library registered under `" ++ id ++ "`"
  | instantiation cause => cause.message

end SourceFailure

namespace SourceFrontend

/-- A frontend that holds nothing yet. -/
def fresh (files : Files) : SourceFrontend := ⟨[], .empty, .empty, false, files⟩

/-- Holds a text in memory, over an earlier one at the same path. -/
def addSource (f : SourceFrontend) (path text : String) : SourceFrontend :=
  { f with sources := (pathKey path, text) :: f.sources }

/-- Makes a library known under an id. -/
def registerLibrary (f : SourceFrontend) (id path : String) : SourceFrontend :=
  { f with libraries := f.libraries.insert id path }

/-- The text at a path. -/
def textAt (f : SourceFrontend) (path : String) : Except FileProblem String :=
  match f.sources.lookup (pathKey path) with
  | some text => .ok text
  | none => f.files path

/-- Actions of the frontend. -/
abbrev Act (β : Type) := Action SourceFrontend SourceFailure β

/-! ## Parsing -/

/-- The syntax tree of the text at a path. -/
def parsed (f : SourceFrontend) (path : String) : Except SourceFailure (SourceFile Float) :=
  match f.textAt path with
  | .error problem => .error (.unreadable path problem)
  | .ok text => (parseSource path text).mapError .malformed

def parse (path : String) : Act (SourceFile Float) := do
  let f ← Action.get
  Action.ofExcept (f.parsed path)

/-- The declarations of an edition of the standard library. -/
def editionProgram (version : String) : Except SourceFailure (Program Float) := do
  let edition ← (edition version).mapError .unknownVersion
  let source ← (parseSource edition.fileName edition.text).mapError .malformed
  return .ofSource source

/-- The declarations of a standard library, parsed unless they are kept already. -/
def standardProgram (version : String) : Act (Program Float) := do
  let tag := taggedVersion version
  let f ← Action.get
  match f.standard.get? tag with
  | some program => return program
  | none =>
    let program ← Action.ofExcept (editionProgram tag)
    Action.writeIf f.verbose .debug
      ("parsed standard library " ++ tag ++ " (" ++ toString program.classes.length ++ " classes)")
    Action.modify fun f => { f with standard := f.standard.insert tag program }
    return program

/-! ## Instantiation -/

/-- How an instantiation is logged. -/
def instantiationReport (model : String) (m : FlatModel Float) : String :=
  "instantiated " ++ model ++ ": " ++ toString m.parameters.length ++ " parameters, " ++
    toString m.unknowns.length ++ " variables, " ++ toString m.equations.length ++
    " equations\n" ++ m.text

def instantiate (model : String) (program : Program Float) (scalar : Bool) :
    Act (FlatModel Float × FunctionCache) := do
  let f ← Action.get
  let made ← Action.ofExcept ((program.instantiate model scalar).mapError .instantiation)
  Action.writeIf f.verbose .debug (instantiationReport model made.model)
  return (made.model, made.cache)

/-! ## Libraries -/

/-- The declarations of a library: a registered one, or a standard one by its tag. -/
def loadLibrary (id : String) : Act (Program Float) := do
  let f ← Action.get
  match f.libraries.get? id with
  | some path => return .ofSource (← parse path)
  | none =>
    if "MSL:".toList.isPrefixOf id.toList then standardProgram id
    else Action.fail (.unregistered id)

def loadStandardLibrary (version : String) : Act Unit := do
  let _ ← standardProgram version
  return ()

/-- Instantiates a model of a source text with a standard library in front of it. -/
def flattenWithStandardLibrary (model path version : String) (scalar : Bool) :
    Act (FlatModel Float × FunctionCache) := do
  let library ← standardProgram version
  let source ← parse path
  instantiate model (library.prepend (.ofSource source)) scalar

end SourceFrontend

instance : Frontend SourceFrontend where
  Parsed := SourceFile Float
  Program := Program Float
  Flat := FlatModel Float
  Functions := FunctionCache
  Failure := SourceFailure
  isParseFailure := SourceFailure.isParseFailure
  message := SourceFailure.message
  parse := SourceFrontend.parse
  toProgram := .ofSource
  prepend := .prepend
  instantiate := SourceFrontend.instantiate
  loadLibrary := SourceFrontend.loadLibrary
  loadStandardLibrary := SourceFrontend.loadStandardLibrary
  flattenWithStandardLibrary := SourceFrontend.flattenWithStandardLibrary
  toText := FlatModel.text
  setVerbose f := { f with verbose := true }

end Acausal
