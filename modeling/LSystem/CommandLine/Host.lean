import LSystem.CommandLine.FilePath
import LSystem.Picture.Canvas

/-!
# Hosts

What the commands need from the world around them: texts to read, directories
and pictures to write, and time to pass. A directory tree in memory is a host
in which no time passes.
-/

namespace LSystem.CommandLine

inductive FileError
  | missing
  | alreadyThere
  | notDirectory
  | isDirectory
  | notText
  | other (text : String)
  deriving Repr, DecidableEq

def FileError.message : FileError → String
  | missing => "No such file or directory (os error 2)"
  | alreadyThere => "File exists (os error 17)"
  | notDirectory => "Not a directory (os error 20)"
  | isDirectory => "Is a directory (os error 21)"
  | notText => "stream did not contain valid UTF-8"
  | other text => text

class Host (m : Type → Type) where
  readText : String → m (Except FileError String)
  makeDirectories : String → m (Except FileError Unit)
  savePicture : String → Canvas → m (Except FileError Unit)
  /-- Lets milliseconds pass. -/
  pause : Nat → m Unit

/-! ### Directory trees in memory -/

inductive Entry
  | directory
  | text (content : String)
  | picture (canvas : Canvas)

/-- A directory tree: entries by their places, which are given by names from the top. -/
structure Tree where
  entries : List (List String × Entry) := []

namespace Tree

def entry? (tree : Tree) (place : List String) : Option Entry :=
  if place.isEmpty then some .directory else tree.entries.lookup place

def put (tree : Tree) (place : List String) (entry : Entry) : Tree :=
  { entries := (place, entry) :: tree.entries }

/-- Goes from a place along names. Every place that is left has to be a directory; the last one
need not exist. -/
def locate (tree : Tree) (place : List String) : List String → Except FileError (List String)
  | [] => .ok place
  | name :: rest =>
    match tree.entry? place with
    | some .directory =>
      if name = "." then locate tree place rest
      else if name = ".." then locate tree place.dropLast rest
      else locate tree (place ++ [name]) rest
    | some _ => .error .notDirectory
    | none => .error .missing

def readText (tree : Tree) (path : String) : Except FileError String := do
  match tree.entry? (← tree.locate [] (FilePath.names path)) with
  | some (.text content) => return content
  | some (.picture _) => throw .notText
  | some .directory => throw .isDirectory
  | none => throw .missing

def makeAlong (tree : Tree) (place : List String) : List String → Except FileError Tree
  | [] => .ok tree
  | name :: rest =>
    if name = "." then makeAlong tree place rest
    else if name = ".." then makeAlong tree place.dropLast rest
    else
      let place := place ++ [name]
      match tree.entry? place with
      | some .directory => makeAlong tree place rest
      | some _ => .error (if rest.isEmpty then .alreadyThere else .notDirectory)
      | none => makeAlong (tree.put place .directory) place rest

/-- Saves a picture at a place that is no directory; a path that ends in a separator means one,
even where there is none. -/
def savePicture (tree : Tree) (path : String) (canvas : Canvas) : Except FileError Tree := do
  let place ← tree.locate [] (FilePath.names (FilePath.withoutSlashes path))
  if FilePath.withoutSlashes path ≠ path then throw .isDirectory
  match tree.entry? place with
  | some .directory => throw .isDirectory
  | _ => return tree.put place (.picture canvas)

def picture? (tree : Tree) (path : String) : Option Canvas :=
  match tree.locate [] (FilePath.names path) with
  | .error _ => none
  | .ok place =>
    match tree.entry? place with
    | some (.picture canvas) => some canvas
    | _ => none

def ofTexts (texts : List (String × String)) : Tree :=
  texts.foldl
    (fun tree (path, content) =>
      let place := FilePath.names path
      let tree := (tree.makeAlong [] place.dropLast).toOption.getD tree
      tree.put place (.text content))
    {}

def update (change : Tree → Except FileError Tree) : StateM Tree (Except FileError Unit) := do
  match change (← get) with
  | .ok tree =>
    set tree
    return .ok ()
  | .error e => return .error e

instance : Host (StateM Tree) where
  readText path := return (← get).readText path
  makeDirectories path := update fun tree => tree.makeAlong [] (FilePath.names path)
  savePicture path canvas := update fun tree => tree.savePicture path canvas
  pause _ := pure ()

end Tree

end LSystem.CommandLine
