import LSystem.Text.Fields

/-!
# File paths

The names that a path leads along, and the directory that it lies in.
-/

namespace LSystem.CommandLine.FilePath

/-- The names that make up a path from the top of a tree; a dot stands for the directory itself. -/
def names (path : String) : List String :=
  match (Text.fields '/' path.toList).map String.ofList with
  | [] => []
  | first :: rest =>
    (if first.isEmpty then [] else [first]) ++
      rest.map fun name => if name.isEmpty then "." else name

def withoutSlashes (path : String) : String :=
  String.ofList (path.toList.reverse.dropWhile (· = '/')).reverse

/-- A path written backwards, without separators and single dots at its end. -/
def trimBackwards : List Char → List Char
  | '/' :: c :: rest => trimBackwards (c :: rest)
  | '.' :: '/' :: c :: rest => trimBackwards (c :: rest)
  | cs => cs

def parent (path : String) : String :=
  match (trimBackwards path.toList.reverse).dropWhile (· ≠ '/') with
  | [] => ""
  | above => String.ofList (trimBackwards above).reverse

end LSystem.CommandLine.FilePath
