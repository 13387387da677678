import FlowSketch.Text.Quoted

/-!
# Paths

Absolute paths, and what a path on the command line means. Paths are resolved by their text alone:
no part of them has to exist.

* `Path`, `Path.text` — a path and how it is written.
* `Path.resolve` — the path that a text means in a working directory.
* `FileFault` — what can go wrong with a file, with its wording.
-/

namespace FlowSketch

/-! ## Paths -/

/-- An absolute path, as the names on the way from the root. -/
structure Path where
  names : List String := []
  deriving DecidableEq, Repr

namespace Path

/-- The written form of a path. -/
def text (p : Path) : String := "/" ++ "/".intercalate p.names

/-- The last name of a path, empty for the root. -/
def name (p : Path) : String := p.names.getLastD ""

/-- The directory that holds what the path names. -/
def parent (p : Path) : Path := ⟨p.names.dropLast⟩

/-- The directories on the way to what the path names, from the root on. -/
def ancestors (p : Path) : List Path :=
  (List.range p.names.length).map (fun count => ⟨p.names.take count⟩)

/-- One more name behind a path: a dot stays where it is, and two dots lead to the parent. -/
def step (p : Path) (name : String) : Path :=
  if name == "" || name == "." then p
  else if name == ".." then p.parent
  else ⟨p.names ++ [name]⟩

/-- The names of a text between its slashes. -/
def namesOf (text : String) : List String := (text.toList.splitOn '/').map String.ofList

/-- The path that a text means. It starts at the root if the text does, at the home directory after
    a tilde, and else in the working directory. Model of `_path`. -/
def resolve (home working : Path) (text : String) : Path :=
  match namesOf text with
  | "" :: next :: rest => (next :: rest).foldl step {}
  | "~" :: rest => rest.foldl step home
  | names => names.foldl step working

end Path

/-! ## Faults -/

/-- What can go wrong with a file. -/
inductive FileFault where
  | notFound (path : Path)
  | alreadyExists (path : Path)
  | notADirectory (path : Path)
  | isADirectory (path : Path)
  | denied (path : Path)
  deriving DecidableEq, Repr

/-- The wording of a fault: its number, what it means, and the path in quotation marks. -/
def FileFault.message : FileFault → String
  | notFound p => "[Errno 2] No such file or directory: " ++ Text.quote p.text
  | denied p => "[Errno 13] Permission denied: " ++ Text.quote p.text
  | alreadyExists p => "[Errno 17] File exists: " ++ Text.quote p.text
  | notADirectory p => "[Errno 20] Not a directory: " ++ Text.quote p.text
  | isADirectory p => "[Errno 21] Is a directory: " ++ Text.quote p.text

end FlowSketch
