/-
Files. The program reads and writes files through an interface, which is served
by a system or by a tree of files in memory.
-/

namespace ResourceSql

/-- What can be done with files. Whatever fails gives a message. -/
structure FileAccess (m : Type → Type) where
  read : (path : String) → m (Except String String)
  /-- Makes a directory, and those it lies in, where there are none. -/
  makeDirectory : (path : String) → m (Except String Unit)
  write : (path text : String) → m (Except String Unit)

/-- Why a file cannot be used. -/
inductive FileError where
  | missing
  | present
  | notDirectory
  | isDirectory
  deriving DecidableEq

namespace FileError

/-- The message that systems have for the error. -/
def message : FileError → String
  | missing => "No such file or directory (os error 2)"
  | present => "File exists (os error 17)"
  | notDirectory => "Not a directory (os error 20)"
  | isDirectory => "Is a directory (os error 21)"

end FileError

inductive FileEntry where
  | file (text : String)
  | directory
  deriving DecidableEq

/-- The entries below a directory, by the names that lead there. The directory itself is not
listed. -/
structure FileTree where
  entries : List (List String × FileEntry)
  deriving DecidableEq

namespace FileTree

def empty : FileTree := ⟨[]⟩

def entryAt (tree : FileTree) (place : List String) : Option FileEntry :=
  if place.isEmpty then some .directory else tree.entries.lookup place

/-- Puts an entry in the place of any other. -/
def put (tree : FileTree) (place : List String) (entry : FileEntry) : FileTree :=
  ⟨(place, entry) :: tree.entries.filter (·.1 ≠ place)⟩

/-- The parts of a path, which slashes separate. -/
def splitPath : List Char → List (List Char)
  | [] => [[]]
  | c :: rest =>
    if c = '/' then [] :: splitPath rest
    else
      match splitPath rest with
      | [] => [[c]]
      | part :: parts => (c :: part) :: parts

def parts (path : String) : List String := (splitPath path.toList).map String.ofList

/-- Follows one part of a path from a place in the tree. An empty part and a dot stay in the
directory, and two dots leave it. -/
def step (tree : FileTree) (place : List String) (part : String) : Except FileError (List String) :=
  match tree.entryAt place with
  | none => .error .missing
  | some (.file _) => .error .notDirectory
  | some .directory =>
    if part = "" ∨ part = "." then .ok place
    else if part = ".." then .ok place.dropLast
    else .ok (place ++ [part])

/-- The place that a path leads to; there need not be an entry. -/
def locate (tree : FileTree) (path : String) : Except FileError (List String) :=
  if path.startsWith "/" then .error .missing
  else (parts path).foldlM tree.step []

/-- The text of the file at the end of a path. -/
def read (tree : FileTree) (path : String) : Except FileError String :=
  match tree.locate path with
  | .error e => .error e
  | .ok place =>
    match tree.entryAt place with
    | none => .error .missing
    | some .directory => .error .isDirectory
    | some (.file text) => .ok text

/-- Makes the directories on a way down from a place, as far as there are none. -/
def makeBelow (tree : FileTree) (place : List String) : List String → Except FileError FileTree
  | [] => .ok tree
  | part :: rest =>
    match tree.step place part with
    | .error e => .error e
    | .ok next =>
      match tree.entryAt next, rest with
      | none, rest => makeBelow (tree.put next .directory) next rest
      | some .directory, rest => makeBelow tree next rest
      | some (.file _), [] => .error .present
      | some (.file _), _ => .error .notDirectory

def makeDirectory (tree : FileTree) (path : String) : Except FileError FileTree :=
  if path.startsWith "/" then .error .missing
  else tree.makeBelow [] (parts path)

/-- Writes a file into a directory that has to be there. -/
def write (tree : FileTree) (path text : String) : Except FileError FileTree :=
  match tree.locate path with
  | .error e => .error e
  | .ok place =>
    match tree.entryAt place, tree.entryAt place.dropLast with
    | some .directory, _ => .error .isDirectory
    | _, some .directory => .ok (tree.put place (.file text))
    | _, some (.file _) => .error .notDirectory
    | _, none => .error .missing

/-- Adds a file and the directories it lies in. -/
def add (tree : FileTree) (path text : String) : FileTree :=
  let place := (parts path).filter fun part => part ≠ "" ∧ part ≠ "."
  let directories := (List.range place.length).map place.take
  let withDirectories := directories.foldl
    (fun tree directory => if directory.isEmpty then tree else tree.put directory .directory) tree
  withDirectories.put place (.file text)

def orMessage {α : Type} : Except FileError α → Except String α
  | .ok a => .ok a
  | .error e => .error e.message

/-- A change of the tree that fails or not. -/
def changing (change : FileTree → Except FileError FileTree) :
    StateM FileTree (Except String Unit) := fun tree =>
  match change tree with
  | .ok changed => (.ok (), changed)
  | .error e => (.error e.message, tree)

/-- The files of a tree. -/
def access : FileAccess (StateM FileTree) where
  read path := return orMessage ((← get).read path)
  makeDirectory path := changing (·.makeDirectory path)
  write path text := changing (·.write path text)

end FileTree

end ResourceSql
