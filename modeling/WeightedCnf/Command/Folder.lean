import WeightedCnf.Command.Run

-- A path is walked name by name, and the first name that is missing, that is a file with more names
-- behind it, or that is too long decides how the walk fails.

namespace WeightedCnf.Command

-- Paths start in the working directory; the name `/` in front stands for the root, and names `..` in front
-- lead out of the working directory.
structure Folder where
  files : List (List String × String)

namespace Folder

def nameLimit : Nat := 255

def pathLimit : Nat := 4095

inductive Place where
  | directory (names : List String)
  | file (names : List String)
  | vacant (names : List String)
deriving DecidableEq, Repr

def landmarks : List String :=
  ["bin", "dev", "etc", "home", "lib", "opt", "proc", "run", "sbin", "sys", "tmp", "usr", "var"]

def nullDevice : List String := ["/", "dev", "null"]

def isDirectory (folder : Folder) (names : List String) : Bool :=
  names.all (· == "..") || names == ["/"] || landmarks.any (["/", ·] == names)
    || folder.files.any fun (path, _) => names.length < path.length && names.isPrefixOf path

def look (folder : Folder) (names : List String) : Place :=
  if folder.isDirectory names then .directory names
  else if names == nullDevice || folder.files.any (·.1 == names) then .file names
  else .vacant names

def parent (names : List String) : List String :=
  if names.all (· == "..") then names ++ [".."]
  else if names == ["/"] then names
  else names.dropLast

def enter (folder : Folder) (place : Place) (name : String) : Except FileError Place :=
  match place with
  | .file _ => .error .notDirectory
  | .vacant _ => .error .notFound
  | .directory names =>
    if name == "." then .ok place
    else if name == ".." then .ok (.directory (parent names))
    else if nameLimit < name.utf8ByteSize then .error .nameTooLong
    else .ok (folder.look (names ++ [name]))

def namesOf (path : String) : List String :=
  ((path.toList.splitOnP (· == '/')).filter (!·.isEmpty)).map String.ofList

def isSlashed (path : String) : Bool := path.toList.getLast? == some '/'

def start (path : String) : Place := .directory (if path.toList.head? == some '/' then ["/"] else [])

def walk (folder : Folder) (path : String) (names : List String) : Except FileError Place :=
  if pathLimit < path.utf8ByteSize then .error .nameTooLong
  else names.foldlM folder.enter (start path)

-- A slash at the end asks for a directory, like a dot behind it.
def find (folder : Folder) (path : String) : Except FileError (List String) := do
  match ← folder.walk path (namesOf path ++ if isSlashed path then ["."] else []) with
  | .directory _ => throw .isDirectory
  | .vacant _ => throw .notFound
  | .file names => return names

def read (folder : Folder) (path : String) : Except FileError String := do
  let names ← folder.find path
  return ((folder.files.find? (·.1 == names)).map (·.2)).getD ""

-- Where a file would be created; a slash at the end is refused before the last name is looked up.
def target (folder : Folder) (path : String) : Except FileError (List String) := do
  let names := namesOf path
  match ← folder.walk path names.dropLast with
  | .file _ => throw .notDirectory
  | .vacant _ => throw .notFound
  | .directory above =>
    if isSlashed path then throw .isDirectory
    match ← names.getLast?.toList.foldlM folder.enter (.directory above) with
    | .directory _ => throw .isDirectory
    | .file names => return names
    | .vacant names => return names

def write (folder : Folder) (path text : String) : Except FileError Folder := do
  let names ← folder.target path
  if names == nullDevice then return folder
  return ⟨(names, text) :: folder.files.filter (·.1 != names)⟩

def ofFiles (files : List (String × String)) : Folder :=
  ⟨files.map fun (path, text) => ((namesOf path).filter (· != "."), text)⟩

def environment {σ : Type} (seeded : UInt64 → σ) (source : σ) (allowance : Nat) :
    Environment (StateM Folder) σ where
  read path := return ((← get).read path).map String.toUTF8
  write path text := do
    match (← get).write path text with
    | .ok folder =>
      set folder
      return .ok ()
    | .error cause => return .error cause
  seeded := seeded
  unseeded := return source
  allowance := allowance

end Folder

end WeightedCnf.Command
