/-!
# Folders

The files below the folder a program is started in, and what a path leads to from there.
-/
namespace Scriptlet

/-- Why a path gives no bytes. -/
inductive FileFault where
  | missing
  /-- The path goes on behind a file. -/
  | notFolder
  | tooLong
  /-- The path leads to a folder, which can be opened and not read. -/
  | isFolder
  deriving DecidableEq

def FileFault.message : FileFault → String
  | missing => "No such file or directory (os error 2)"
  | notFolder => "Not a directory (os error 20)"
  | tooLong => "File name too long (os error 36)"
  | isFolder => "Is a directory (os error 21)"

/-- The files of a folder and of the folders in it, each by the names that lead to it. -/
structure Folder where
  files : List (List String × ByteArray)

/-- Where a path has led so far. -/
inductive Place where
  | file (bytes : ByteArray)
  /-- A folder, by the names that lead to it from the start. -/
  | folder (names : List String)
  /-- A folder around the start.  No name in it is known, so only the way further out is open. -/
  | outside

namespace Folder

/-- The most bytes of a name. -/
def nameLimit : Nat := 255

/-- The most bytes of a path. -/
def pathLimit : Nat := 4095

def namesOf (path : String) : List String := path.splitOn "/"

def ofFiles (files : List (String × ByteArray)) : Folder :=
  ⟨files.map fun (path, bytes) => (namesOf path, bytes)⟩

/-- With an empty file in place of what was there. -/
def create (d : Folder) (name : String) : Folder := ⟨([name], .empty) :: d.files⟩

/-- A folder is there when a file is below it. -/
def placeAt (d : Folder) (names : List String) : Except FileFault Place :=
  match d.files.lookup names with
  | some bytes => .ok (.file bytes)
  | none =>
    if d.files.any fun (path, _) => names.isPrefixOf path then .ok (.folder names) else .error .missing

/-- One name further.  An empty name, as between two slashes, stays where it is, but like every name it needs a folder
to start from. -/
def step (d : Folder) (place : Place) (name : String) : Except FileFault Place :=
  match place with
  | .file _ => .error .notFolder
  | .folder names =>
    if name = "" || name = "." then .ok place
    else if name = ".." then .ok (if names.isEmpty then .outside else .folder names.dropLast)
    else if nameLimit < name.utf8ByteSize then .error .tooLong
    else d.placeAt (names ++ [name])
  | .outside =>
    if name = "" || name = "." || name = ".." then .ok .outside
    else if nameLimit < name.utf8ByteSize then .error .tooLong
    else .error .missing

/-- The first name that leads nowhere decides. -/
def walk (d : Folder) (path : String) : Except FileFault Place :=
  if pathLimit < path.utf8ByteSize then .error .tooLong
  else (namesOf path).foldlM d.step (if path.startsWith "/" then .outside else .folder [])

def read (d : Folder) (path : String) : Except FileFault ByteArray :=
  match d.walk path with
  | .ok (.file bytes) => .ok bytes
  | .ok _ => .error .isFolder
  | .error fault => .error fault

/-- Whether a path leads to something. -/
def has (d : Folder) (path : String) : Bool :=
  match d.walk path with
  | .ok _ => true
  | .error _ => false

end Folder
end Scriptlet
