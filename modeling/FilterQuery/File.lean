/-!
# Files

Reading a path or an input brings bytes, or the fault that kept them away. A fault of the system has
a number, and its wording gives the number too. Bytes that are no text are a fault of their own. A
tree of files answers a path as a file system does, so a run can be followed without one.
-/

namespace FilterQuery

/-- Why something cannot be read. -/
inductive ReadFault where
  | notFound
  | denied
  | notDirectory
  | isDirectory
  | nameTooLong
  | notText
  | other (number : Nat) (text : String)
  deriving DecidableEq

namespace ReadFault

def numbered (number : Nat) (text : String) : String :=
  text ++ " (os error " ++ toString number ++ ")"

def message : ReadFault → String
  | .notFound => numbered 2 "No such file or directory"
  | .denied => numbered 13 "Permission denied"
  | .notDirectory => numbered 20 "Not a directory"
  | .isDirectory => numbered 21 "Is a directory"
  | .nameTooLong => numbered 36 "File name too long"
  | .notText => "stream did not contain valid UTF-8"
  | .other number text => numbered number text

/-- The fault with a number; `text` is what the system says of it. -/
def ofNumber (number : Nat) (text : String) : ReadFault :=
  match number with
  | 2 => .notFound
  | 13 => .denied
  | 20 => .notDirectory
  | 21 => .isDirectory
  | 36 => .nameTooLong
  | number => .other number text

end ReadFault

/-- What reading something brings: its bytes, or why there are none. -/
abbrev Contents := Except ReadFault ByteArray

def Contents.text (contents : Contents) : Except ReadFault String :=
  match contents with
  | .error fault => .error fault
  | .ok bytes =>
    match String.fromUTF8? bytes with
    | some text => .ok text
    | none => .error .notText

/-- A file, or a directory with what stands in it. -/
inductive FileTree where
  | file (content : ByteArray)
  | directory (entries : List (String × FileTree))

/-- Where a walk through a tree has come to: what stands there, and the directories that hold it,
from the inside out. -/
structure FilePlace where
  tree : FileTree
  outer : List FileTree

namespace FilePlace

/-- The place that holds this one; the root holds itself. -/
def parent (place : FilePlace) : FilePlace :=
  match place.outer with
  | [] => place
  | tree :: outer => ⟨tree, outer⟩

def maxName : Nat := 255

/-- Goes one name on. Only a directory can be gone on from, also where the name leads nowhere
else. -/
def step (place : FilePlace) (name : String) : Except ReadFault FilePlace :=
  match place.tree with
  | .file _ => .error .notDirectory
  | .directory entries =>
    if name = "" ∨ name = "." then .ok place
    else if name = ".." then .ok place.parent
    else if maxName < name.utf8ByteSize then .error .nameTooLong
    else
      match entries.lookup name with
      | some tree => .ok ⟨tree, place.tree :: place.outer⟩
      | none => .error .notFound

end FilePlace

namespace FileTree

def maxPath : Nat := 4095

/-- The names to go through from the root; `directory` leads to where other paths start. -/
def names (directory : List String) (path : String) : List String :=
  if path.toList.head? = some '/' then path.splitOn "/" else directory ++ path.splitOn "/"

/-- Reads a path in a tree; a path is as long as its bytes, and only a file has contents. -/
def read (root : FileTree) (directory : List String) (path : String) : Contents :=
  if path = "" then .error .notFound
  else if maxPath < path.utf8ByteSize then .error .nameTooLong
  else
    match (names directory path).foldlM FilePlace.step ⟨root, []⟩ with
    | .error fault => .error fault
    | .ok ⟨.file content, _⟩ => .ok content
    | .ok ⟨.directory _, _⟩ => .error .isDirectory

end FileTree

end FilterQuery
