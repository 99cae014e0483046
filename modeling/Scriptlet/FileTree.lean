import Scriptlet.Path

/-!
# File trees

The files under a working directory, each known by the names that lead to it.  A directory is there
because a file is in it; the working directory itself is always there.  What lies outside the
working directory is not known: no file is found there.

* `FileTree.find` — what a path leads to: a directory, a file, or a vacant place in a directory.
* `FileTree.read`, `FileTree.put` — reading a file, and giving a file or a vacant place its content.
-/

set_option autoImplicit false
namespace Scriptlet

/-- Why a file cannot be opened: the number and the wording of the system's reason, or a path that
holds a null character and names no file at all. -/
inductive FileFault where
  | system (number : Nat) (text : String)
  | nullInPath
  deriving DecidableEq, Repr

namespace FileFault

/-- There is no such file. -/
def notFound : FileFault := .system 2 "No such file or directory"

/-- On the way to the file there is a file in place of a directory. -/
def notDirectory : FileFault := .system 20 "Not a directory"

/-- There is a directory in place of the file. -/
def isDirectory : FileFault := .system 21 "Is a directory"

/-- The path or one of its parts is too long. -/
def nameTooLong : FileFault := .system 36 "File name too long"

end FileFault

/-- The most bytes that the name of a file has. -/
def nameBytes : Nat := 255

/-- The most bytes that a path has. -/
def pathBytes : Nat := 4095

/-- Files by the names that lead to them. -/
structure FileTree where
  files : List (List String × ByteArray) := []

namespace FileTree

/-- What a path leads to. -/
inductive Place where
  | directory
  | file (names : List String) (content : ByteArray)
  | vacant (names : List String)

/-- The content of a file. -/
def get? (t : FileTree) (names : List String) : Option ByteArray :=
  List.lookup names t.files

/-- Whether there is a directory: the working directory, or one with a file in it. -/
def hasDirectory (t : FileTree) (names : List String) : Bool :=
  names.isEmpty || t.files.any fun f => names.length < f.1.length && names.isPrefixOf f.1

/-- What is found outside the working directory by some parts: a directory by going up, else
nothing. -/
def outside : List String → Except FileFault Place
  | [] => .ok .directory
  | part :: rest =>
    if part = ".." then outside rest
    else if nameBytes < part.utf8ByteSize then .error .nameTooLong
    else .error .notFound

/-- What some parts lead to from a directory.  A path that ends in a slash leads to a directory
only. -/
def walk (t : FileTree) (toDirectory : Bool) (here : List String) :
    List String → Except FileFault Place
  | [] => .ok .directory
  | part :: rest =>
    if part = ".." then
      if here.isEmpty then outside rest else t.walk toDirectory here.dropLast rest
    else if nameBytes < part.utf8ByteSize then .error .nameTooLong
    else
      let there := here ++ [part]
      if t.hasDirectory there then t.walk toDirectory there rest
      else
        match t.get? there with
        | some content =>
          if rest.isEmpty && !toDirectory then .ok (.file there content) else .error .notDirectory
        | none =>
          if rest.isEmpty then .ok (.vacant there) else .error .notFound

/-- What a path leads to. -/
def find (t : FileTree) (path : String) : Except FileFault Place :=
  if path.toList.contains '\x00' then .error .nullInPath
  else if path = "" then .error .notFound
  else if pathBytes < path.utf8ByteSize then .error .nameTooLong
  else
    let p := Path.ofString path
    if p.slashes ≠ 0 then outside p.parts
    else
      let toDirectory := !((Path.pieces path).getLast?.all Path.isPart)
      t.walk toDirectory [] p.parts

/-- The content of the file at a path. -/
def read (t : FileTree) (path : String) : Except FileFault ByteArray :=
  match t.find path with
  | .error fault => .error fault
  | .ok .directory => .error .isDirectory
  | .ok (.file _ content) => .ok content
  | .ok (.vacant _) => .error .notFound

/-- Gives the file of some names a content. -/
def insert : List (List String × ByteArray) → List String → ByteArray →
    List (List String × ByteArray)
  | [], names, content => [(names, content)]
  | (n, c) :: rest, names, content =>
    if n = names then (n, content) :: rest else (n, c) :: insert rest names content

/-- Gives the file at a path a content; a vacant place becomes a file. -/
def put (t : FileTree) (path : String) (content : ByteArray) : Except FileFault FileTree :=
  match t.find path with
  | .error fault => .error fault
  | .ok .directory => .error .isDirectory
  | .ok (.file names _) | .ok (.vacant names) => .ok ⟨insert t.files names content⟩

/-- A tree with the given files, each at the parts of a path. -/
def ofList (files : List (String × ByteArray)) : FileTree :=
  ⟨files.foldl (fun fs (path, content) => insert fs (Path.ofString path).parts content) []⟩

/-- The files that another tree does not have, or has with another content. -/
def changes (t before : FileTree) : List (String × ByteArray) :=
  t.files.filterMap fun (names, content) =>
    if (before.get? names).map ByteArray.data = some content.data then none
    else some (String.intercalate "/" names, content)

end FileTree

end Scriptlet
