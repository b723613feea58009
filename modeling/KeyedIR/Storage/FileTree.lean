import KeyedIR.Storage.Files
/-! # A file system in memory

A root directory, the working directory in it, and the files and directories below them. A name is
resolved part by part, from the root directory if it starts with a slash and from the working
directory otherwise. A part that is empty or a single dot stays where it is, and two dots go up to
the directory above, which for the root directory is itself. A name that ends in a slash is that of
a directory, so that no file can be written under it.
-/

namespace KeyedIR

set_option autoImplicit false

inductive FileNode where
  | file (bytes : ByteArray)
  | directory

/-- The files and directories, with the parts of the way to each from the root directory. -/
structure FileTree where
  nodes : List (List String × FileNode) := []

namespace FileTree

/-- The place of the working directory. No part of a name leads down to it. -/
def home : List String := [""]

/-- What stands at a place; the root directory and the working directory are always there. -/
def lookup (t : FileTree) (place : List String) : Option FileNode :=
  if place = [] ∨ place = home then some .directory else t.nodes.lookup place

def insert (t : FileTree) (place : List String) (node : FileNode) : FileTree :=
  ⟨(place, node) :: t.nodes.filter fun n => n.1 != place⟩

def longestPart : Nat := 255

def longestName : Nat := 4095

/-- The place that the parts of a name lead to from another place. All but the last part have to
lead to directories. -/
def walk (t : FileTree) (place : List String) : List String → Except FileError (List String)
  | [] => .ok place
  | part :: rest =>
    match t.lookup place with
    | none => .error .notFound
    | some (.file _) => .error .notDirectory
    | some .directory =>
      if part = "" ∨ part = "." then t.walk place rest
      else if part = ".." then t.walk place.dropLast rest
      else if longestPart < part.utf8ByteSize then .error .nameTooLong
      else t.walk (place ++ [part]) rest

def parts (name : String) : List String := (name.toList.splitOn '/').map String.ofList

def start (name : String) : List String := if name.startsWith '/' then [] else home

def checkName (name : String) : Except FileError Unit :=
  if name.contains '\x00' then .error .nameEnds
  else if name.isEmpty then .error .notFound
  else if longestName < name.utf8ByteSize then .error .nameTooLong
  else .ok ()

def resolve (t : FileTree) (name : String) : Except FileError (List String) := do
  checkName name
  t.walk (start name) (parts name)

/-- The place of a name for a file to be written. Of a name that ends in a slash only the directory
that would hold it is looked for, since there can be no such file. -/
def resolveTarget (t : FileTree) (name : String) : Except FileError (List String) := do
  checkName name
  if name.endsWith '/' then
    let named := ((parts name).reverse.dropWhile String.isEmpty).reverse
    let _ ← t.walk (start name) (named.dropLast ++ ["."])
    .error .isDirectory
  else t.walk (start name) (parts name)

def read (t : FileTree) (name : String) : Except FileError ByteArray :=
  match t.resolve name with
  | .error e => .error e
  | .ok place =>
    match t.lookup place with
    | some (.file bytes) => .ok bytes
    | some .directory => .error .isDirectory
    | none => .error .notFound

def write (t : FileTree) (name : String) (bytes : ByteArray) : Except FileError Unit × FileTree :=
  match t.resolveTarget name with
  | .error e => (.error e, t)
  | .ok place =>
    match t.lookup place with
    | some .directory => (.error .isDirectory, t)
    | some (.file _) | none => (.ok (), t.insert place (.file bytes))

/-- The tree with a directory of some name and all directories on the way to it, if they do not
exist. -/
def makeDirectory (t : FileTree) (name : String) : FileTree :=
  ((parts name).foldl (fun (t, place) part =>
    if part = "" ∨ part = "." then (t, place)
    else if part = ".." then (t, place.dropLast)
    else
      let place := place ++ [part]
      (if (t.lookup place).isSome then t else t.insert place .directory, place))
    (t, start name)).1

instance : FileStore (StateM FileTree) where
  readBytes name := fun t => (t.read name, t)
  writeBytes name bytes := fun t => t.write name bytes

end FileTree

end KeyedIR
