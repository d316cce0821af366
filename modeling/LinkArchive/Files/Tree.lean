import LinkArchive.Files.PathName
import LinkArchive.Source

/-! The files below one directory, in which relative paths start. What lies above it are directories
in which nothing else is found. -/

namespace LinkArchive

namespace FileTree

/-- Names of directories, one in the other, and of what is at the end. -/
structure Path where
  names : List String
  isPart : ∀ name ∈ names, PathName.IsPart name

/-- Parts that no directory has for a name are left out. -/
def Path.ofParts (parts : List String) : Path where
  names := parts.filter (PathName.IsPart ·)
  isPart _ member := of_decide_eq_true (List.mem_filter.mp member).2

instance : Coe (List String) Path := ⟨Path.ofParts⟩

end FileTree

structure FileTree where
  files : List (FileTree.Path × Bytes) := []
  directories : List FileTree.Path := []

namespace FileTree

inductive Node where
  | file (bytes : Bytes)
  | directory
  deriving DecidableEq, Repr

def paths (tree : FileTree) : List (List String) :=
  tree.files.map (·.1.names) ++ tree.directories.map (·.names)

def node? (tree : FileTree) (path : List String) : Option Node :=
  match tree.files.find? (·.1.names == path) with
  | some (_, bytes) => some (.file bytes)
  | none => if path.isEmpty || tree.paths.any path.isPrefixOf then some .directory else none

inductive Place where
  | inside (path : List String)
  | outside

def at? (tree : FileTree) : Place → Option Node
  | .inside path => tree.node? path
  | .outside => some .directory

def Place.enter : Place → String → Place
  | place, "." => place
  | .outside, _ => .outside
  | .inside path, ".." => if path.isEmpty then .outside else .inside path.dropLast
  | .inside path, part => .inside (path ++ [part])

def isOutsideStep (part : String) : Bool := part == "." || part == ".."

def walk (tree : FileTree) : Place → List String → Except FaultKind (Place × Node)
  | place, [] =>
    match tree.at? place with
    | some node => .ok (place, node)
    | none => .error .notFound
  | place, part :: rest =>
    match tree.at? place, place with
    | none, _ => .error .notFound
    | some (.file _), _ => .error .notADirectory
    | some .directory, .outside =>
      if isOutsideStep part then walk tree .outside rest else .error .notFound
    | some .directory, .inside _ => walk tree (place.enter part) rest

/-- A path that ends with `/` asks for a directory. -/
def steps (path : String) : List String :=
  let parts := (Text.parts '/' path.toList).map String.ofList
  let named := parts.filter (· != "")
  if parts.getLast? == some "" then named ++ ["."] else named

def find (tree : FileTree) (path : String) : Except FaultKind (Place × Node) :=
  if path.isEmpty then .error .notFound
  else tree.walk (if PathName.isAbsolute path then .outside else .inside []) (steps path)

/-- A directory can be opened, but not read. -/
def openFile (tree : FileTree) (path : String) : Except Fault Source :=
  match tree.find path with
  | .error kind => .error ⟨kind, none⟩
  | .ok (_, .file bytes) => .ok [.chunk bytes]
  | .ok (_, .directory) => .ok [.failure (.fault ⟨.isADirectory, none⟩)]

def childName? (directory path : List String) : Option String :=
  if directory.isPrefixOf path then (path.drop directory.length).head? else none

def nameLe (first second : String) : Bool := decide (Bytes.ofText first ≤ Bytes.ofText second)

def names (tree : FileTree) (path : String) : Except Fault (List String) :=
  match tree.find path with
  | .error kind => .error ⟨kind, none⟩
  | .ok (_, .file _) => .error ⟨.notADirectory, none⟩
  | .ok (.outside, .directory) => .ok []
  | .ok (.inside directory, .directory) =>
    .ok ((tree.paths.filterMap (childName? directory)).eraseDups.mergeSort nameLe)

def isDirectory (tree : FileTree) (path : String) : Bool :=
  match tree.find path with
  | .ok (_, .directory) => true
  | _ => false

def isFile (tree : FileTree) (path : String) : Bool :=
  match tree.find path with
  | .ok (_, .file _) => true
  | _ => false

end FileTree

end LinkArchive
