import FileSelection.CommandFile.Lines
import FileSelection.File.Inventory

/-! A file system as a tree of directories, regular files, symbolic links and special files.
Paths are followed part by part: a dot stays, two dots go up, and a link is replaced by its target.
Every part needs a directory to be looked up in. -/

namespace FileSelection

/-- A regular file holds some bytes and then a hole, which reads as zeros. Special files, such as
pipes and devices, read as empty. -/
inductive Node
  | file (text : Bytes) (hole : Nat) (writable executable : Bool)
  | directory (entries : List (Bytes × Node))
  | special
  | link (target : Bytes)

/-- Puts a node at a place under another node, and makes the directories that lead there. A
directory that is there already keeps its entries. -/
def Node.insert (new : Node) : List Bytes → Node → Node
  | [], old =>
    match new, old with
    | .directory [], .directory _ => old
    | _, _ => new
  | part :: rest, .directory entries =>
    match entries.lookup part with
    | some _ => .directory (entries.map fun (name, child) =>
        (name, if name = part then new.insert rest child else child))
    | none => .directory (entries ++ [(part, new.insert rest (.directory []))])
  | _ :: _, old => old

/-- The tree from its root, and the working directory. -/
structure FileTree where
  root : Node
  current : Bytes := [Path.separator]

namespace FileTree

/-- The length of the longest file names. -/
def maxName : Nat := 255

/-- The length at which a path is too long. -/
def pathLimit : Nat := 4096

/-- The number of links that are followed on the way along one path. -/
def maxLinks : Nat := 40

/-- Follows parts from a node, whose ancestors are given from the nearest on. -/
def walk (root : Node) (links : Nat) (above : List Node) (here : Node) :
    List Bytes → Except IoError Node
  | [] => .ok here
  | part :: rest =>
    match here with
    | .directory entries =>
      if part = Path.dot then walk root links above here rest
      else if part = Path.dotDot then
        match above with
        | [] => walk root links [] here rest
        | up :: above => walk root links above up rest
      else if maxName < part.length then .error .nameTooLong
      else
        match entries.lookup part with
        | none => .error .notFound
        | some (.link target) =>
          match links with
          | 0 => .error .linkLoop
          | links + 1 =>
            let onward := Path.lookups target ++ rest
            if Path.isAbsolute target then walk root links [] root onward
            else walk root links above here onward
        | some node => walk root links (here :: above) node rest
    | _ => .error .notDirectory
termination_by onward => (links, onward.length)

/-- The node at a path, links followed. -/
def find (tree : FileTree) (path : Bytes) : Except IoError Node :=
  if 0 ∈ path then .error .nulInPath
  else if path = [] then .error .notFound
  else if pathLimit ≤ path.length then .error .nameTooLong
  else
    let start := if Path.isAbsolute path then [] else Path.lookups tree.current
    walk tree.root maxLinks [] tree.root (start ++ Path.lookups path)

def isDirectory (tree : FileTree) (path : Bytes) : Bool :=
  match tree.find path with
  | .ok (.directory _) => true
  | _ => false

def status (tree : FileTree) (path : Bytes) : Except IoError FileStatus :=
  (tree.find path).map fun
    | .file text hole writable executable =>
      { isRegular := true, size := UInt64.ofNat (text.length + hole), writable, executable }
    | _ => { isRegular := false }

/-- What the directory at a path holds. -/
def openDirectory (tree : FileTree) (path : Bytes) : Except IoError (List (Bytes × Node)) := do
  match ← tree.find path with
  | .directory entries => return entries
  | _ => throw .notDirectory

/-- The entry of a name in a directory, with what its own path leads to. -/
def entry (tree : FileTree) (directory name : Bytes) : DirectoryEntry where
  name
  status := tree.status (Path.join directory name)

/-- The listing of a directory that holds these children. -/
def listing (tree : FileTree) (directory : Bytes) (children : List (Bytes × Node)) : Listing where
  directory
  entries := children.map fun child => tree.entry directory child.1

/-- The listing of the directory at a path. -/
def list (tree : FileTree) (path : Bytes) : Except IoError Listing := do
  let directory ← Path.absolute tree.current path
  let children ← tree.openDirectory directory
  return tree.listing directory children

/-- The inventory of the directory at a path. -/
def inventory (tree : FileTree) (path : Bytes) : Except IoError Inventory :=
  (tree.list path).map Inventory.ofListing

/-- The bytes of the file at a path. A directory can be opened but not read. -/
def openFile (tree : FileTree) (path : Bytes) : Except IoError ByteStream :=
  (tree.find path).map fun
    | .file text hole _ _ => { bytes := text ++ List.replicate hole 0 }
    | .directory _ => { bytes := [], failure := some .isDirectory }
    | _ => { bytes := [] }

end FileTree

end FileSelection
