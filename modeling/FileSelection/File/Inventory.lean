import FileSelection.File.Info
import FileSelection.Log
import FileSelection.Text.Quoted

/-! The regular files of a directory, taken once at the start of a run. An entry that cannot be
used is left out with a warning in the log, and never disturbs the others. -/

namespace FileSelection

/-- What the operating system tells of a file, links followed. -/
structure FileStatus where
  isRegular : Bool
  size : UInt64 := 0
  writable : Bool := false
  executable : Bool := false
  deriving DecidableEq, Repr

structure DirectoryEntry where
  name : Bytes
  status : Except IoError FileStatus
  /-- Why the directory failed to give this entry. Its name and status then do not count. -/
  unread : Option IoError := none

/-- A directory by its absolute path, with its entries in no particular order. -/
structure Listing where
  directory : Bytes
  entries : List DirectoryEntry

/-- The files of a listing, and what taking them wrote to the log. -/
structure Inventory where
  files : List FileInfo
  journal : List Log.Entry

namespace Inventory

def logEntry (level : Log.Level) (message : String) : Log.Entry :=
  { level, target := "sieve_fs::snapshot", message := "[snapshot] " ++ message }

/-- The file of an entry, or the warning under which it is left out. What is no regular file is
left out without a word. -/
def inspect (directory : Bytes) (entry : DirectoryEntry) : Except (Option Log.Entry) FileInfo :=
  let path := Path.join directory entry.name
  match entry.unread with
  | some cause =>
    .error (logEntry .warn
      ("error reading entry in " ++ Text.Quoted.quoteBytes directory ++ ": " ++ cause.message))
  | none =>
    match entry.status with
    | .error cause =>
      .error (logEntry .warn
        ("inspect_fs_entry(" ++ Text.Quoted.quoteBytes path ++ ") failed: " ++ cause.message))
    | .ok status =>
      if !status.isRegular then .error none
      else
        match Text.Utf8.decode? entry.name with
        | none =>
          .error (logEntry .warn ("skipping non UTF-8 name " ++ Text.Quoted.quoteBytes entry.name))
        | some name =>
          .ok (FileInfo.ofPath path status.size
            { writable := status.writable
              executable := status.executable
              hidden := name.toList.head? = some '.' })

def ofListing (listing : Listing) : Inventory :=
  let inspected := listing.entries.map (inspect listing.directory)
  let files := inspected.filterMap fun
    | .ok file => some file
    | .error _ => none
  let warnings := inspected.filterMap fun
    | .ok _ => none
    | .error warning => warning
  let count := logEntry .debug
    (toString files.length ++ " files in " ++ Text.Quoted.quoteBytes listing.directory)
  { files, journal := warnings ++ [count] }

end Inventory

end FileSelection
