import LuaSyntax.Command.Files
import LuaSyntax.Command.Path

/-!
A tree of directories and files, and a directory in it that relative paths start from.
-/
namespace LuaSyntax

inductive DiskEntry
  | file (bytes : ByteArray)
  | directory

/-- Entries by the names on the way to them from the root. Neither the directories on the way nor the
home directory need entries of their own. -/
structure Disk where
  home : List String
  entries : List (List String × DiskEntry)

def DiskEntry.isDirectory : DiskEntry → Bool
  | file _ => false
  | directory => true

namespace Disk

def isDirectory (d : Disk) (place : List String) : Bool :=
  place.isPrefixOf d.home || d.entries.any fun (key, entry) =>
    (key = place && entry.isDirectory) || (place.length < key.length && place.isPrefixOf key)

def bytes? (d : Disk) (place : List String) : Option ByteArray :=
  d.entries.findSome? fun (key, entry) =>
    match entry with
    | .file bytes => if key = place then some bytes else none
    | .directory => none

def put (d : Disk) (place : List String) (bytes : ByteArray) : Disk :=
  { d with entries := d.entries.filter (fun (key, _) => key ≠ place) ++ [(place, .file bytes)] }

def enter (d : Disk) (place : List String) : Except FileError (List String) :=
  if d.isDirectory place then .ok place
  else if (d.bytes? place).isSome then .error .notDirectory
  else .error .notFound

/-- The most bytes that a name can have. -/
def nameLimit : Nat := 255

/-- The most bytes that a path can have. -/
def pathLimit : Nat := 4095

/-- Follows names one by one; all that have another one after them have to be directories. The root
is its own parent. -/
def walk (d : Disk) (place : List String) : List String → Except FileError (List String)
  | [] => .ok place
  | name :: rest => do
    let here ← d.enter place
    if name = "" || name = "." then d.walk here rest
    else if name = ".." then d.walk here.dropLast rest
    else if nameLimit < name.utf8ByteSize then .error .nameTooLong
    else d.walk (here ++ [name]) rest

def pathNames (path : String) : List String := (Path.names path.toList).map String.ofList

/-- The place that a path leads to, which need not exist. -/
def locate (d : Disk) (path : String) : Except FileError (List String) :=
  if path = "" then .error .notFound
  else if pathLimit < path.utf8ByteSize then .error .nameTooLong
  else
    match pathNames path with
    | "" :: names => d.walk [] names
    | names => d.walk d.home names

def read (d : Disk) (path : String) : Except FileError String := do
  let place ← d.locate path
  match d.bytes? place with
  | none => if d.isDirectory place then .error .isDirectory else .error .notFound
  | some bytes =>
    match String.fromUTF8? bytes with
    | some s => .ok s
    | none => .error .notText

/-- A path that ends in a slash can only be that of a directory, so its last name is not looked up:
the directory that would hold it stands for it. -/
def writePath (path : String) : String :=
  match path.toList.reverse with
  | '/' :: s => String.ofList ('.' :: (s.dropWhile (· = '/')).dropWhile (· ≠ '/')).reverse
  | _ => path

def write (d : Disk) (path text : String) : Except FileError Disk := do
  let place ← d.locate (writePath path)
  if d.isDirectory place then .error .isDirectory else .ok (d.put place text.toUTF8)

def fileList (d : Disk) : List (List String × ByteArray) :=
  d.entries.filterMap fun (key, entry) =>
    match entry with
    | .file bytes => some (key, bytes)
    | .directory => none

/-- Whether there is a file at the place with these contents. -/
def holds (d : Disk) (place : List String) (bytes : ByteArray) : Bool :=
  (d.bytes? place).any fun old => old.data = bytes.data

/-- The files below the home directory that are new or have other contents than before, by the names
on the way to them from there. -/
def changedSince (d before : Disk) : List (List String × ByteArray) :=
  d.fileList.filterMap fun (key, bytes) =>
    if d.home.isPrefixOf key && !before.holds key bytes then
      some (key.drop d.home.length, bytes)
    else none

/-- Files that are read and written on a disk in memory. -/
def files : Files (StateM Disk) where
  read path := do return (← get).read path
  write path text := do
    match (← get).write path text with
    | .ok d =>
      set d
      return .ok ()
    | .error e => return .error e

end Disk

end LuaSyntax
