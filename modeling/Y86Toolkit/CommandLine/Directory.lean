import Std.Data.TreeMap
import Y86Toolkit.CommandLine.File
import Y86Toolkit.Text.Lines

/-!
The directory in which the commands work, and the paths that lead from it to a
file. A path is followed piece by piece, and what stands behind its last name
matters only once that name has been reached. Writing to a path that ends in
the directory changes the file it leads to and no other (`contents_write`).
-/

namespace Y86Toolkit.CommandLine

/-- A directory in which a path can stand. -/
inductive Place where
  /-- The one in which the commands work. -/
  | here
  /-- One somewhere else, of which nothing is known to be in it. -/
  | elsewhere
  /-- The one above all others. -/
  | root
  /-- The one that holds the devices. -/
  | devices
  deriving DecidableEq, Repr

/-- The directory above. -/
def Place.parent : Place → Place
  | here | elsewhere => elsewhere
  | root | devices => root

/-- What a name can stand for. -/
inductive Entry where
  | directory (place : Place)
  | file (bytes : ByteArray)
  /-- The device that is always empty and keeps nothing of what is written. -/
  | null

/-- What a path leads to. -/
inductive Target where
  | directory
  /-- A name in a directory. With a slash behind it the path is closed: it can
  only mean another directory. -/
  | entry (place : Place) (name : String) (closed : Bool)
  deriving DecidableEq, Repr

/-- The files of a directory that has no directories inside of it. It is all that is kept
of a system: elsewhere no file is found, and one that is written there is lost. What
holds of every system of files is said of the texts at its paths instead. -/
structure Directory where
  files : Std.TreeMap String ByteArray := {}

namespace Directory

/-- The most bytes in a name. -/
def maxNameSize : Nat := 255

/-- The most bytes in a path. -/
def maxPathSize : Nat := 4095

/-- The bytes of the file with a name. -/
def contents? (d : Directory) (name : String) : Option ByteArray := d.files[name]?

/-- What a name stands for at a place. Every system has a directory for its
devices, with the empty one in it, and a directory for what is temporary. -/
def entry? (d : Directory) (place : Place) (name : String) : Option Entry :=
  match place, name with
  | .here, name => (d.contents? name).map .file
  | .root, "dev" => some (.directory .devices)
  | .root, "tmp" => some (.directory .elsewhere)
  | .devices, "null" => some .null
  | _, _ => none

/-- Looks a name up. -/
def lookUp (d : Directory) (place : Place) (name : String) : Except FileError (Option Entry) :=
  if maxNameSize < name.utf8ByteSize then .error .nameTooLong else .ok (d.entry? place name)

/-- Follows a piece of a path that more pieces stand behind. -/
def enter (d : Directory) (place : Place) (piece : String) : Except FileError Place :=
  if piece = "." then .ok place
  else if piece = ".." then .ok place.parent
  else do
    match ← d.lookUp place piece with
    | some (.directory inside) => return inside
    | some _ => throw .notADirectory
    | none => throw .missing

/-- Follows a path up to its last name, which need not be there. A path that
begins with a slash starts at the root, and more slashes than one count as
one. -/
def locate (d : Directory) (path : String) : Except FileError Target :=
  if path = "" then .error .missing
  else if maxPathSize < path.utf8ByteSize then .error .nameTooLong
  else
    let pieces := (Text.pieces '/' path.toList).map String.ofList
    let start := if pieces.head? = some "" then Place.root else .here
    let names := pieces.filter (· ≠ "")
    match names.getLast? with
    | none => .ok .directory
    | some last => do
      let place ← names.dropLast.foldlM d.enter start
      if last = "." ∨ last = ".." then return .directory
      else return .entry place last (pieces.getLast? = some "")

/-- Reads the text of the file at a path. -/
def read (d : Directory) (path : String) : Except FileError String := do
  match ← d.locate path with
  | .directory => throw .isADirectory
  | .entry place name closed =>
    match ← d.lookUp place name with
    | none => throw .missing
    | some (.directory _) => throw .isADirectory
    | some (.file bytes) => if closed then throw .notADirectory else decodeText bytes
    | some .null => if closed then throw .notADirectory else return ""

/-- Writes a text to the file at a path, which need not be there yet. -/
def write (d : Directory) (path text : String) : Except FileError Directory := do
  match ← d.locate path with
  | .directory | .entry _ _ true => throw .isADirectory
  | .entry place name false =>
    match ← d.lookUp place name, place with
    | some (.directory _), _ => throw .isADirectory
    | some .null, _ => return d
    | _, .here => return ⟨d.files.insert name text.toUTF8⟩
    | _, _ => return d

/-- Only files are inside the directory. -/
theorem entry_here (d : Directory) (name : String) :
    d.entry? .here name = (d.contents? name).map .file := by
  unfold entry?
  split <;> simp_all

theorem contents_write {d after : Directory} {path text name : String}
    (located : d.locate path = .ok (.entry .here name false))
    (written : d.write path text = .ok after) (other : String) :
    after.contents? other = if other = name then some text.toUTF8 else d.contents? other := by
  have inserted : after = ⟨d.files.insert name text.toUTF8⟩ := by
    rw [write, located] at written
    cases found : d.lookUp .here name with
    | error e => simp [found, bind, Except.bind] at written
    | ok entry =>
      have kind : entry = (d.contents? name).map .file := by
        unfold lookUp at found
        split at found
        · contradiction
        · rw [← entry_here]
          exact (Except.ok.inj found).symm
      cases held : d.contents? name <;>
        simp_all [bind, Except.bind, pure, Except.pure]
  subst inserted
  simp only [contents?, Std.TreeMap.getElem?_insert, Std.LawfulEqCmp.compare_eq_iff_eq]
  grind

end Directory

end Y86Toolkit.CommandLine
