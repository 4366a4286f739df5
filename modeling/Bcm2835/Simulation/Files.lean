import Bcm2835.Failure

/-! Files of a simulated system, each at its place: the names that lead to it from the top. -/

namespace Bcm2835.Simulation

inductive Entry where
  | file (content : List UInt8)
  | directory
  deriving DecidableEq, Repr

/-- The files and directories that are listed, and the directories on the way to them. -/
structure Files where
  entries : List (List String × Entry) := []
  /-- The place of the working directory, which is listed or on the way to an entry. -/
  working : List String := []
  deriving DecidableEq, Repr

namespace Files

/-- Bytes of the longest name. -/
def nameLimit : Nat := 255

/-- Bytes that a path has to stay below. -/
def pathLimit : Nat := 4096

/-- What is at a place. -/
def entryAt? (fs : Files) (place : List String) : Option Entry :=
  match fs.entries.lookup place with
  | some entry => some entry
  | none =>
    if place.isEmpty || fs.entries.any fun e => place.isPrefixOf e.1 then some .directory else none

/-- Whether a step of a path stays where it is. -/
def stays (name : String) : Bool := name.isEmpty || name == "."

/-- The place behind one step of a path. -/
def step (fs : Files) (place : List String) (name : String) : Except FileError (List String) :=
  match fs.entryAt? place with
  | none => .error .notFound
  | some (.file _) => .error .notDirectory
  | some .directory =>
    if stays name then .ok place
    else if name == ".." then .ok place.dropLast
    else if nameLimit < name.utf8ByteSize then .error .nameTooLong
    else if (fs.entryAt? (place ++ [name])).isSome then .ok (place ++ [name])
    else .error .notFound

/-- The place where a path starts: the top, if a slash is first. -/
def start (fs : Files) (path : String) : List String :=
  if path.toList.head? = some '/' then [] else fs.working

/-- The place that a path leads to. -/
def resolve (fs : Files) (path : String) : Except FileError (List String) :=
  if path.toList.contains (Char.ofNat 0) then .error .zeroInName
  else if path.isEmpty then .error .notFound
  else if pathLimit ≤ path.utf8ByteSize then .error .nameTooLong
  else (path.splitOn "/").foldlM fs.step (fs.start path)

/-- The bytes of a file. -/
def read (fs : Files) (path : String) : Except FileError (List UInt8) := do
  match fs.entryAt? (← fs.resolve path) with
  | some (.file content) => return content
  | some .directory => .error .isDirectory
  | none => .error .notFound

/-- The byte at a position of a file, unless the file ends before it. -/
def byteAt? (fs : Files) (path : String) (position : Nat) : Option UInt8 :=
  match fs.read path with
  | .ok content => content[position]?
  | .error _ => none

/-- Stores a byte into a file. Positions behind its end are not kept. -/
def store (fs : Files) (path : String) (position : Nat) (byte : UInt8) : Files :=
  match fs.resolve path with
  | .error _ => fs
  | .ok place =>
    { fs with entries := fs.entries.map fun (other, entry) =>
        match entry with
        | .file content => (other, if other = place then .file (content.set position byte) else entry)
        | .directory => (other, entry) }

end Files

end Bcm2835.Simulation
