import Chip8.Game.Path
import Chip8.Text.Quoted

/-!
File systems, as far as reading a game asks of them. The status of a path is looked up first, and
what is found there may then be opened and read; the system can fail in either. A file tree is a
file system with the files below one folder, the one in which programs run; of the world above it
nothing is known but folders.
-/
namespace Chip8

/-- An error of the operating system. -/
structure SystemError where
  number : Nat
  text : String
  /-- The path that the error is about, if the system names one. -/
  path : Option Path
deriving DecidableEq, Repr

namespace SystemError

def message (e : SystemError) : String :=
  let named := e.path.elim "" fun path => s!": {Quoted.quote path.text}"
  s!"[Errno {e.number}] {e.text}{named}"

/-- A part of the path, or all of it, is longer than names may be. -/
def nameTooLong (path : Path) : SystemError := ⟨36, "File name too long", some path⟩

def permissionDenied (path : Path) : SystemError := ⟨13, "Permission denied", some path⟩

end SystemError

/-- A file, as its status and its opening tell of it. -/
structure StoredFile where
  /-- The size that the status states. -/
  size : Nat
  /-- What is read after the file has been opened. -/
  content : Except SystemError (List UInt8)
  /-- Between status and reading the file does not change. -/
  steady : ∀ bytes, content = .ok bytes → bytes.length = size

/-- A file that can be read. -/
def StoredFile.ofBytes (bytes : List UInt8) : StoredFile where
  size := bytes.length
  content := .ok bytes
  steady _ h := congrArg List.length (Except.ok.inj h).symm

/-- What the status of a path tells. A path is missing also where a part on its way is no folder,
where links on its way lead in a circle, and where it holds a null character. -/
inductive Lookup where
  | missing
  /-- A folder, or anything else that is no regular file. -/
  | folder
  | file (f : StoredFile)
  /-- The system fails, which does not tell whether there is anything. -/
  | failed (e : SystemError)

abbrev FileSystem := Path → Lookup

namespace FileSystem

/-- At the path there is a file with this content. -/
def Holds (files : FileSystem) (path : Path) (bytes : List UInt8) : Prop :=
  ∃ f, files path = .file f ∧ f.content = .ok bytes

/-- The system fails with this error when the path is looked up, or when the file there is read. -/
def FailsAt (files : FileSystem) (path : Path) (e : SystemError) : Prop :=
  files path = .failed e ∨ ∃ f, files path = .file f ∧ f.content = .error e

end FileSystem

inductive Entry where
  | folder
  | file (content : List UInt8)
deriving DecidableEq, Repr

/-- The entries below a folder by their parts, later ones before earlier ones of the same name.
The folders on the way to an entry are listed too. -/
abbrev FileTree := List (List String × Entry)

namespace FileTree

/-- The longest part that may be looked up, in bytes. -/
def longestPart : Nat := 255

/-- The longest path that may be looked up, in bytes. -/
def longestPath : Nat := 4095

/-- What is at the given parts. -/
def entry? (t : FileTree) (parts : List String) : Option Entry :=
  if parts = [] then some .folder else t.lookup parts

/-- A place on the way: parts below the known folder, or some folder outside. -/
inductive Place where
  | inside (parts : List String)
  | outside
deriving DecidableEq, Repr

/-- The folder around a place. -/
def Place.parent : Place → Place
  | .outside => .outside
  | .inside parts => if parts = [] then .outside else .inside parts.dropLast

/-- The place one part further on. -/
def Place.next (p : Place) (part : String) : Place :=
  if part = ".." then p.parent
  else
    match p with
    | .outside => .outside
    | .inside parts => .inside (parts ++ [part])

/-- Puts an entry at a place. What is outside is not kept. -/
def put (t : FileTree) (entry : Entry) : Place → FileTree
  | .outside => t
  | .inside parts => (parts, entry) :: t

/-- An entry that was put is found, and those at other places are kept. -/
theorem entry?_put (t : FileTree) (entry : Entry) {parts : List String} (h : parts ≠ [])
    (other : List String) :
    entry? (put t entry (.inside parts)) other =
      if other = parts then some entry else entry? t other := by
  unfold entry? put
  by_cases ho : other = []
  · rw [if_pos ho, if_pos ho, if_neg (fun he : other = parts => h (he ▸ ho))]
  · rw [if_neg ho, if_neg ho, List.lookup_cons]
    by_cases he : other = parts
    · rw [if_pos he, beq_iff_eq.mpr he]
    · rw [if_neg he, beq_eq_false_iff_ne.mpr he]

/-- Adds an entry at the end of a way, whose places all become folders, those that it leaves
again as well. -/
def addFrom (entry : Entry) : FileTree → Place → List String → FileTree
  | t, p, [] => t.put entry p
  | t, p, part :: rest => addFrom entry (t.put .folder p) (p.next part) rest

/-- Adds an entry with its folders. -/
def add (t : FileTree) (parts : List String) (entry : Entry) : FileTree :=
  addFrom entry t (.inside []) parts

/-- The lookup from a place on, with what to answer to a part that is too long. Every place that is
left has to be a folder. -/
def walk (t : FileTree) (tooLong : Lookup) : Place → List String → Lookup
  | .outside, [] => .folder
  | .outside, part :: rest =>
    if part = ".." then walk t tooLong .outside rest
    else if part.utf8ByteSize > longestPart then tooLong
    else .missing
  | .inside parts, [] =>
    match t.entry? parts with
    | none => .missing
    | some .folder => .folder
    | some (.file content) => .file (.ofBytes content)
  | .inside parts, part :: rest =>
    if t.entry? parts ≠ some .folder then .missing
    else if part = ".." then walk t tooLong (Place.inside parts).parent rest
    else if part.utf8ByteSize > longestPart then tooLong
    else walk t tooLong (.inside (parts ++ [part])) rest

/-- The file system of a tree. -/
def lookup (t : FileTree) : FileSystem := fun path =>
  let tooLong := Lookup.failed (.nameTooLong path)
  if path.parts.any (·.toList.contains '\x00') then .missing
  else if path.text.utf8ByteSize > longestPath then tooLong
  else walk t tooLong (if path.root = 0 then .inside [] else .outside) path.parts

end FileTree

end Chip8
