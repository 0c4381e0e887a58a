import AgeCrypt.Bytes
import AgeCrypt.Files.Path
import AgeCrypt.Io.Error

/-!
# File stores

A file store holds files under places, a place being the names on the way from the root.  It also
holds directories: those on the way to a file, the current one, and some that are listed because
nothing need be in them.

Paths are followed name by name, and whatever stands before a slash must be a directory.
-/

namespace AgeCrypt

/-- Where a file or a directory is: the names on the way from the root. -/
abbrev Place : Type := List String

structure FileStore where
  files : List (Place × Bytes) := []
  -- Directories that need not hold any file.
  directories : List Place := []
  -- The directory that relative paths start from.
  current : Place := []

namespace FileStore

/-! ## Places -/

def contents? (s : FileStore) (p : Place) : Option Bytes :=
  s.files.lookup p

def isDirectory (s : FileStore) (p : Place) : Bool :=
  (s.contents? p).isNone
    && (p.isPrefixOf s.current
      || s.directories.any p.isPrefixOf
      || s.files.any fun f => p.isPrefixOf f.1)

def holds (s : FileStore) (p : Place) : Bool :=
  (s.contents? p).isSome || s.isDirectory p

def put (s : FileStore) (p : Place) (b : Bytes) : FileStore :=
  { s with files := (p, b) :: s.files.filter fun f => f.1 ≠ p }

/-- What is put somewhere is found there. -/
theorem contents?_put_self (s : FileStore) (p : Place) (b : Bytes) :
    (s.put p b).contents? p = some b := by
  simp [contents?, put]

/-- What is put somewhere changes no other file. -/
theorem contents?_put_of_ne (s : FileStore) {p q : Place} (b : Bytes) (h : q ≠ p) :
    (s.put p b).contents? q = s.contents? q := by
  have hb : (q == p) = false := by simpa using h
  have hf : List.lookup q (s.files.filter fun f => decide (f.1 ≠ p)) = List.lookup q s.files := by
    induction s.files with
    | nil => rfl
    | cons f fs ih =>
        obtain ⟨place, contents⟩ := f
        by_cases hp : place = p
        · have hq : (q == place) = false := by simpa [hp] using h
          simpa [hp, List.lookup_cons, hq, hb] using ih
        · simp only [ne_eq, hp, not_false_eq_true, decide_true, List.filter_cons_of_pos,
            List.lookup_cons]
          rw [← ih]
  simp only [contents?, put, List.lookup_cons, hb, hf]

/-! ## Paths -/

def maxNameLength : Nat := 255

def maxPathLength : Nat := 4095

/-- The place that the parts of a path lead to from a place.  Only directories are passed
through. -/
def walk (s : FileStore) : Place → List String → Except SystemError Place
  | p, [] => .ok p
  | p, part :: parts =>
      if s.isDirectory p then
        if Path.isVoid part then walk s p parts
        else if part = ".." then walk s p.dropLast parts
        else if maxNameLength < part.utf8ByteSize then .error .nameTooLong
        else walk s (p ++ [part]) parts
      else if s.holds p then
        .error .notADirectory
      else
        .error .notFound

/-- The place that `parts` lead to, which were taken from a path. -/
def follow (s : FileStore) (path : String) (parts : List String) : Except SystemError Place :=
  if path.toList.contains '\x00' then
    .error .zeroInPath
  else if path = "" then
    .error .notFound
  else if maxPathLength < path.utf8ByteSize then
    .error .nameTooLong
  else
    s.walk (if path.startsWith "/" then [] else s.current) parts

def locate (s : FileStore) (path : String) : Except SystemError Place :=
  s.follow path (Path.parts path)

def exists? (s : FileStore) (path : String) : Bool :=
  match s.locate path with
  | .ok p => s.holds p
  | .error _ => false

/-! ## Reading -/

def openPlace (s : FileStore) (path : String) : Except SystemError Place :=
  match s.locate path with
  | .ok p => if s.holds p then .ok p else .error .notFound
  | .error e => .error e

/-- Read what has been opened; a directory has nothing to read. -/
def readPlace (s : FileStore) (p : Place) : Except IoError Bytes :=
  match s.contents? p with
  | some b => .ok b
  | none => .error (.system .isADirectory)

def read (s : FileStore) (path : String) : Except IoError Bytes :=
  match s.openPlace path with
  | .ok p => s.readPlace p
  | .error e => .error (.system e)

/-! ## Creating -/

/-- The place for the file that a path leads to.  A last name with a slash after it means a
directory, whatever is there. -/
def locateFile (s : FileStore) (path : String) : Except SystemError Place :=
  match Path.beforeSlashed? (Path.parts path) with
  | none => s.locate path
  | some before =>
      match s.follow path (before ++ ["."]) with
      | .ok _ => .error .isADirectory
      | .error e => .error e

/-- Make the file that a path leads to, or empty it. -/
def create (s : FileStore) (path : String) : Except SystemError (Place × FileStore) :=
  match s.locateFile path with
  | .ok p => if s.isDirectory p then .error .isADirectory else .ok (p, s.put p [])
  | .error e => .error e

/-- Make the file that a path leads to; there must be nothing yet. -/
def createNew (s : FileStore) (path : String) : Except SystemError (Place × FileStore) :=
  match s.locateFile path with
  | .ok p => if s.holds p then .error .alreadyExists else .ok (p, s.put p [])
  | .error e => .error e

end FileStore

end AgeCrypt
