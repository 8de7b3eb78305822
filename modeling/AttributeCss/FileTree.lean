/-
A tree of files below a root directory.

Module sources and stored snapshots may live in files.  A path is a list of
names between slashes; the names `.` and the empty name stay where they are,
and `..` goes one directory up, from the root too, but of what lies above it
the tree knows nothing.  Every name but the last of a path must be that of a
directory, and the last too if a slash follows it.

Using a path to make something may fail half way: the directories made until
then stay.  An action is therefore a function on trees whether it fails or
not.
-/
import AttributeCss.Snapshot

namespace AttributeCss

/-- What a name in a directory stands for. -/
inductive FileNode where
  | directory (entries : List (Text × FileNode))
  | file (bytes : ByteArray)

/-- Why a file cannot be used. -/
inductive FileError where
  | notFound
  | isDirectory
  | notDirectory
  | invalidData
  | invalidName
  /-- A name takes more than 255 bytes, or the path too many. -/
  | nameTooLong
  /-- Nothing can be made above the root. -/
  | outside
deriving DecidableEq, Repr

def FileError.message : FileError → Text
  | notFound => "not found"
  | isDirectory => "is a directory"
  | notDirectory => "not a directory"
  | invalidData => "not a text"
  | invalidName => "not a file name"
  | nameTooLong => "file name too long"
  | outside => "not below the root"

namespace FileNode

/-- The node of a name in a directory. -/
def child? : FileNode → Text → Option FileNode
  | directory entries, name => entries.lookup name
  | file _, _ => none

/-- The node with another one below it, at the end of the names; directories on the way that are
missing are made. -/
def put : FileNode → List Text → FileNode → FileNode
  | _, [], new => new
  | directory entries, name :: rest, new =>
      let below := (entries.lookup name).getD (directory [])
      directory ((name, below.put rest new) :: entries.filter fun e => e.1 ≠ name)
  | file bytes, _ :: _, _ => file bytes

theorem child?_put_self (entries : List (Text × FileNode)) (name : Text) (new : FileNode) :
    ((directory entries).put [name] new).child? name = some new := by
  simp [put, child?]

theorem child?_put_of_ne {name other : Text} (entries : List (Text × FileNode))
    (rest : List Text) (new : FileNode) (h : other ≠ name) :
    ((directory entries).put (name :: rest) new).child? other =
      (directory entries).child? other := by
  have hb : (other == name) = false := by simpa using h
  simp only [put, child?, List.lookup_cons, hb]
  induction entries with
  | nil => rfl
  | cons e es ih =>
    obtain ⟨k, v⟩ := e
    by_cases hk : k = name
    · subst hk
      simpa [List.lookup_cons, hb] using ih
    · cases ho : other == k <;> simp_all [List.lookup_cons]

end FileNode

/-- A tree of files. -/
structure FileTree where
  root : FileNode := .directory []

/-- Where a walk stands. -/
structure FilePlace where
  /-- How many directories above the root the names start. -/
  above : Nat := 0
  /-- The names from there, the last one first, each with its directory. -/
  trail : List (Text × FileNode) := []

/-- A use of a tree that may change it and may fail. -/
abbrev FileAction := ExceptT FileError (StateM FileTree)

/-! ## Paths -/

namespace Path

def isIdle (name : Text) : Bool := name.isEmpty || name = "."

/-- The names of a path that do not stay. -/
def names (path : Text) : List Text := (path.splitOn '/').filter fun name => !isIdle name

/-- A slash or an idle name follows the last name that does not stay. -/
def endsIdle (path : Text) : Bool := (path.splitOn '/').getLast?.any isIdle

/-- The last name between the slashes is the dot. -/
def endsInDot (path : Text) : Bool :=
  ((path.splitOn '/').filter fun name => !name.isEmpty).getLast? = some "."

/-- The path of the directory in which the last name of a path lies. -/
def parent (path : Text) : Text :=
  let behind := ((path.splitOn '/').reverse.dropWhile isIdle).tail
  ['/'].intercalate (behind.dropWhile isIdle).reverse

def nameLimit : Nat := 255

/-- The most bytes of a path below the root. -/
def pathLimit : Nat := 4079

/-- Why the path can lead nowhere, whatever the tree holds. -/
def check (path : Text) : Except FileError Unit :=
  if path.contains '\x00' then .error .invalidName
  else if pathLimit < Text.byteWidth path then .error .nameTooLong
  else .ok ()

end Path

/-! ## Walking -/

namespace FilePlace

/-- The names of a place below the root. -/
def names (p : FilePlace) : List Text := (p.trail.map Prod.fst).reverse

def up (p : FilePlace) : FilePlace :=
  match p.trail with
  | [] => { p with above := p.above + 1 }
  | _ :: trail => { p with trail }

/-- Down to a directory with the given name. -/
def down (p : FilePlace) (name : Text) (node : FileNode) : FilePlace :=
  { p with trail := (name, node) :: p.trail }

end FilePlace

namespace FileTree

def directoryAt (t : FileTree) (p : FilePlace) : FileNode :=
  match p.trail with
  | (_, node) :: _ => node
  | [] => if p.above = 0 then t.root else .directory []

/-- What a name stands for in the directory at a place. -/
def entry? (t : FileTree) (p : FilePlace) (name : Text) : Except FileError (Option FileNode) :=
  if Path.nameLimit < Text.byteWidth name then .error .nameTooLong
  else .ok ((t.directoryAt p).child? name)

/-- Goes along names from a place, through directories only. -/
def walk (t : FileTree) (p : FilePlace) : List Text → Except FileError FilePlace
  | [] => .ok p
  | name :: rest =>
      if name = ".." then t.walk p.up rest
      else
        match t.entry? p name with
        | .error e => .error e
        | .ok none => .error .notFound
        | .ok (some (.file _)) => .error .notDirectory
        | .ok (some node) => t.walk (p.down name node) rest

/-! ## Reading -/

def readBytes (t : FileTree) (path : Text) : Except FileError ByteArray := do
  Path.check path
  match (Path.names path).reverse with
  | [] => throw .isDirectory
  | last :: before =>
      let p ← t.walk {} before.reverse
      if last = ".." then throw .isDirectory
      match ← t.entry? p last with
      | none => throw .notFound
      | some (.directory _) => throw .isDirectory
      | some (.file bytes) => if Path.endsIdle path then throw .notDirectory else return bytes

def readText (t : FileTree) (path : Text) : Except FileError Text := do
  match Text.ofBytes? (← t.readBytes path) with
  | some text => return text
  | none => throw .invalidData

/-- The store that a file is: nothing yet if there is no such file. -/
def store (t : FileTree) (path : Text) : Store :=
  match t.readBytes path with
  | .ok bytes => .memory (some bytes)
  | .error .notFound => .memory none
  | .error e => .refusing e.message

/-! ## Making -/

/-- Puts a node under a name at a place. -/
def put (p : FilePlace) (name : Text) (node : FileNode) : FileAction Unit := do
  if p.above ≠ 0 then throw .outside
  modify fun t => { t with root := t.root.put (p.names ++ [name]) node }

/-- Makes one directory, unless it is there; those it lies in must be there. -/
def makeOne (before : List Text) (name : Text) : FileAction Unit := do
  let t ← get
  let p ← t.walk {} before
  if name = ".." then return
  match ← t.entry? p name with
  | some (.directory _) => return
  | some (.file _) => throw .notDirectory
  | none => put p name (.directory [])

/-- Makes the directory at the end of the names, which are given last one first.  If it is missing
a directory to lie in, that one is made before it. -/
def makeAlong : List Text → FileAction Unit
  | [] => return
  | name :: before =>
      tryCatch (makeOne before.reverse name) fun e =>
        if e = .notFound then do
          makeAlong before
          makeOne before.reverse name
        else throw e

/-- Makes a directory and those it lies in.  A path that ends in a dot makes only the latter: what
the dot stands in must be there then. -/
def makeDirectory (path : Text) : FileAction Unit := do
  Path.check path
  let names := Path.names path
  if Path.endsInDot path then
    tryCatch (do let _ ← (← get).walk {} names) fun e =>
      if e = .notFound then do
        makeAlong names.reverse.tail
        let _ ← (← get).walk {} names
      else throw e
  else makeAlong names.reverse

/-- Writes a file whose directory is there. -/
def writeBytes (path : Text) (bytes : ByteArray) : FileAction Unit := do
  Path.check path
  match (Path.names path).reverse with
  | [] => throw .isDirectory
  | last :: before =>
      let t ← get
      let p ← t.walk {} before.reverse
      if last = ".." || Path.endsIdle path then throw .isDirectory
      match ← t.entry? p last with
      | some (.directory _) => throw .isDirectory
      | _ => put p last (.file bytes)

/-- Writes a file and makes the directories it lies in. -/
def writeWithParents (path : Text) (bytes : ByteArray) : FileAction Unit := do
  makeDirectory (Path.parent path)
  writeBytes path bytes

def writeSnapshot (path : Text) (s : Snapshot) (t : FileTree) :
    Except SnapshotError Unit × FileTree :=
  match (writeWithParents path s.encode).run.run t with
  | (.ok (), t) => (.ok (), t)
  | (.error e, t) => (.error (.store e.message), t)

end FileTree

end AttributeCss
