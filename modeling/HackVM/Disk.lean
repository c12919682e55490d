import HackVM.Access
import HackVM.Disk.Path
import HackVM.Text.Utf8

/-! Files and directories, with a current directory. Paths are followed step by step, and every
step starts from a directory that exists. -/

namespace HackVM

/-- The names on the way from an entry up to the top directory, which is the empty list. -/
abbrev Location := List String

/-- Where one step of a path leads. Empty steps and `.` stay, and `..` goes up. -/
def Location.move (location : Location) (name : String) : Location :=
  if name = "" ∨ name = "." then location
  else if name = ".." then location.tail
  else name :: location

inductive Entry where
  | file (bytes : Bytes)
  | directory
  deriving DecidableEq

structure Disk where
  entries : List (Location × Entry) := []
  current : Location := []
  deriving DecidableEq

namespace Disk

def get? (disk : Disk) : Location → Option Entry
  | [] => some .directory
  | name :: above => disk.entries.lookup (name :: above)

def put (disk : Disk) (location : Location) (entry : Entry) : Disk :=
  { disk with entries := (location, entry) :: disk.entries.filter (·.1 != location) }

theorem get?_put_self (disk : Disk) (name : String) (above : Location) (entry : Entry) :
    (disk.put (name :: above) entry).get? (name :: above) = some entry := by
  simp [put, get?]

theorem lookup_filter_of_ne (entries : List (Location × Entry)) {location other : Location}
    (h : other ≠ location) :
    (entries.filter (·.1 != location)).lookup other = entries.lookup other := by
  induction entries with
  | nil => rfl
  | cons entry entries ih =>
    by_cases he : entry.1 = location
    · have hne : (other == entry.1) = false := by simpa [he] using h
      rw [List.filter_cons_of_neg (by simp [he]), ih, List.lookup_cons, hne]
    · rw [List.filter_cons_of_pos (by simp [he]), List.lookup_cons, List.lookup_cons, ih]

theorem get?_put_of_ne (disk : Disk) {location other : Location} (entry : Entry)
    (h : other ≠ location) : (disk.put location entry).get? other = disk.get? other := by
  cases other with
  | nil => rfl
  | cons name above =>
    have hne : (name :: above == location) = false := by simpa using h
    simp only [get?, put, List.lookup_cons, hne]
    exact lookup_filter_of_ne disk.entries h

/-- Make the directories on the way to a location, and the location itself. -/
def addDirectories (disk : Disk) : Location → Disk
  | [] => disk
  | name :: above =>
    let disk := disk.addDirectories above
    if (disk.get? (name :: above)).isSome then disk else disk.put (name :: above) .directory

/-- How many bytes a name may have. -/
def maxName : Nat := 255

/-- How many bytes a whole path may have. -/
def maxPath : Nat := 4095

/-- Follow one step of a path. Empty steps and `.` stay, and `..` goes up. -/
def step (disk : Disk) (location : Location) (name : String) : Except AccessError Location :=
  match disk.get? location with
  | none => .error .notFound
  | some (.file _) => .error .notDirectory
  | some .directory =>
    if name = "" ∨ name = "." then .ok location
    else if name = ".." then .ok location.tail
    else if maxName < name.utf8ByteSize then .error .nameTooLong
    else if (disk.get? (name :: location)).isSome then .ok (name :: location)
    else .error .notFound

/-- Where the first step of a path starts. -/
def start (disk : Disk) (path : Path) : Location :=
  if path.isAbsolute then [] else disk.current

/-- Make every directory that a path passes and lacks, and give the location it leads to. -/
def makeDirectories (disk : Disk) (path : Path) : Disk × Location :=
  path.steps.foldl (fun (disk, location) name =>
    (disk.addDirectories (location.move name), location.move name)) (disk, disk.start path)

/-- Put a file where a path says, in directories made for it. -/
def addFile (disk : Disk) (path : Path) (bytes : Bytes) : Disk :=
  let (disk, directory) := disk.makeDirectories ⟨path.folder⟩
  disk.put (path.fileName :: directory) (.file bytes)

/-- What rules a path out before its first step. -/
def check (path : Path) : Except AccessError Unit :=
  if '\x00' ∈ path.text.toList then .error .zeroByte
  else if path.text.isEmpty then .error .notFound
  else if maxPath < path.text.utf8ByteSize then .error .nameTooLong
  else .ok ()

def resolve (disk : Disk) (path : Path) : Except AccessError Location := do
  check path
  path.steps.foldlM disk.step (disk.start path)

def lookup (disk : Disk) (path : Path) : Except AccessError (Location × Entry) := do
  let location ← disk.resolve path
  match disk.get? location with
  | some entry => .ok (location, entry)
  | none => .error .notFound

def isFile (disk : Disk) (path : Path) : Bool :=
  match disk.lookup path with
  | .ok (_, .file _) => true
  | _ => false

/-- The names of the files directly inside a directory. -/
def fileNames (disk : Disk) (directory : Location) : List String :=
  disk.entries.filterMap fun
    | (name :: above, .file _) => if above = directory then some name else none
    | _ => none

def decodeLine (bytes : Bytes) : Except AccessError String :=
  match Text.decode? bytes with
  | some line => .ok line
  | none => .error .notText

/-- Lines are cut before they are decoded, so that bytes which are no text spoil only their line. -/
def fileLines (bytes : Bytes) : Lines :=
  (Text.splitLines 10 13 bytes).map decodeLine

/-- A directory opens like a file and cannot be read. -/
def readLines (disk : Disk) (path : Path) : Except AccessError Lines := do
  match ← disk.lookup path with
  | (_, .file bytes) => .ok (fileLines bytes)
  | (_, .directory) => .ok [.error .isDirectory]

/-- The location of a file that may still have to be made. Its directory has to exist, and the path
must not be one that only a directory can have. -/
def target (disk : Disk) (path : Path) : Except AccessError Location := do
  check path
  match path.steps.reverse.dropWhile (· == "") with
  | [] => .error .isDirectory
  | name :: above =>
    let directory ← (above.reverse ++ ["."]).foldlM disk.step (disk.start path)
    if path.steps.getLast? = some "" ∨ name = "." ∨ name = ".." then .error .isDirectory
    else if maxName < name.utf8ByteSize then .error .nameTooLong
    else if disk.get? (name :: directory) = some .directory then .error .isDirectory
    else .ok (name :: directory)

def write (disk : Disk) (path : Path) (mode : WriteMode) (bytes : Bytes) :
    Except AccessError Disk := do
  let location ← disk.target path
  let old := match disk.get? location with
    | some (.file old) => old
    | _ => []
  return disk.put location (.file (mode.merge old bytes))

end Disk

/-- The modules in the files of a directory. -/
def Source.ofDirectory (disk : Disk) (root : Path) : Source := fun name =>
  disk.readLines (root.join (moduleFile name))

/-- A file on the disk, every line ended by a line feed. -/
def Sink.file (path : Path) (mode : WriteMode) : Sink Disk where
  destination := path.text
  write lines disk := disk.write path mode (Text.encode (Text.unlines lines))

end HackVM
