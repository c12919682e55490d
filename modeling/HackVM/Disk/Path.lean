/-! Paths as they are written: a text whose steps are divided by slashes. Nothing here looks at
what is on the disk. -/

namespace HackVM

structure Path where
  text : String
  deriving DecidableEq

namespace Path

def isAbsolute (path : Path) : Bool :=
  path.text.toList.head? == some '/'

/-- The texts between the slashes, empty ones included. -/
def steps (path : Path) : List String :=
  (path.text.toList.splitOn '/').map String.ofList

/-- The path of `path` as seen from `base`. -/
def join (base path : Path) : Path :=
  if path.isAbsolute then path
  else if base.text.isEmpty || base.text.toList.getLast? == some '/' then
    ⟨base.text ++ path.text⟩
  else ⟨base.text ++ "/" ++ path.text⟩

/-- The text behind the last slash. -/
def fileName (path : Path) : String :=
  String.ofList (path.text.toList.reverse.takeWhile (· != '/')).reverse

/-- The text up to the last slash, which it contains. -/
def folder (path : Path) : String :=
  String.ofList (path.text.toList.reverse.dropWhile (· != '/')).reverse

/-- On a text read backwards: drop the slashes and the steps `.` it begins with, up to a first step
or a leading slash, which stay. -/
def dropIdle : List Char → List Char
  | '/' :: c :: cs => dropIdle (c :: cs)
  | '.' :: '/' :: cs => dropIdle ('/' :: cs)
  | cs => cs

/-- The directory of a file, empty if the path is a bare name. -/
def parent (path : Path) : Path :=
  ⟨String.ofList (dropIdle path.folder.toList.reverse).reverse⟩

end Path

/-- The file that a module is kept in. -/
def moduleFile (name : String) : Path :=
  ⟨name ++ ".vm"⟩

/-- The module that a file holds. A bare extension names none. -/
def moduleName? (fileName : String) : Option String :=
  match ".vm".toList.isSuffixOf? fileName.toList with
  | some [] | none => none
  | some stem => some (String.ofList stem)

def assemblyFile (stem : String) : Path :=
  ⟨stem ++ ".asm"⟩

/-- The file of a module with another extension. Without its extension `..vm` is the step up, and
stays so. -/
def Path.assemblyBeside (path : Path) (name : String) : Path :=
  ⟨path.folder ++ if name = "." then ".." else (assemblyFile name).text⟩

end HackVM
