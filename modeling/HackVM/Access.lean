import HackVM.Text.Split

/-! Where modules are read from and where the program goes, seen as functions: a source opens a
module by name and gives its lines, a sink takes lines into a state of its own. -/

namespace HackVM

/-- Why something could not be read or written. -/
inductive AccessError where
  | noModule (name : String)
  | noModulesIn (path : String)
  | notModule (path : String)
  | notFound
  | notDirectory
  | isDirectory
  | nameTooLong
  /-- A path with a zero byte in it. -/
  | zeroByte
  /-- A line whose bytes are not UTF-8. -/
  | notText
  | unreadable (reason : String)
  | unwritable (reason : String)
  deriving DecidableEq

def AccessError.message : AccessError → String
  | noModule name => "no module named " ++ name
  | noModulesIn path => path ++ ": no .vm modules found"
  | notModule path => path ++ ": not a .vm file or a directory"
  | notFound => "No such file or directory (os error 2)"
  | notDirectory => "Not a directory (os error 20)"
  | isDirectory => "Is a directory (os error 21)"
  | nameTooLong => "File name too long (os error 36)"
  | zeroByte => "file name contained an unexpected NUL byte"
  | notText => "stream did not contain valid UTF-8"
  | unreadable reason => reason
  | unwritable reason => reason

/-- The lines of an opened module, each of which may turn out to be unreadable. -/
abbrev Lines := List (Except AccessError String)

abbrev Source := String → Except AccessError Lines

/-- Modules held in memory, the latest first. -/
abbrev Memory := List (String × String)

/-- A later module takes the place of an earlier one of its name. -/
def Memory.insert (memory : Memory) (name text : String) : Memory :=
  (name, text) :: memory

def Source.ofMemory (memory : Memory) : Source := fun name =>
  match List.lookup name memory with
  | some text => .ok ((Text.lines text).map .ok)
  | none => .error (.noModule name)

inductive WriteMode where
  | replace
  | append
  deriving DecidableEq

/-- What a destination holds after a write. -/
def WriteMode.merge (mode : WriteMode) (old new : List α) : List α :=
  match mode with
  | replace => new
  | append => old ++ new

structure Sink (σ : Type) where
  destination : String
  write : List String → σ → Except AccessError σ

namespace Sink

/-- Lines collected in memory. -/
def memory (mode : WriteMode) : Sink (List String) where
  destination := "memory"
  write lines held := .ok (mode.merge held lines)

/-- A destination that takes nothing. -/
def refusing (destination reason : String) : Sink σ where
  destination := destination
  write _ _ := .error (.unwritable reason)

end Sink

end HackVM
