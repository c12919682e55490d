import HackVM.Disk
import HackVM.Program.Error

/-! Finding the modules that an input stands for. -/

namespace HackVM

structure Discovery where
  /-- The directory that the modules are read from. -/
  root : Path
  modules : List String
  /-- Where the program goes if nothing else is asked for. -/
  output : Path
  isDirectory : Bool
  deriving DecidableEq

def sortNames (names : List String) : List String :=
  names.mergeSort fun a b => decide (a ≤ b)

/-- The files directly inside a directory that can be reached through a path to it. -/
def Disk.filesUnder (disk : Disk) (path : Path) (directory : Location) : List String :=
  (disk.fileNames directory).filter fun name => disk.isFile (path.join ⟨name⟩)

/-- A directory stands for the modules directly inside it, in the order of their names; any other
input has to be the file of one module. -/
def discover (disk : Disk) (input : Path) : Except RunError Discovery :=
  match disk.lookup input with
  | .ok (location, .directory) =>
    match sortNames ((disk.filesUnder input location).filterMap moduleName?) with
    | [] => .error (.notOpened input.text (.noModulesIn input.text))
    | names =>
      .ok {
        root := input
        modules := names
        output := input.join (assemblyFile (location.head?.getD "out"))
        isDirectory := true }
  | .ok (_, .file _) =>
    match moduleName? input.fileName with
    | none => .error (.notOpened input.text (.notModule input.text))
    | some name =>
      .ok {
        root := input.parent
        modules := [name]
        output := input.assemblyBeside name
        isDirectory := false }
  | .error _ => .error (.notOpened input.text (.notModule input.text))

end HackVM
