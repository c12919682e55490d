import HackVM.CommandLine

/-! The command line on a real file system. What a request can look at is copied into a disk, the
request is performed there, and its output file is copied back. -/

namespace HackVM.CommandLine

def usage : String :=
  "usage: hackvm [-o OUTPUT] [--bootstrap | --no-bootstrap] [--append] [--scope-labels] [-v] INPUT"

/-- The entry that a path leads to. -/
def observe (path : String) : IO (Option Entry) := do
  let file := (← IO.currentDir) / path
  try
    match (← file.metadata).type with
    | .dir => return some .directory
    | .file => return some (.file (← IO.FS.readBinFile file).data.toList)
    | _ => return none
  catch _ => return none

def copyEntry (disk : Disk) (location : Location) (path : String) : IO Disk := do
  match ← observe path with
  | some entry => return disk.put location entry
  | none => return disk

/-- Copy everything that a path passes. -/
def copyPath (disk : Disk) (path : Path) : IO Disk := do
  let mut disk := disk
  for n in List.range path.steps.length do
    let steps := path.steps.take (n + 1)
    match steps.foldl Location.move (disk.start path) with
    | [] => pure ()
    | location => disk ← copyEntry disk location ("/".intercalate steps)
  return disk

/-- Copy the modules directly inside a directory. -/
def copyModules (disk : Disk) (path : Path) : IO Disk := do
  let mut disk := disk
  if let .ok (location, .directory) := disk.lookup path then
    for entry in ← ((← IO.currentDir) / path.text).readDir do
      if (moduleName? entry.fileName).isSome then
        disk ← copyEntry disk (entry.fileName :: location) (path.join ⟨entry.fileName⟩).text
  return disk

def workingDisk : IO Disk := do
  let current := ((← IO.currentDir).toString.splitOn "/").filter (· ≠ "")
  return { ({} : Disk).addDirectories current.reverse with current := current.reverse }

/-- Copy the output file of a request from a disk. -/
def copyBack (disk : Disk) (path : Path) : IO Unit := do
  if let .ok (_, .file bytes) := disk.lookup path then
    IO.FS.writeBinFile ((← IO.currentDir) / path.text) bytes.toByteArray

def Request.performReal (r : Request) : IO (Logged (Except RunError Nat)) := do
  let disk ← copyModules (← copyPath (← workingDisk) r.input) r.input
  match discover disk r.input with
  | .error error => return ⟨[], .error error⟩
  | .ok found =>
    let path := r.output found
    let (disk, result) := r.perform (← copyPath disk path)
    match result.value with
    | .error _ => return result
    | .ok _ =>
      try
        copyBack disk path
        return result
      catch error =>
        return { result with value := .error (.notWritten path.text (.unwritable error.toString)) }

end HackVM.CommandLine

open HackVM.CommandLine in
def main (arguments : List String) : IO UInt32 := do
  match Request.read arguments with
  | .error .help =>
    IO.println usage
    return 0
  | .error .usage =>
    IO.eprintln usage
    return 2
  | .ok r =>
    let reply := r.reply (← IO.getEnv "VMIL_LOG") (← r.performReal)
    reply.messages.forM fun line => IO.eprintln line
    return reply.status.toUInt32
