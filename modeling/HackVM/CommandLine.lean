import HackVM.CommandLine.Request
import HackVM.Disk.Discovery
import HackVM.Program
import HackVM.Text.Quoted

/-! What the command line does, as a function from a disk to a disk. -/

namespace HackVM.CommandLine

/-- A single file is a part of a program unless the arguments say otherwise. -/
def Request.options (r : Request) (found : Discovery) : Options where
  bootstrap := r.has .bootstrap || (found.isDirectory && !r.has .noBootstrap)
  scope := if r.has .scopeLabels then .function else .program

def Request.output (r : Request) (found : Discovery) : Path :=
  r.output?.getD found.output

def Request.mode (r : Request) : WriteMode :=
  if r.has .append then .append else .replace

def Request.perform (r : Request) (disk : Disk) : Disk × Logged (Except RunError Nat) :=
  match discover disk r.input with
  | .error error => (disk, ⟨[], .error error⟩)
  | .ok found =>
    let sink := Sink.file (r.output found) r.mode
    let ran := run (Source.ofDirectory disk found.root) (r.options found) found.modules sink disk
    let warning := if r.has .append then [Event.appending] else []
    (ran.1, { ran.2 with log := warning ++ ran.2.log })

/-- The most talkative level that is shown: the one asked for by name, or else one that depends on
the request. Names that are no level show nothing. -/
def shownLevel? (setting? : Option String) (r : Request) : Option Level :=
  match setting? with
  | some name => Level.all.find? fun level => Text.lower level.text == Text.lower name
  | none => some (if r.has .verbose then .debug else .warn)

def shownLog (level? : Option Level) (log : List Event) : List String :=
  match level? with
  | none => []
  | some level => (log.filter (·.level.rank ≤ level.rank)).map (Event.text Text.quote)

structure Reply where
  status : Nat
  messages : List String := []
  deriving DecidableEq

def Request.reply (r : Request) (setting? : Option String) (result : Logged (Except RunError Nat)) :
    Reply :=
  let log := shownLog (shownLevel? setting? r) result.log
  match result.value with
  | .ok _ => ⟨0, log⟩
  | .error error => ⟨1, log ++ Text.lines error.message⟩

/-- Run the command line on a disk. -/
def respond (arguments : List String) (setting? : Option String) (disk : Disk) : Disk × Reply :=
  match Request.read arguments with
  | .error .help => (disk, ⟨0, []⟩)
  | .error .usage => (disk, ⟨2, []⟩)
  | .ok r =>
    let result := r.perform disk
    (result.1, r.reply setting? result.2)

end HackVM.CommandLine
