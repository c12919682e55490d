import HackVM.Command.Reader
import HackVM.Context
import HackVM.Event
import HackVM.Program.Error

/-! Linking modules into one assembly program.

A program is the list of the modules linked so far, each with the block of statements that every
one of its commands expanded to. The serial numbers of generated labels run through all modules,
and a module that fails leaves nothing behind but the numbers it has used. -/

namespace HackVM

/-- A command in a program: its normal text, itself, and its statements. -/
structure Block where
  text : String
  command : Command
  code : List Statement
  deriving DecidableEq

def commentLine (text : String) : String :=
  "// " ++ text

def Block.lines (block : Block) : List String :=
  commentLine block.text :: block.code.map Statement.text

structure LinkedModule where
  name : String
  blocks : List Block
  deriving DecidableEq

namespace LinkedModule

def space (m : LinkedModule) : String :=
  namespaceOf m.name

def lines (m : LinkedModule) : List String :=
  m.blocks.flatMap Block.lines

end LinkedModule

/-- What the lines of a module come to, as far as they are in order. -/
structure Listing where
  blocks : List Block := []
  serials : Serials
  log : List Event := []
  error? : Option RunError := none

/-- The listing of the lines from number `n` on. The first line that cannot be read, is no command
or cannot be expanded ends it. -/
def listing (name : String) : Context → Nat → Lines → Listing
  | ctx, _, [] => { serials := ctx.serials }
  | ctx, _, .error cause :: _ => { serials := ctx.serials, error? := some (.notRead name cause) }
  | ctx, n, .ok line :: lines =>
    match normalLine? line with
    | none => listing name ctx (n + 1) lines
    | some text =>
      match Command.read text with
      | .error fault => { serials := ctx.serials, error? := some (.line name n text fault) }
      | .ok command =>
        let event := Event.expanding ctx.space command
        match ctx.expand command with
        | .error fault =>
          { serials := ctx.serials, log := [event], error? := some (.line name n text fault) }
        | .ok (code, ctx') =>
          let rest := listing name ctx' (n + 1) lines
          { rest with blocks := ⟨text, command, code⟩ :: rest.blocks, log := event :: rest.log }

structure Options where
  /-- Begin with code that sets up the stack and calls the entry point. -/
  bootstrap : Bool := false
  scope : LabelScope := .program
  deriving DecidableEq

/-- A result together with the events on the way to it. -/
structure Logged (α : Type) where
  log : List Event
  value : α

structure Program where
  options : Options
  serials : Serials
  modules : List LinkedModule
  deriving DecidableEq

namespace Program

/-- No modules yet. The bootstrap code makes the first call. -/
def empty (options : Options) : Program where
  options := options
  serials := { calls := if options.bootstrap then 1 else 0 }
  modules := []

def bootstrapLines : List String :=
  commentLine "bootstrap" :: (Expansion.bootstrap 0).map Statement.text

def lines (p : Program) : List String :=
  (if p.options.bootstrap then bootstrapLines else []) ++ p.modules.flatMap LinkedModule.lines

/-- The module that a namespace belongs to. -/
def owner? (p : Program) (space : String) : Option String :=
  (p.modules.find? (·.space == space)).map LinkedModule.name

def context (p : Program) (space : String) : Context where
  space := space
  scope := p.options.scope
  serials := p.serials

/-- Expand the lines of a module and put it behind the others if all of them are in order. The
result is the number of its commands. -/
def addLines (p : Program) (name : String) (lines : Lines) :
    Program × Logged (Except RunError Nat) :=
  let result := listing name (p.context (namespaceOf name)) 1 lines
  match result.error? with
  | some error => ({ p with serials := result.serials }, ⟨result.log, .error error⟩)
  | none =>
    let linked : LinkedModule := ⟨name, result.blocks⟩
    let count := result.blocks.length
    ({ p with serials := result.serials, modules := p.modules ++ [linked] },
      ⟨result.log ++ [.moduleLinked name count linked.lines.length], .ok count⟩)

/-- A module has to open, and its namespace must not belong to a module of another name. -/
def add (source : Source) (p : Program) (name : String) :
    Program × Logged (Except RunError Nat) :=
  match source name with
  | .error cause => (p, ⟨[], .error (.notOpened name cause)⟩)
  | .ok lines =>
    match p.owner? (namespaceOf name) with
    | none => p.addLines name lines
    | some owner =>
      if owner = name then
        let added := p.addLines name lines
        (added.1, { added.2 with log := .moduleRepeated name :: added.2.log })
      else (p, ⟨[], .error (.namespaceTaken name owner (namespaceOf name))⟩)

/-- Add modules in order up to the first that fails. -/
def addAll (source : Source) : Program → List String → Logged (Except RunError Program)
  | p, [] => ⟨[], .ok p⟩
  | p, name :: names =>
    let added := p.add source name
    match added.2.value with
    | .error error => ⟨added.2.log, .error error⟩
    | .ok _ =>
      let rest := addAll source added.1 names
      { rest with log := added.2.log ++ rest.log }

end Program

/-- The lines of the program made of the named modules. -/
def link (source : Source) (options : Options) (names : List String) :
    Logged (Except RunError (List String)) :=
  let linked := (Program.empty options).addAll source names
  match linked.value with
  | .error error => ⟨linked.log, .error error⟩
  | .ok program =>
    let lines := program.lines
    ⟨linked.log ++ [.programLinked names.length lines.length options.bootstrap], .ok lines⟩

/-- A single module whose text is at hand. -/
def linkText (name text : String) (options : Options) : Except RunError (List String) :=
  (link (.ofMemory (Memory.insert [] name text)) options [name]).value

/-- Link and hand the lines to a sink, which is written to only if all modules are in order. The
result is the number of lines. -/
def run (source : Source) (options : Options) (names : List String) (sink : Sink σ)
    (held : σ) : σ × Logged (Except RunError Nat) :=
  let linked := link source options names
  match linked.value with
  | .error error => (held, ⟨linked.log, .error error⟩)
  | .ok lines =>
    match sink.write lines held with
    | .error cause => (held, ⟨linked.log, .error (.notWritten sink.destination cause)⟩)
    | .ok held' => (held', ⟨linked.log, .ok lines.length⟩)

end HackVM
