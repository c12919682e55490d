import HackVM.Disk.Path

/-! Reading the arguments of the command line.

There is one operand, the input. Options stand before or after it up to a `--`, each at most once.
The output is named by `-o` or `--output`, in the same argument or in the next one. -/

namespace HackVM.CommandLine

inductive Switch where
  | bootstrap
  | noBootstrap
  | append
  | scopeLabels
  | verbose
  deriving DecidableEq

namespace Switch

def all : List Switch :=
  [.bootstrap, .noBootstrap, .append, .scopeLabels, .verbose]

def text : Switch → String
  | bootstrap => "bootstrap"
  | noBootstrap => "no-bootstrap"
  | append => "append"
  | scopeLabels => "scope-labels"
  | verbose => "verbose"

end Switch

structure Request where
  input : Path
  output? : Option Path
  switches : List Switch
  deriving DecidableEq

def Request.has (r : Request) (switch : Switch) : Bool :=
  r.switches.contains switch

/-- Why arguments are not a request. -/
inductive Stop where
  | help
  | usage
  deriving DecidableEq

/-- What the next argument can be. -/
inductive Expects where
  | anything
  | output
  | operand
  deriving DecidableEq

/-- The request as far as it has been read. -/
structure Draft where
  input? : Option Path := none
  output? : Option Path := none
  switches : List Switch := []
  expects : Expects := .anything
  deriving DecidableEq

namespace Draft

def turnOn (d : Draft) (switch : Switch) : Except Stop Draft :=
  if d.switches.contains switch then .error .usage
  else .ok { d with switches := switch :: d.switches }

def setInput (d : Draft) (text : String) : Except Stop Draft :=
  if d.input?.isSome || text.isEmpty then .error .usage
  else .ok { d with input? := some ⟨text⟩ }

def setOutput (d : Draft) (text : String) : Except Stop Draft :=
  if d.output?.isSome || text.isEmpty then .error .usage
  else .ok { d with output? := some ⟨text⟩, expects := .anything }

/-- An option written in full, with what follows its equals sign. -/
def long (d : Draft) (name : String) (value? : Option String) : Except Stop Draft :=
  match Switch.all.find? (·.text == name), value? with
  | some switch, none => d.turnOn switch
  | some _, some _ => .error .usage
  | none, none =>
    if name = "help" then .error .help
    else if name = "output" then .ok { d with expects := .output }
    else .error .usage
  | none, some value => if name = "output" then d.setOutput value else .error .usage

/-- Options of one letter each. All that follows an `o` is the output. -/
def short (d : Draft) : List Char → Except Stop Draft
  | [] => .ok d
  | 'h' :: _ => .error .help
  | 'v' :: cs => do (← d.turnOn .verbose).short cs
  | ['o'] => .ok { d with expects := .output }
  | 'o' :: '=' :: cs => d.setOutput (String.ofList cs)
  | 'o' :: cs => d.setOutput (String.ofList cs)
  | _ => .error .usage

/-- The name of a long option and its value. -/
def splitValue (text : List Char) : String × Option String :=
  match text.dropWhile (· != '=') with
  | [] => (String.ofList text, none)
  | _ :: value => (String.ofList (text.takeWhile (· != '=')), some (String.ofList value))

def take (d : Draft) (argument : String) : Except Stop Draft :=
  match d.expects, argument.toList with
  | .operand, _ => d.setInput argument
  | .output, '-' :: _ :: _ => .error .usage
  | .output, _ => d.setOutput argument
  | .anything, ['-', '-'] => .ok { d with expects := .operand }
  | .anything, '-' :: '-' :: text =>
    let (name, value?) := splitValue text
    d.long name value?
  | .anything, '-' :: c :: cs => d.short (c :: cs)
  | .anything, _ => d.setInput argument

/-- The request, if nothing is missing and its options go together. -/
def finish (d : Draft) : Except Stop Request :=
  match d.input? with
  | none => .error .usage
  | some input =>
    if d.expects = .output ∨
        (d.switches.contains .bootstrap ∧ d.switches.contains .noBootstrap) then .error .usage
    else .ok { input := input, output? := d.output?, switches := d.switches }

end Draft

def Request.read (arguments : List String) : Except Stop Request := do
  (← arguments.foldlM Draft.take {}).finish

end HackVM.CommandLine
