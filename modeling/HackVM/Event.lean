import HackVM.Command

/-! Events that a run reports while it works. -/

namespace HackVM

inductive Level where
  | error
  | warn
  | info
  | debug
  | trace
  deriving DecidableEq

namespace Level

def all : List Level :=
  [.error, .warn, .info, .debug, .trace]

/-- How talkative a level is. -/
def rank : Level → Nat
  | error => 0
  | warn => 1
  | info => 2
  | debug => 3
  | trace => 4

def text : Level → String
  | error => "ERROR"
  | warn => "WARN"
  | info => "INFO"
  | debug => "DEBUG"
  | trace => "TRACE"

end Level

inductive Event where
  | expanding (space : String) (command : Command)
  | moduleLinked (name : String) (commands lines : Nat)
  | moduleRepeated (name : String)
  | programLinked (modules lines : Nat) (bootstrap : Bool)
  | appending
  deriving DecidableEq

namespace Event

def level : Event → Level
  | expanding .. => .trace
  | moduleLinked .. => .debug
  | moduleRepeated .. => .warn
  | programLinked .. => .info
  | appending => .warn

/-- The text of an event; `quote` says how a module's name is written. -/
def text (quote : String → String) (event : Event) : String :=
  event.level.text ++ " " ++ match event with
  | expanding space command =>
    "translating module=" ++ quote space ++ " command=" ++ command.text
  | moduleLinked name commands lines =>
    "translated module module=" ++ quote name ++ " commands=" ++ Decimal.text commands ++
      " lines=" ++ Decimal.text lines
  | moduleRepeated name =>
    "module is linked twice; its statics are shared module=" ++ quote name
  | programLinked modules lines bootstrap =>
    "linked program modules=" ++ Decimal.text modules ++ " lines=" ++ Decimal.text lines ++
      " bootstrap=" ++ (if bootstrap then "true" else "false")
  | appending => "appending to existing output; repeated runs duplicate code"

end Event

end HackVM
