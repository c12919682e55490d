import HackVM.Command.Fault
import HackVM.Name

/-! Reading commands from text. A line is first cut at its comment and brought to a normal form,
its words one blank apart; a command is then read off the words. -/

namespace HackVM

/-- The text before the first pair of slashes. -/
def beforeComment : List Char → List Char
  | [] => []
  | '/' :: '/' :: _ => []
  | c :: cs => c :: beforeComment cs

/-- The command text of a line with its words one blank apart, if there is any. -/
def normalLine? (line : String) : Option String :=
  match Text.words (String.ofList (beforeComment line.toList)) with
  | [] => none
  | words => some (Text.unwords words)

inductive Keyword where
  | push
  | pop
  | label
  | goto
  | ifGoto
  | function
  | call
  | ret
  | operation (op : Operation)
  deriving DecidableEq

namespace Keyword

def text : Keyword → String
  | push => "push"
  | pop => "pop"
  | label => "label"
  | goto => "goto"
  | ifGoto => "if-goto"
  | function => "function"
  | call => "call"
  | ret => "return"
  | operation op => op.text

/-- What is no keyword of its own may be an operation. -/
def read? (word : String) : Option Keyword :=
  match Text.lower word with
  | "push" => some .push
  | "pop" => some .pop
  | "label" => some .label
  | "goto" => some .goto
  | "if-goto" => some .ifGoto
  | "function" => some .function
  | "call" => some .call
  | "return" => some .ret
  | _ => (Operation.read? word).map .operation

def arity : Keyword → Nat
  | push | pop | function | call => 2
  | label | goto | ifGoto => 1
  | ret | operation _ => 0

end Keyword

def Segment.read (token : String) : Except Fault Segment :=
  match read? token with
  | some segment => .ok segment
  | none => .error (.unknownSegment token)

def Word.read (token : String) : Except Fault Word :=
  match read? token with
  | some word => .ok word
  | none => .error (.malformed (.notNumber token))

def readSymbol (token : String) : Except Fault String :=
  if isSymbol token then .ok token else .error (.malformed (.notSymbol token))

/-- A segment, then an index that it has. -/
def readCell (segment index : String) : Except Fault (Segment × Word) := do
  let segment ← Segment.read segment
  let index ← Word.read index
  segment.checkIndex index
  return (segment, index)

/-- The command that a keyword makes of the words after it. -/
def Keyword.command : Keyword → List String → Except Fault Command
  | push, [segment, index] => (readCell segment index).map fun cell => .push cell.1 cell.2
  | pop, [segment, index] => (readCell segment index).map fun cell => .pop cell.1 cell.2
  | label, [name] => (readSymbol name).map .label
  | goto, [name] => (readSymbol name).map .goto
  | ifGoto, [name] => (readSymbol name).map .ifGoto
  | function, [name, locals] => do
    let name ← readSymbol name
    let locals ← Word.read locals
    return .function name locals
  | call, [name, arguments] => do
    let name ← readSymbol name
    let arguments ← Word.read arguments
    checkArguments arguments
    return .call name arguments
  | ret, [] => .ok .ret
  | operation op, [] => .ok (.arithmetic op)
  | keyword, words =>
    .error (.malformed (.argumentCount keyword.text keyword.arity words.length))

def Command.read (line : String) : Except Fault Command :=
  match Text.words line with
  | [] => .error (.malformed .empty)
  | word :: words =>
    match Keyword.read? word with
    | some keyword => keyword.command words
    | none => .error (.unknownCommand word)

end HackVM
