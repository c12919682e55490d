import HackVM.Text.Split
import HackVM.Word

/-! Commands of the stack machine and their text. -/

namespace HackVM

/-- The address spaces that `push` and `pop` name. -/
inductive Segment where
  | constant
  | locals
  | static
  | argument
  | this
  | that
  | pointer
  | temp
  deriving DecidableEq

namespace Segment

def text : Segment → String
  | constant => "constant"
  | locals => "local"
  | static => "static"
  | argument => "argument"
  | this => "this"
  | that => "that"
  | pointer => "pointer"
  | temp => "temp"

/-- Segment names are read in any case. -/
def read? (name : String) : Option Segment :=
  match Text.lower name with
  | "constant" => some .constant
  | "local" => some .locals
  | "static" => some .static
  | "argument" => some .argument
  | "this" => some .this
  | "that" => some .that
  | "pointer" => some .pointer
  | "temp" => some .temp
  | _ => none

/-- The largest index a segment has. Where the index is loaded as a number, that number has to fit
an address instruction. -/
def maxIndex : Segment → Word
  | pointer => 1
  | temp => 7
  | _ => Word.maxLiteral

end Segment

inductive Operation where
  | add
  | sub
  | neg
  | eq
  | gt
  | lt
  | and
  | or
  | not
  deriving DecidableEq

namespace Operation

def text : Operation → String
  | add => "add"
  | sub => "sub"
  | neg => "neg"
  | eq => "eq"
  | gt => "gt"
  | lt => "lt"
  | and => "and"
  | or => "or"
  | not => "not"

def read? (name : String) : Option Operation :=
  match Text.lower name with
  | "add" => some .add
  | "sub" => some .sub
  | "neg" => some .neg
  | "eq" => some .eq
  | "gt" => some .gt
  | "lt" => some .lt
  | "and" => some .and
  | "or" => some .or
  | "not" => some .not
  | _ => none

end Operation

inductive Command where
  | arithmetic (op : Operation)
  | push (segment : Segment) (index : Word)
  | pop (segment : Segment) (index : Word)
  | label (name : String)
  | goto (name : String)
  | ifGoto (name : String)
  | function (name : String) (locals : Word)
  | call (name : String) (arguments : Word)
  | ret
  deriving DecidableEq

def Command.text : Command → String
  | arithmetic op => op.text
  | push segment index => Text.unwords ["push", segment.text, index.text]
  | pop segment index => Text.unwords ["pop", segment.text, index.text]
  | label name => Text.unwords ["label", name]
  | goto name => Text.unwords ["goto", name]
  | ifGoto name => Text.unwords ["if-goto", name]
  | function name locals => Text.unwords ["function", name, locals.text]
  | call name arguments => Text.unwords ["call", name, arguments.text]
  | ret => "return"

end HackVM
