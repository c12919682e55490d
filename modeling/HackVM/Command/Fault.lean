import HackVM.Command

/-! What can be wrong with a single command, and the range checks that find it. -/

namespace HackVM

/-- How a line can fall short of a command, its first word aside. -/
inductive Defect where
  | empty
  | argumentCount (keyword : String) (expected found : Nat)
  | notNumber (token : String)
  | notSymbol (token : String)
  | tooManyArguments (count : Word)
  deriving DecidableEq

def Defect.message : Defect → String
  | empty => "empty command"
  | argumentCount keyword expected found =>
    "`" ++ keyword ++ "` takes " ++ Decimal.text expected ++ " argument(s), found " ++
      Decimal.text found
  | notNumber token => "expected a number, found `" ++ token ++ "`"
  | notSymbol token => "invalid symbol `" ++ token ++ "`"
  | tooManyArguments count =>
    "argument count " ++ count.text ++ " exceeds " ++ Word.maxLiteral.text

inductive Fault where
  | unknownCommand (keyword : String)
  | unknownOperation (name : String)
  | unknownSegment (name : String)
  | malformed (defect : Defect)
  | indexOutOfRange (segment : Segment) (index : Word)
  deriving DecidableEq

def Fault.message : Fault → String
  | unknownCommand keyword => "unknown command `" ++ keyword ++ "`"
  | unknownOperation name => "unknown arithmetic operation `" ++ name ++ "`"
  | unknownSegment name => "unknown segment `" ++ name ++ "`"
  | malformed defect => "malformed command: " ++ defect.message
  | indexOutOfRange segment index =>
    "index " ++ index.text ++ " is out of range for segment " ++ segment.text ++ " (max " ++
      segment.maxIndex.text ++ ")"

def Segment.checkIndex (segment : Segment) (index : Word) : Except Fault Unit :=
  if index ≤ segment.maxIndex then .ok () else .error (.indexOutOfRange segment index)

/-- A call loads its argument count as a number. -/
def checkArguments (count : Word) : Except Fault Unit :=
  if count ≤ Word.maxLiteral then .ok () else .error (.malformed (.tooManyArguments count))

def Operation.read (name : String) : Except Fault Operation :=
  match read? name with
  | some op => .ok op
  | none => .error (.unknownOperation name)

end HackVM
