import HackVM.Command.Reader
import HackVM.Machine.Assembler

/-! From lines of text to instructions. The symbols in a text are names; what they stand for is
left to the assembler. -/

namespace HackVM

/-- The parts before and behind the first occurrence of a character. -/
def splitAt? (c : Char) (cs : List Char) : Option (List Char × List Char) :=
  match cs.dropWhile (· ≠ c) with
  | [] => none
  | _ :: behind => some (cs.takeWhile (· ≠ c), behind)

def dropBlanks (cs : List Char) : List Char :=
  cs.dropWhile Text.isBlank

/-- What stands on a line besides its comment and the blanks around it. -/
def lineCode (line : String) : List Char :=
  (dropBlanks (dropBlanks (beforeComment line.toList)).reverse).reverse

/-- A number as an address instruction takes it, with or without a plus sign. -/
def readAddress? : List Char → Option Word
  | '+' :: digits => Word.read? (String.ofList digits)
  | digits => Word.read? (String.ofList digits)

/-- Registers to write are named in any order. -/
def Dest.ofChars (cs : List Char) : Dest :=
  match cs.contains 'A', cs.contains 'D', cs.contains 'M' with
  | false, false, false => .none
  | false, false, true => .m
  | false, true, false => .d
  | false, true, true => .dm
  | true, false, false => .a
  | true, false, true => .am
  | true, true, false => .ad
  | true, true, true => .adm

def Reg.ofChar? : Char → Option Reg
  | 'A' => some .a
  | 'D' => some .d
  | 'M' => some .m
  | _ => none

def Operand.ofChar? : Char → Option Operand
  | 'A' => some .a
  | 'M' => some .m
  | _ => none

def Binary.ofChar? : Char → Option Binary
  | '+' => some .add
  | '-' => some .sub
  | '&' => some .and
  | '|' => some .or
  | _ => none

/-- A constant, a register, or an operation with one or two operands. -/
def Comp.read? : List Char → Option Comp
  | ['0'] => some .zero
  | ['1'] => some .one
  | ['-', '1'] => some .minusOne
  | [r] => (Reg.ofChar? r).map .reg
  | ['!', r] => (Reg.ofChar? r).map .not
  | ['-', r] => (Reg.ofChar? r).map .neg
  | [r, '+', '1'] => (Reg.ofChar? r).map .succ
  | [r, '-', '1'] => (Reg.ofChar? r).map .pred
  | ['D', op, y] => do return .left (← Binary.ofChar? op) (← Operand.ofChar? y)
  | [y, op, 'D'] => do return .right (← Binary.ofChar? op) (← Operand.ofChar? y)
  | _ => none

/-- The condition behind the semicolon. -/
def Jump.read? : List Char → Option Jump
  | ['J', 'G', 'T'] => some .gt
  | ['J', 'E', 'Q'] => some .eq
  | ['J', 'G', 'E'] => some .ge
  | ['J', 'L', 'T'] => some .lt
  | ['J', 'N', 'E'] => some .ne
  | ['J', 'L', 'E'] => some .le
  | ['J', 'M', 'P'] => some .always
  | _ => none

namespace Statement

/-- A computation, then the condition of a jump if there is one. -/
def readBranch? (dest : Dest) (cs : List Char) : Option Statement :=
  match splitAt? ';' cs with
  | some (comp, condition) => do
    return .compute dest (← Comp.read? comp) (← Jump.read? condition)
  | none => (Comp.read? cs).map (.compute dest · .never)

def readCompute? (cs : List Char) : Option Statement :=
  match splitAt? '=' cs with
  | some (dest, cs) => readBranch? (.ofChars dest) cs
  | none => readBranch? .none cs

def readLoad (target : List Char) : Statement :=
  match readAddress? target with
  | some value => .number value
  | none => .symbol (.name (String.ofList target))

def read? : List Char → Option Statement
  | '(' :: cs =>
    if cs.getLast? = some ')' then some (.label (.name (String.ofList cs.dropLast))) else none
  | '@' :: target => some (readLoad target)
  | cs => readCompute? cs

end Statement

/-- The statements on the lines that have something on them. -/
def readStatements? (lines : List String) : Option (List Statement) :=
  ((lines.map lineCode).filter (· ≠ [])).mapM Statement.read?

/-- The instructions of a program given as text. -/
def load? (lines : List String) : Option (List Instruction) :=
  (readStatements? lines).bind assemble?

end HackVM
