import HackVM.Machine
import HackVM.Program

/-! From statements to instructions. A label stands for the number of instructions before it, the
predefined symbols for fixed cells, and every other symbol for a cell of its own, handed out from
address 16 in the order of first use. -/

namespace HackVM

/-- The first cell that a symbol without a declaration can get. -/
def firstVariable : Nat := 16

/-- The largest number of instructions that jumps can reach. -/
def maxInstructions : Nat := 32768

def predefined : List (String × Nat) :=
  [("SP", 0), ("LCL", 1), ("ARG", 2), ("THIS", 3), ("THAT", 4), ("SCREEN", 16384), ("KBD", 24576),
    ("R0", 0), ("R1", 1), ("R2", 2), ("R3", 3), ("R4", 4), ("R5", 5), ("R6", 6), ("R7", 7),
    ("R8", 8), ("R9", 9), ("R10", 10), ("R11", 11), ("R12", 12), ("R13", 13), ("R14", 14),
    ("R15", 15)]

def Statement.symbol? : Statement → Option Symbol
  | .symbol s => some s
  | _ => none

/-- The labels of a program whose first instruction has number `n`. -/
def labelsFrom : Nat → List Statement → List (String × Nat)
  | _, [] => []
  | n, .label s :: rest => (s.text, n) :: labelsFrom n rest
  | n, _ :: rest => labelsFrom (n + 1) rest

def declared (code : List Statement) : List (String × Nat) :=
  predefined ++ labelsFrom 0 code

/-- The symbols without a declaration, in the order of first use. -/
def undeclared (code : List Statement) : List String :=
  ((code.filterMap Statement.symbol?).map Symbol.text).filter
    (fun text => ((declared code).lookup text).isNone) |>.eraseDups

def addressOf (code : List Statement) (s : Symbol) : Word :=
  match (declared code).lookup s.text with
  | some n => BitVec.ofNat 16 n
  | none => BitVec.ofNat 16 (firstVariable + (undeclared code).idxOf s.text)

def Statement.instruction? (address : Symbol → Word) : Statement → Option Instruction
  | .number value => some (.load value)
  | .symbol s => some (.load (address s))
  | .label _ => none
  | .compute dest comp condition => some (.compute dest comp condition)

/-- The instructions of a program that declares no symbol twice, no predefined one among them, and
is not too long. -/
def assemble? (code : List Statement) : Option (List Instruction) :=
  let instructions := code.filterMap (Statement.instruction? (addressOf code))
  if ((declared code).map Prod.fst).Nodup ∧ instructions.length ≤ maxInstructions then
    some instructions
  else none

/-- All statements of a program in order. -/
def Program.code (p : Program) : List Statement :=
  (if p.options.bootstrap then Expansion.bootstrap 0 else []) ++
    p.modules.flatMap fun m => m.blocks.flatMap Block.code

end HackVM
