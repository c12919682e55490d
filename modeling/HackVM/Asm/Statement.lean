import HackVM.Asm.Symbol

/-! Statements of the assembly language: loads of the address register, label declarations, and
computations. Every value of these types is a well-formed statement up to the spelling of its
symbols. -/

namespace HackVM

/-- The registers a computation reads; `m` is the memory cell that `a` addresses. -/
inductive Reg where
  | a
  | d
  | m
  deriving DecidableEq

def Reg.text : Reg → String
  | a => "A"
  | d => "D"
  | m => "M"

inductive Binary where
  | add
  | sub
  | and
  | or
  deriving DecidableEq

def Binary.text : Binary → String
  | add => "+"
  | sub => "-"
  | and => "&"
  | or => "|"

/-- The second operand of a binary computation, whose first operand is `D`. -/
inductive Operand where
  | a
  | m
  deriving DecidableEq

def Operand.reg : Operand → Reg
  | a => .a
  | m => .m

inductive Comp where
  | zero
  | one
  | minusOne
  | reg (r : Reg)
  | not (r : Reg)
  | neg (r : Reg)
  | succ (r : Reg)
  | pred (r : Reg)
  /-- With `D` on the left. -/
  | left (op : Binary) (y : Operand)
  /-- With `D` on the right. -/
  | right (op : Binary) (y : Operand)
  deriving DecidableEq

def Comp.text : Comp → String
  | zero => "0"
  | one => "1"
  | minusOne => "-1"
  | reg r => r.text
  | not r => "!" ++ r.text
  | neg r => "-" ++ r.text
  | succ r => r.text ++ "+1"
  | pred r => r.text ++ "-1"
  | left op y => "D" ++ op.text ++ y.reg.text
  | right op y => y.reg.text ++ op.text ++ "D"

/-- The registers a computation writes. -/
inductive Dest where
  | none
  | m
  | d
  | dm
  | a
  | am
  | ad
  | adm
  deriving DecidableEq

def Dest.text : Dest → String
  | none => ""
  | m => "M="
  | d => "D="
  | dm => "DM="
  | a => "A="
  | am => "AM="
  | ad => "AD="
  | adm => "ADM="

/-- The sign of the computed value on which control goes to the address in `A`. -/
inductive Jump where
  | never
  | gt
  | eq
  | ge
  | lt
  | ne
  | le
  | always
  deriving DecidableEq

def Jump.text : Jump → String
  | never => ""
  | gt => ";JGT"
  | eq => ";JEQ"
  | ge => ";JGE"
  | lt => ";JLT"
  | ne => ";JNE"
  | le => ";JLE"
  | always => ";JMP"

inductive Statement where
  | number (value : Word)
  | symbol (s : Symbol)
  | label (s : Symbol)
  | compute (dest : Dest) (comp : Comp) (condition : Jump)
  deriving DecidableEq

namespace Statement

abbrev pointer (p : Pointer) : Statement := .symbol (.pointer p)

abbrev register (n : Nat) : Statement := .symbol (.register n)

abbrev set (dest : Dest) (comp : Comp) : Statement := .compute dest comp .never

abbrev branch (comp : Comp) (condition : Jump) : Statement := .compute .none comp condition

/-- Control goes to the address in `A`. -/
abbrev jump : Statement := .branch .zero .always

def text : Statement → String
  | number value => "@" ++ value.text
  | symbol s => "@" ++ s.text
  | label s => "(" ++ s.text ++ ")"
  | compute dest comp condition => dest.text ++ comp.text ++ condition.text

end Statement

end HackVM
