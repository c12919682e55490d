import HackVM.Word

/-! Symbols of the assembly program. A symbol records what it stands for; two symbols are the same
cell or label for the assembler exactly when their texts agree. -/

namespace HackVM

/-- The memory cells that hold the stack pointer and the segment bases. -/
inductive Pointer where
  | sp
  | lcl
  | arg
  | this
  | that
  deriving DecidableEq

def Pointer.text : Pointer → String
  | sp => "SP"
  | lcl => "LCL"
  | arg => "ARG"
  | this => "THIS"
  | that => "THAT"

/-- What a generated label marks: the place a comparison that holds jumps to, the place it goes on
at, and the place a call comes back to. -/
inductive LabelKind where
  | holds
  | done
  | back
  deriving DecidableEq

def LabelKind.text : LabelKind → String
  | holds => "$CMP_"
  | done => "$ENDCMP_"
  | back => "$RET_"

inductive Symbol where
  | pointer (p : Pointer)
  | register (n : Nat)
  | static (space : String) (index : Word)
  /-- A name as its author wrote it. -/
  | name (text : String)
  /-- A label inside a function. -/
  | within (function label : String)
  | generated (kind : LabelKind) (serial : Nat)
  deriving DecidableEq

def Symbol.text : Symbol → String
  | pointer p => p.text
  | register n => "R" ++ Decimal.text n
  | static space index => space ++ "." ++ index.text
  | name text => text
  | within function label => function ++ "$" ++ label
  | generated kind serial => kind.text ++ Decimal.text serial

end HackVM
