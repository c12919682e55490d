import HackVM.Asm.Statement

/-! The target machine: two registers, memory with a cell for every word, and a program counter.
Arithmetic wraps, and a word counts as signed where a jump looks at it. -/

namespace HackVM

/-- A statement whose symbol has become an address. -/
inductive Instruction where
  | load (value : Word)
  | compute (dest : Dest) (comp : Comp) (condition : Jump)
  deriving DecidableEq

abbrev Ram := Word → Word

namespace Ram

def set (ram : Ram) (address value : Word) : Ram := fun x =>
  if x = address then value else ram x

@[simp] theorem set_self (ram : Ram) (address value : Word) :
    ram.set address value address = value := by
  simp [set]

theorem set_of_ne {ram : Ram} {address value x : Word} (h : x ≠ address) :
    ram.set address value x = ram x := by
  simp [set, h]

end Ram

/-- The cells that the pointers are. -/
def Pointer.address : Pointer → Word
  | sp => 0
  | lcl => 1
  | arg => 2
  | this => 3
  | that => 4

structure Machine where
  ram : Ram
  a : Word
  d : Word
  pc : Nat

def Binary.eval (op : Binary) (x y : Word) : Word :=
  match op with
  | add => x + y
  | sub => x - y
  | and => x &&& y
  | or => x ||| y

def Dest.writesA : Dest → Bool
  | a | am | ad | adm => true
  | _ => false

def Dest.writesD : Dest → Bool
  | d | dm | ad | adm => true
  | _ => false

def Dest.writesM : Dest → Bool
  | m | dm | am | adm => true
  | _ => false

def Jump.taken (jump : Jump) (value : Word) : Bool :=
  match jump with
  | never => false
  | gt => 0 < value.toInt
  | eq => value.toInt = 0
  | ge => 0 ≤ value.toInt
  | lt => value.toInt < 0
  | ne => value.toInt ≠ 0
  | le => value.toInt ≤ 0
  | always => true

namespace Machine

def reg (m : Machine) : Reg → Word
  | .a => m.a
  | .d => m.d
  | .m => m.ram m.a

def eval (m : Machine) : Comp → Word
  | .zero => 0
  | .one => 1
  | .minusOne => -1
  | .reg r => m.reg r
  | .not r => ~~~m.reg r
  | .neg r => -m.reg r
  | .succ r => m.reg r + 1
  | .pred r => m.reg r - 1
  | .left op y => op.eval m.d (m.reg y.reg)
  | .right op y => op.eval (m.reg y.reg) m.d

/-- Memory is written, and a jump goes, where `A` pointed before the instruction. -/
def execute (m : Machine) : Instruction → Machine
  | .load value => { m with a := value, pc := m.pc + 1 }
  | .compute dest comp condition =>
    let value := m.eval comp
    { ram := if dest.writesM then m.ram.set m.a value else m.ram
      a := if dest.writesA then value else m.a
      d := if dest.writesD then value else m.d
      pc := if condition.taken value then m.a.toNat else m.pc + 1 }

/-- One instruction. Outside the program there is none. -/
def step (code : List Instruction) (m : Machine) : Option Machine :=
  code[m.pc]?.map m.execute

/-- Exactly `n` instructions. -/
def run (code : List Instruction) : Nat → Machine → Option Machine
  | 0, m => some m
  | n + 1, m => (m.step code).bind (run code n)

/-- The machine gets from one state to another. -/
def Reaches (code : List Instruction) (m m' : Machine) : Prop :=
  ∃ n, run code n m = some m'

theorem run_add (code : List Instruction) (n k : Nat) (m : Machine) :
    run code (n + k) m = (run code n m).bind (run code k) := by
  induction n generalizing m with
  | zero => simp [run]
  | succ n ih =>
    rw [Nat.succ_add, run, run]
    cases m.step code with
    | none => rfl
    | some next => exact ih next

theorem Reaches.refl (code : List Instruction) (m : Machine) : Reaches code m m :=
  ⟨0, rfl⟩

theorem Reaches.trans {code : List Instruction} {m₁ m₂ m₃ : Machine}
    (first : Reaches code m₁ m₂) (second : Reaches code m₂ m₃) : Reaches code m₁ m₃ := by
  obtain ⟨n, hn⟩ := first
  obtain ⟨k, hk⟩ := second
  exact ⟨n + k, by rw [run_add, hn]; exact hk⟩

theorem Reaches.head {code : List Instruction} {m₁ m₂ m₃ : Machine}
    (step : m₁.step code = some m₂) (rest : Reaches code m₂ m₃) : Reaches code m₁ m₃ := by
  obtain ⟨n, hn⟩ := rest
  exact ⟨n + 1, by rw [run, step]; exact hn⟩

end Machine

end HackVM
