import HackVM.Asm.Statement
import HackVM.Command.Fault

/-! The statements that each kind of command expands to. The stack grows upward from the cell that
`SP` points to; `R13` to `R15` are scratch cells. -/

namespace HackVM

/-- How many labels of each family have been generated. -/
structure Serials where
  comparisons : Nat := 0
  calls : Nat := 0
  deriving DecidableEq

namespace Serials

/-- The serial number of the next comparison, and what follows once it is taken. -/
def takeComparison (s : Serials) : Nat × Serials :=
  (s.comparisons, { s with comparisons := s.comparisons + 1 })

def takeCall (s : Serials) : Nat × Serials :=
  (s.calls, { s with calls := s.calls + 1 })

/-- Comparisons take a number, the other operations none. -/
def afterOperation (s : Serials) : Operation → Serials
  | .eq | .gt | .lt => s.takeComparison.2
  | _ => s

end Serials

/-- How a cell of a segment is reached. -/
inductive Place where
  | literal (value : Word)
  | based (base : Pointer) (offset : Word)
  | direct (cell : Symbol)
  deriving DecidableEq

/-- The first of the cells that the segment `temp` occupies. -/
def tempBase : Nat := 5

/-- The cell of a segment at an index that it has, seen from a module with the given namespace. -/
def Segment.place (space : String) (index : Word) : Segment → Place
  | constant => .literal index
  | locals => .based .lcl index
  | argument => .based .arg index
  | this => .based .this index
  | that => .based .that index
  | static => .direct (.static space index)
  | temp => .direct (.register (tempBase + index.toNat))
  | pointer => .direct (.pointer (if index = 0 then .this else .that))

namespace Expansion

/-- Put `D` on the stack. -/
def pushD : List Statement :=
  [.pointer .sp, .set .m (.succ .m), .set .a (.pred .m), .set .m (.reg .d)]

/-- Take the top of the stack into `D`. -/
def popD : List Statement :=
  [.pointer .sp, .set .am (.pred .m), .set .d (.reg .m)]

def unary (comp : Comp) : List Statement :=
  [.pointer .sp, .set .a (.pred .m), .set .m comp]

/-- The top in `D`, and `A` at the cell below, which takes the result. -/
def binary (op : Binary) : List Statement :=
  popD ++ [.set .a (.pred .a), .set .m (.right op .m)]

/-- The difference of the two topmost words decides between all ones and zero. -/
def compare (jump : Jump) (serial : Nat) : List Statement :=
  popD ++
    [.set .a (.pred .a), .set .d (.right .sub .m),
      .symbol (.generated .holds serial), .branch (.reg .d) jump,
      .set .d .zero, .symbol (.generated .done serial), .jump,
      .label (.generated .holds serial), .set .d .minusOne,
      .label (.generated .done serial),
      .pointer .sp, .set .a (.pred .m), .set .m (.reg .d)]

def arithmetic (op : Operation) (serial : Nat) : List Statement :=
  match op with
  | .not => unary (.not .m)
  | .neg => unary (.neg .m)
  | .add => binary .add
  | .sub => binary .sub
  | .and => binary .and
  | .or => binary .or
  | .eq => compare .eq serial
  | .gt => compare .gt serial
  | .lt => compare .lt serial

/-- Load the word at a place into `D`. -/
def fetch : Place → List Statement
  | .literal value => [.number value, .set .d (.reg .a)]
  | .based base offset =>
    [.pointer base, .set .d (.reg .m), .number offset, .set .a (.left .add .a), .set .d (.reg .m)]
  | .direct cell => [.symbol cell, .set .d (.reg .m)]

/-- Load the address of a place into `D`. A number has none. -/
def locate? : Place → Option (List Statement)
  | .literal _ => none
  | .based base offset =>
    some [.pointer base, .set .d (.reg .m), .number offset, .set .d (.left .add .a)]
  | .direct cell => some [.symbol cell, .set .d (.reg .a)]

def push (space : String) (segment : Segment) (index : Word) : Except Fault (List Statement) := do
  segment.checkIndex index
  return fetch (segment.place space index) ++ pushD

/-- The address is kept in a scratch cell before the stack pointer moves. -/
def pop (space : String) (segment : Segment) (index : Word) : Except Fault (List Statement) :=
  match locate? (segment.place space index) with
  | none => .error (.unknownSegment segment.text)
  | some address => do
    segment.checkIndex index
    return address ++ [.register 13, .set .m (.reg .d)] ++ popD ++
      [.register 13, .set .a (.reg .m), .set .m (.reg .d)]

def label (target : Symbol) : List Statement :=
  [.label target]

def goto (target : Symbol) : List Statement :=
  [.symbol target, .jump]

def ifGoto (target : Symbol) : List Statement :=
  popD ++ [.symbol target, .branch (.reg .d) .ne]

/-- The entry label, then a zero on the stack for every local. -/
def function (name : String) (locals : Word) : List Statement :=
  .label (.name name) ::
    (List.replicate locals.toNat
      [.pointer .sp, .set .m (.succ .m), .set .a (.pred .m), .set .m .zero]).flatten

/-- The caller's pointers in the order in which a frame holds them. -/
def savedPointers : List Pointer :=
  [.lcl, .arg, .this, .that]

/-- Words that a call puts on the stack before the callee's locals. -/
def frameSize : Word := 5

/-- Push the return address and the caller's pointers, aim `ARG` at the arguments and `LCL` at the
end of the frame, and go to the callee. -/
def call (name : String) (arguments : Word) (serial : Nat) : List Statement :=
  [.symbol (.generated .back serial), .set .d (.reg .a)] ++ pushD ++
    savedPointers.flatMap (fun p => [.pointer p, .set .d (.reg .m)] ++ pushD) ++
    [.pointer .sp, .set .d (.reg .m), .number frameSize, .set .d (.left .sub .a),
      .number arguments, .set .d (.left .sub .a), .pointer .arg, .set .m (.reg .d),
      .pointer .sp, .set .d (.reg .m), .pointer .lcl, .set .m (.reg .d),
      .symbol (.name name), .jump, .label (.generated .back serial)]

/-- While `R14` walks down the frame, `R15` holds the return address, which the result overwrites
in a call without arguments. -/
def ret : List Statement :=
  [.pointer .lcl, .set .d (.reg .m), .register 14, .set .m (.reg .d),
    .number frameSize, .set .a (.left .sub .a), .set .d (.reg .m),
    .register 15, .set .m (.reg .d)] ++
    popD ++
    [.pointer .arg, .set .a (.reg .m), .set .m (.reg .d),
      .pointer .arg, .set .d (.succ .m), .pointer .sp, .set .m (.reg .d)] ++
    savedPointers.reverse.flatMap (fun p =>
      [.register 14, .set .am (.pred .m), .set .d (.reg .m), .pointer p, .set .m (.reg .d)]) ++
    [.register 15, .set .a (.reg .m), .jump]

/-- The first stack cell. -/
def stackBase : Word := 256

def entryPoint : String := "Sys.init"

def bootstrap (serial : Nat) : List Statement :=
  [.number stackBase, .set .d (.reg .a), .pointer .sp, .set .m (.reg .d)] ++
    call entryPoint 0 serial

end Expansion

end HackVM
