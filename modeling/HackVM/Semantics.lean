import HackVM.Context
import HackVM.Machine

/-! What a command means for memory and for the flow of control, said in terms of the stack, the
segments and the frame of a call.

Where the cells of a segment are, what stands in a frame and how a label is called are written down
here once more and not taken from the expansion of commands, whose code has to agree with it. -/

namespace HackVM

namespace Ram

def pointer (ram : Ram) (p : Pointer) : Word :=
  ram p.address

def setPointer (ram : Ram) (p : Pointer) (value : Word) : Ram :=
  ram.set p.address value

def push (ram : Ram) (value : Word) : Ram :=
  (ram.setPointer .sp (ram.pointer .sp + 1)).set (ram.pointer .sp) value

/-- Push words one after another. -/
def pushAll (ram : Ram) (words : List Word) : Ram :=
  words.foldl push ram

/-- The word on top of the stack. -/
def top (ram : Ram) : Word :=
  ram (ram.pointer .sp - 1)

/-- The word below the top. -/
def second (ram : Ram) : Word :=
  ram (ram.pointer .sp - 2)

def drop (ram : Ram) : Ram :=
  ram.setPointer .sp (ram.pointer .sp - 1)

/-- Put a word in place of the top of the stack. -/
def replaceTop (ram : Ram) (value : Word) : Ram :=
  ram.set (ram.pointer .sp - 1) value

end Ram

/-! ## Operations -/

def Word.ofBool (b : Bool) : Word :=
  if b then -1 else 0

/-- The result of an operation on the word below the top and the top of the stack. Comparisons look
at the sign of the wrapped difference. -/
def Operation.eval (op : Operation) (x y : Word) : Word :=
  match op with
  | add => x + y
  | sub => x - y
  | and => x &&& y
  | or => x ||| y
  | neg => -y
  | not => ~~~y
  | eq => Word.ofBool (x - y = 0)
  | gt => Word.ofBool (0 < (x - y).toInt)
  | lt => Word.ofBool ((x - y).toInt < 0)

def Operation.isUnary : Operation → Bool
  | neg | not => true
  | _ => false

def Operation.effect (op : Operation) (ram : Ram) : Ram :=
  let value := op.eval ram.second ram.top
  if op.isUnary then ram.replaceTop value else ram.drop.replaceTop value

/-! ## Segments -/

namespace Segment

/-- The pointer to the first cell, for the segments that can be anywhere. -/
def start? : Segment → Option Pointer
  | locals => some .lcl
  | argument => some .arg
  | this => some .this
  | that => some .that
  | constant | static | pointer | temp => none

/-- The address of a cell, where `statics` gives those of the static cells. The segment `pointer` is
`THIS` and `THAT` themselves, and `temp` the cells after them. A constant has no address. -/
def address? (statics : Word → Word) (ram : Ram) (index : Word) : Segment → Option Word
  | constant => none
  | static => some (statics index)
  | pointer => some (3 + index)
  | temp => some (5 + index)
  | segment => segment.start?.map fun start => ram.pointer start + index

/-- The word in a cell. For a constant it is the index. -/
def word (statics : Word → Word) (ram : Ram) (index : Word) (segment : Segment) : Word :=
  match segment.address? statics ram index with
  | some address => ram address
  | none => index

end Segment

/-! ## Calls and returns -/

namespace Ram

/-- The frame of a call: where to come back to, and the pointers of the caller. -/
def frameWords (ram : Ram) (back : Word) : List Word :=
  [back, ram.pointer .lcl, ram.pointer .arg, ram.pointer .this, ram.pointer .that]

/-- The frame goes on the stack, with the arguments below it and the callee's locals above. -/
def enter (ram : Ram) (back arguments : Word) : Ram :=
  ram.pushAll (ram.frameWords back)
    |>.setPointer .arg (ram.pointer .sp - arguments)
    |>.setPointer .lcl (ram.pointer .sp + 5)

/-- The result takes the place of the first argument, and the stack ends behind it. -/
def withResult (ram : Ram) : Ram :=
  (ram.set (ram.pointer .arg) ram.top).setPointer .sp (ram.pointer .arg + 1)

/-- With the result in place the pointers of the caller come back from the frame, which is below the
callee's locals. -/
def leave (ram : Ram) : Ram :=
  ram.withResult
    |>.setPointer .that (ram.withResult (ram.pointer .lcl - 1))
    |>.setPointer .this (ram.withResult (ram.pointer .lcl - 2))
    |>.setPointer .arg (ram.withResult (ram.pointer .lcl - 3))
    |>.setPointer .lcl (ram.withResult (ram.pointer .lcl - 4))

/-- Where a return goes. -/
def returnAddress (ram : Ram) : Word :=
  ram (ram.pointer .lcl - 5)

end Ram

/-! ## Labels -/

/-- How a label is called inside a function or outside of all functions. -/
def LabelScope.qualify (scope : LabelScope) (function? : Option String) (name : String) : String :=
  match scope, function? with
  | .function, some f => f ++ "$" ++ name
  | _, _ => name

/-- How the place of a command is called in its context. -/
def Command.placeName? (ctx : Context) : Command → Option String
  | label name => some (ctx.scope.qualify ctx.function? name)
  | function name _ => some name
  | _ => none

/-! ## Commands -/

/-- Where control goes after a command: on to the next one, to a place that has a name, or to an
address. -/
inductive Next where
  | on
  | label (name : String)
  | address (target : Word)
  deriving DecidableEq

/-- The memory after a command and where control goes. `statics` gives the addresses of the static
cells of the command's module, and `back` is the address behind the command. A constant has no
address, so that a command which would write to one does nothing. -/
def Command.effect (ctx : Context) (statics : Word → Word) (back : Word) (ram : Ram) :
    Command → Ram × Next
  | arithmetic op => (op.effect ram, .on)
  | push segment index => (ram.push (segment.word statics ram index), .on)
  | pop segment index =>
    match segment.address? statics ram index with
    | some address => (ram.drop.set address ram.top, .on)
    | none => (ram, .on)
  | label _ => (ram, .on)
  | goto name => (ram, .label (ctx.scope.qualify ctx.function? name))
  | ifGoto name =>
    (ram.drop, if ram.top = 0 then .on else .label (ctx.scope.qualify ctx.function? name))
  | function _ locals => (ram.pushAll (List.replicate locals.toNat 0), .on)
  | call name arguments => (ram.enter back arguments, .label name)
  | ret => (ram.leave, .address ram.returnAddress)

end HackVM
