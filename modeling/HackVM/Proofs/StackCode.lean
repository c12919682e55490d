import Mathlib.Data.BitVec
import Mathlib.Tactic.FinCases
import HackVM.Proofs.Addresses
import HackVM.Proofs.Expansions

/-! What the machine does on the code of the commands that work on the stack.

Every lemma takes the machine to the beginning of a command's code and says where it arrives and
with which memory. The memory is that of the command's effect; only `pop` uses a scratch cell. The
code finds a cell by the place that an index is expanded to, and this is where the segment has it
(`Segment.address?_place`). -/

namespace HackVM
open Machine Expansion

/-- A cell above the pointers and the registers. -/
def High (x : Word) : Prop := 16 ≤ x.toNat

instance : Decidable (High x) :=
  inferInstanceAs (Decidable (16 ≤ x.toNat))

theorem High.ne_pointer (h : High x) (p : Pointer) : x ≠ p.address := by
  rintro rfl
  have : p.address.toNat < 16 := by cases p <;> decide
  exact Nat.not_le_of_lt this h

theorem High.ne_scratch (h : High x) : x ∉ [13#16, 14#16, 15#16] := by
  intro hmem
  have : x.toNat < 16 := by
    fin_cases hmem <;> decide
  exact Nat.not_le_of_lt this h

theorem Pointer.address_inj {p q : Pointer} (h : p.address = q.address) : p = q := by
  cases p <;> cases q <;> first | rfl | exact absurd h (by decide)

namespace Ram

@[simp] theorem pointer_setPointer_self (ram : Ram) (p : Pointer) (value : Word) :
    (ram.setPointer p value).pointer p = value :=
  set_self _ _ _

theorem pointer_setPointer_of_ne (ram : Ram) {p q : Pointer} (value : Word) (h : q ≠ p) :
    (ram.setPointer p value).pointer q = ram.pointer q :=
  set_of_ne fun he => h (Pointer.address_inj he)

theorem setPointer_of_ne (ram : Ram) {p : Pointer} (value : Word) (h : x ≠ p.address) :
    ram.setPointer p value x = ram x :=
  set_of_ne h

theorem pointer_set (ram : Ram) (h : High x) (value : Word) (p : Pointer) :
    (ram.set x value).pointer p = ram.pointer p :=
  set_of_ne (h.ne_pointer p).symm

theorem setPointer_apply (ram : Ram) (p : Pointer) (value : Word) (h : High x) :
    ram.setPointer p value x = ram x :=
  ram.setPointer_of_ne value (h.ne_pointer p)

/-- The stack pointer's own cell aside, what is dropped stays where it is. -/
theorem drop_apply (ram : Ram) (h : High x) : ram.drop x = ram x :=
  ram.setPointer_apply .sp _ h

theorem AgreeOff.drop {ram ram' : Ram} (h : ram.AgreeOff off ram')
    (hsp : Pointer.sp.address ∉ off) : ram.drop.AgreeOff off ram'.drop := by
  have hpointer : ram.pointer .sp = ram'.pointer .sp := h _ hsp
  rw [Ram.drop, Ram.drop, hpointer]
  exact h.set _ _

theorem pointer_drop (ram : Ram) : ram.drop.pointer .sp = ram.pointer .sp - 1#16 :=
  ram.pointer_setPointer_self .sp _

theorem push_self (ram : Ram) (value : Word) : ram.push value (ram.pointer .sp) = value :=
  set_self _ _ _

theorem push_apply (ram : Ram) (value : Word) (hx : x ≠ Pointer.sp.address)
    (hsp : x ≠ ram.pointer .sp) : ram.push value x = ram x := by
  rw [push, set_of_ne hsp, setPointer_of_ne _ _ hx]

theorem pointer_push (ram : Ram) (value : Word) (h : High (ram.pointer .sp)) :
    (ram.push value).pointer .sp = ram.pointer .sp + 1#16 := by
  rw [push, pointer_set _ h, pointer_setPointer_self]
  rfl

theorem pointer_push_of_ne (ram : Ram) (value : Word) (h : High (ram.pointer .sp)) (hp : p ≠ .sp) :
    (ram.push value).pointer p = ram.pointer p := by
  rw [push, pointer_set _ h, pointer_setPointer_of_ne _ _ hp]

/-- The memory in which the first cells hold the given words, and every other its own address. -/
def startingWith (words : List Word) : Ram := fun x =>
  words.getD x.toNat x

end Ram

/-! ## Places -/

/-- The address of a place, where `cell` gives the addresses of symbols. -/
def Place.address? (cell : Symbol → Word) (ram : Ram) : Place → Option Word
  | literal _ => none
  | based base offset => some (ram.pointer base + offset)
  | direct s => some (cell s)

def Place.read (cell : Symbol → Word) (ram : Ram) : Place → Word
  | literal value => value
  | based base offset => ram (ram.pointer base + offset)
  | direct s => ram (cell s)

theorem Place.read_of_address? {place : Place} {cell : Symbol → Word} {ram : Ram}
    (h : place.address? cell ram = some x) : place.read cell ram = ram x := by
  cases place with
  | literal => cases h
  | based | direct =>
    cases h
    rfl

section
variable {cell : Symbol → Word} {code : List Statement} {m : Machine}

namespace Segment
variable {segment : Segment} {index : Word}

/-- Code gets at the cell of a segment where the segment has it. -/
theorem address?_place (hcell : Fixed cell) (hindex : index ≤ segment.maxIndex) (space : String)
    (ram : Ram) : (segment.place space index).address? cell ram =
      segment.address? (fun i => cell (.static space i)) ram index := by
  cases segment with
  | constant | static | locals | argument | this | that => rfl
  | temp =>
    have hregister := Context.temp_register hindex
    rw [place, Place.address?, address?, hcell.register _ (by omega), tempBase, BitVec.ofNat_add,
      BitVec.ofNat_toNat, BitVec.setWidth_eq]
    rfl
  | pointer =>
    have hbound : index.toNat ≤ 1 := hindex
    rw [place, Place.address?, address?, hcell.pointer]
    by_cases hzero : index = 0
    · rw [if_pos hzero, hzero]
      rfl
    · have hone : index = 1 := by bv_omega
      rw [if_neg hzero, hone]
      rfl

theorem read_place (hcell : Fixed cell) (hindex : index ≤ segment.maxIndex) (space : String)
    (ram : Ram) : (segment.place space index).read cell ram =
      segment.word (fun i => cell (.static space i)) ram index := by
  rw [word, ← address?_place hcell hindex]
  cases haddress : (segment.place space index).address? cell ram with
  | some x => exact Place.read_of_address? haddress
  | none => cases segment <;> first | rfl | cases haddress

end Segment

/-! ## Moving words -/

theorem executeAll_pushD (hcell : Fixed cell) (m : Machine) :
    m.executeAll (resolve cell pushD) =
      ⟨m.ram.push m.d, m.ram.pointer .sp, m.d, m.pc + 4⟩ := by
  simp [pushD, eval, reg, hcell.pointer, Ram.push, Ram.pointer, Ram.setPointer]

theorem executeAll_popD (hcell : Fixed cell) (m : Machine) :
    m.executeAll (resolve cell popD) =
      ⟨m.ram.drop, m.ram.pointer .sp - 1#16, m.ram.drop (m.ram.pointer .sp - 1#16), m.pc + 3⟩ := by
  simp [popD, eval, reg, hcell.pointer, Ram.drop, Ram.pointer, Ram.setPointer]

theorem executeAll_fetch (hcell : Fixed cell) (m : Machine) (place : Place) :
    ∃ a, m.executeAll (resolve cell (fetch place)) =
      ⟨m.ram, a, place.read cell m.ram, m.pc + size (fetch place)⟩ := by
  cases place with
  | literal value => exact ⟨value, rfl⟩
  | based base offset =>
    exact ⟨m.ram.pointer base + offset, by
      simp [fetch, eval, reg, hcell.pointer, Binary.eval, Operand.reg, Place.read, Ram.pointer]⟩
  | direct s => exact ⟨cell s, rfl⟩

theorem push_arrives (hcell : Fixed cell) (h : Placed code (fetch place ++ pushD) m.pc) :
    Arrives (resolve cell code) m [] (m.ram.push (place.read cell m.ram))
      (m.pc + size (fetch place ++ pushD)) := by
  obtain ⟨a, hfetch⟩ := executeAll_fetch hcell m place
  refine h.arrives rfl (by cases place <;> rfl) fun x _ => ?_
  rw [resolve_append, executeAll_append, hfetch, executeAll_pushD hcell]

theorem executeAll_popInto (hcell : Fixed cell) (m : Machine)
    (h : High (m.ram.pointer .sp - 1#16)) :
    (m.executeAll (resolve cell popInto)).ram = ((m.ram.set 13#16 m.d).drop).set m.d m.ram.top := by
  have hregister : cell (.register 13) = 13#16 := hcell.register 13 (by decide)
  have hsp : (m.ram.set 13#16 m.d).pointer .sp = m.ram.pointer .sp := Ram.set_of_ne (by decide)
  have hscratch : (m.ram.set 13#16 m.d).drop 13#16 = m.d := by
    rw [Ram.drop, Ram.setPointer_of_ne _ _ (by decide), Ram.set_self]
  have htop : (m.ram.set 13#16 m.d).drop (m.ram.pointer .sp - 1#16) = m.ram.top := by
    rw [Ram.drop_apply _ h, Ram.set_of_ne (fun he => h.ne_scratch (by simp [he]))]
    rfl
  simp [popInto, executeAll_popD hcell, eval, reg, hregister, hsp, hscratch, htop]

theorem address?_of_locate? {place : Place} (h : locate? place = some address)
    (cell : Symbol → Word) (ram : Ram) : ∃ x, place.address? cell ram = some x := by
  cases place with
  | literal => cases h
  | based | direct => exact ⟨_, rfl⟩

theorem executeAll_locate (hcell : Fixed cell) (hx : place.address? cell m.ram = some x)
    (haddress : locate? place = some address) :
    ∃ a, m.executeAll (resolve cell address) = ⟨m.ram, a, x, m.pc + size address⟩ := by
  cases place with
  | literal => cases hx
  | based base offset =>
    cases hx
    cases haddress
    exact ⟨offset, by simp [eval, reg, hcell.pointer, Binary.eval, Operand.reg, Ram.pointer]⟩
  | direct s =>
    cases hx
    cases haddress
    exact ⟨cell s, rfl⟩

theorem goesOn_locate (haddress : locate? place = some address) :
    address.all Statement.goesOn = true := by
  cases place <;> cases haddress <;> rfl

theorem pop_arrives (hcell : Fixed cell) (hx : place.address? cell m.ram = some x)
    (haddress : locate? place = some address) (hsp : High (m.ram.pointer .sp - 1#16))
    (h : Placed code (address ++ popInto) m.pc) :
    Arrives (resolve cell code) m [13#16] (m.ram.drop.set x m.ram.top)
      (m.pc + size (address ++ popInto)) := by
  obtain ⟨a, hlocate⟩ := executeAll_locate hcell hx haddress
  have hstore := executeAll_popInto hcell ⟨m.ram, a, x, m.pc + size address⟩ hsp
  have hgo := goesOn_locate haddress
  refine h.arrives rfl (by simp only [List.all_append, hgo]; rfl) ?_
  rw [resolve_append, executeAll_append, hlocate, hstore]
  exact (((Ram.AgreeOff.refl _ _).set_left (by simp) _).drop (by decide)).set _ _

/-! ## Operations -/

theorem executeAll_unary (hcell : Fixed cell) (m : Machine) (comp : Comp) :
    (m.executeAll (resolve cell (unary comp))).ram =
      m.ram.replaceTop ((⟨m.ram, m.ram.pointer .sp - 1#16, m.d, m.pc⟩ : Machine).eval comp) := by
  cases comp <;>
    simp [unary, eval, reg, hcell.pointer, Ram.replaceTop, Ram.pointer]

theorem sub_one_sub_one (x : Word) : x - 1#16 - 1#16 = x - 2#16 := by
  bv_omega

/-- The code that takes the top into `D` and aims `A` at the cell below. -/
def operands : List Statement :=
  popD ++ [Statement.set .a (.pred .a)]

theorem executeAll_operands (hcell : Fixed cell) (m : Machine)
    (htop : High (m.ram.pointer .sp - 1#16)) :
    m.executeAll (resolve cell operands) =
      ⟨m.ram.drop, m.ram.pointer .sp - 2#16, m.ram.top, m.pc + 4⟩ := by
  have hdrop : m.ram.drop (m.ram.pointer .sp - 1#16) = m.ram.top := Ram.drop_apply _ htop
  simp [operands, executeAll_popD hcell, eval, reg, hdrop, sub_one_sub_one]

theorem Ram.replaceTop_drop (ram : Ram) (value : Word) :
    ram.drop.replaceTop value = ram.drop.set (ram.pointer .sp - 2#16) value := by
  rw [replaceTop, pointer_drop]
  exact congrArg (ram.drop.set · value) (sub_one_sub_one _)

theorem executeAll_binary (hcell : Fixed cell) (m : Machine) (op : Binary)
    (htop : High (m.ram.pointer .sp - 1#16)) (hsecond : High (m.ram.pointer .sp - 2#16)) :
    (m.executeAll (resolve cell (binary op))).ram =
      m.ram.drop.replaceTop (op.eval m.ram.second m.ram.top) := by
  have hdrop : m.ram.drop (m.ram.pointer .sp - 2#16) = m.ram.second := Ram.drop_apply _ hsecond
  have hpiece : binary op = operands ++ [Statement.set .m (.right op .m)] := rfl
  rw [hpiece, resolve_append, executeAll_append, executeAll_operands hcell m htop]
  simp [eval, reg, Operand.reg, hdrop, Ram.replaceTop_drop]

/-! ## Comparisons -/

/-- The code that subtracts the top from the word below. -/
def difference : List Statement :=
  operands ++ [Statement.set .d (.right .sub .m)]

theorem executeAll_difference (hcell : Fixed cell) (m : Machine)
    (htop : High (m.ram.pointer .sp - 1#16)) (hsecond : High (m.ram.pointer .sp - 2#16)) :
    m.executeAll (resolve cell difference) =
      ⟨m.ram.drop, m.ram.pointer .sp - 2#16, m.ram.second - m.ram.top, m.pc + 5⟩ := by
  have hdrop : m.ram.drop (m.ram.pointer .sp - 2#16) = m.ram.second := Ram.drop_apply _ hsecond
  rw [difference, resolve_append, executeAll_append, executeAll_operands hcell m htop]
  simp [eval, reg, Operand.reg, Binary.eval, hdrop]

/-- From the second label on, the word in `D` takes the place of the top. -/
theorem finish_arrives (hcell : Fixed cell)
    (h : Placed code [.pointer .sp, .set .a (.pred .m), .set .m (.reg .d)] place)
    (hpc : m.pc = place) :
    Arrives (resolve cell code) m [] (m.ram.replaceTop m.d) (place + 3) := by
  refine h.arrives hpc rfl fun x _ => ?_
  simp [eval, reg, hcell.pointer, Ram.replaceTop, Ram.pointer]

/-- A comparison in four parts: the test with its jump, the way of a difference that fails it, and
the two labels. -/
theorem compare_eq (jump : Jump) (serial : Nat) :
    compare jump serial =
      (difference ++ [Statement.symbol (.generated .holds serial)] ++
        [Statement.branch (.reg .d) jump]) ++
      ([Statement.set .d .zero, .symbol (.generated .done serial)] ++ [Statement.jump]) ++
      [Statement.label (.generated .holds serial), .set .d .minusOne] ++
      [Statement.label (.generated .done serial), .pointer .sp, .set .a (.pred .m),
        .set .m (.reg .d)] := rfl

theorem compare_arrives (hcell : Resolves code cell) (h : Placed code (compare jump serial) m.pc)
    (htop : High (m.ram.pointer .sp - 1#16)) (hsecond : High (m.ram.pointer .sp - 2#16)) :
    Arrives (resolve cell code) m []
      (m.ram.drop.replaceTop (Word.ofBool (jump.taken (m.ram.second - m.ram.top))))
      (m.pc + size (compare jump serial)) := by
  rw [compare_eq] at h
  have hholds := hcell.label h.left.right
  have hdone := hcell.label h.right
  have htest := h.left.left.left.reaches_jump cell rfl rfl
  rw [resolve_append, executeAll_append,
    executeAll_difference hcell.toFixed m htop hsecond] at htest
  cases htaken : jump.taken (m.ram.second - m.ram.top) with
  | true =>
    simp [eval, reg, htaken, hholds] at htest
    have hset := h.left.right.reaches cell (m := ⟨m.ram.drop, cell (.generated .holds serial),
      m.ram.second - m.ram.top, _⟩) rfl rfl
    simp [eval] at hset
    exact .head (htest.trans hset) (finish_arrives hcell.toFixed h.right.tail rfl)
  | false =>
    simp [eval, reg, htaken] at htest
    have hskip := h.left.left.right.reaches_jump cell (m := ⟨m.ram.drop,
      cell (.generated .holds serial), m.ram.second - m.ram.top, _⟩) rfl rfl
    simp [eval, Jump.taken] at hskip
    exact .head (htest.trans hskip) (finish_arrives hcell.toFixed h.right.tail hdone)

/-! ## All operations, and branches -/

theorem Word.toInt_eq_zero (x : Word) : decide (x.toInt = 0) = decide (x = 0) := by
  have : x.toInt = 0 ↔ x = 0 := by
    rw [← BitVec.toInt_inj]
    rfl
  simp only [this]

theorem arithmetic_arrives (hcell : Resolves code cell)
    (h : Placed code (arithmetic op serial) m.pc) (htop : High (m.ram.pointer .sp - 1#16))
    (hsecond : op.isUnary = false → High (m.ram.pointer .sp - 2#16)) :
    Arrives (resolve cell code) m [] (op.effect m.ram) (m.pc + size (arithmetic op serial)) := by
  cases op with
  | neg | not =>
    refine h.arrives rfl rfl fun x _ => ?_
    exact congrFun (executeAll_unary hcell.toFixed m _) x
  | add | sub | and | or =>
    refine h.arrives rfl rfl fun x _ => ?_
    exact congrFun (executeAll_binary hcell.toFixed m _ htop (hsecond rfl)) x
  | eq =>
    have := compare_arrives hcell h htop (hsecond rfl)
    rw [Jump.taken, Word.toInt_eq_zero] at this
    exact this
  | gt | lt => exact compare_arrives hcell h htop (hsecond rfl)

theorem goto_arrives (h : Placed code (goto target) m.pc) :
    Arrives (resolve cell code) m [] m.ram (cell target).toNat :=
  ⟨_, (show Placed code ([Statement.symbol target] ++ [Statement.jump]) m.pc from h).reaches_jump
    cell rfl rfl, rfl, fun _ _ => rfl⟩

theorem ifGoto_arrives (hcell : Fixed cell) (h : Placed code (ifGoto target) m.pc)
    (htop : High (m.ram.pointer .sp - 1#16)) :
    Arrives (resolve cell code) m [] m.ram.drop
      (if m.ram.top = 0 then m.pc + size (ifGoto target) else (cell target).toNat) := by
  have hpiece : ifGoto target =
      (popD ++ [Statement.symbol target]) ++ [Statement.branch (.reg .d) .ne] := rfl
  have hdrop : m.ram.drop (m.ram.pointer .sp - 1#16) = m.ram.top := Ram.drop_apply _ htop
  rw [hpiece] at h
  have hreaches := h.reaches_jump cell rfl rfl
  rw [resolve_append, executeAll_append, executeAll_popD hcell] at hreaches
  refine ⟨_, hreaches, ?_, fun _ _ => rfl⟩
  by_cases hzero : m.ram.top = 0
  · simp [eval, reg, hdrop, hzero, Jump.taken]
    rfl
  · have : m.ram.top.toInt ≠ 0 := fun h => hzero (BitVec.toInt_inj.mp h)
    rw [if_neg hzero]
    simp [eval, reg, hdrop, Jump.taken, this]

end

end HackVM
