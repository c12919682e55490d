import HackVM.Proofs.CallCode
import HackVM.Proofs.Loading
import HackVM.Proofs.Sites

/-! Calls and returns from end to end.

A call and the entry of the function push words on the stack (`Ram.Pushed`): the frame, then zeros
for the locals. A return reads the frame back (`Ram.leave_spec`). In a program that can be loaded
this takes the machine from a call to the end of the function's entry, and from any return that
finds the frame in place to the instruction behind the call (`call_protocol`). -/

namespace HackVM
open Machine

/-! ## Words in a row -/

/-- The words stand in memory from an address on. -/
def Ram.HoldsAt (ram : Ram) (start : Nat) (words : List Word) : Prop :=
  ∀ i (h : i < words.length), ram (BitVec.ofNat 16 (start + i)) = words[i]

/-- Words have been pushed on a stack whose top was below `start`. -/
structure Ram.Pushed (ram : Ram) (start : Nat) (words : List Word) (ram' : Ram) : Prop where
  sp : (ram'.pointer .sp).toNat = start + words.length
  held : ram'.HoldsAt start words
  rest : ∀ x, x ≠ Pointer.sp.address → (x.toNat < start ∨ start + words.length ≤ x.toNat) →
    ram' x = ram x

namespace Ram
variable {ram ram' : Ram} {start : Nat} {words : List Word}

namespace Pushed

theorem nil (h : (ram.pointer .sp).toNat = start) : ram.Pushed start [] ram where
  sp := h
  held _ hi := absurd hi (Nat.not_lt_zero _)
  rest _ _ _ := rfl

theorem pointer (h : ram.Pushed start words ram') (hstart : 16 ≤ start) {p : Pointer}
    (hp : p ≠ .sp) : ram'.pointer p = ram.pointer p := by
  refine h.rest _ (fun he => hp (Pointer.address_inj he)) (.inl (Nat.lt_of_lt_of_le ?_ hstart))
  cases p <;> decide

theorem push (h : ram.Pushed start words ram') (hstart : 16 ≤ start)
    (hend : start + words.length < 65535) (value : Word) :
    ram.Pushed start (words ++ [value]) (ram'.push value) := by
  have hhigh : High (ram'.pointer .sp) := by
    rw [High, h.sp]
    omega
  constructor
  · rw [pointer_push _ _ hhigh, BitVec.toNat_add, h.sp, List.length_append]
    simp
    omega
  · intro i hi
    rw [List.length_append, List.length_singleton] at hi
    by_cases hlast : i = words.length
    · have hx : BitVec.ofNat 16 (start + i) = ram'.pointer .sp := by
        rw [hlast, ← h.sp, BitVec.ofNat_toNat, BitVec.setWidth_eq]
      rw [hx, push_self]
      simp [hlast]
    · have hi' : i < words.length := by omega
      have hx : (BitVec.ofNat 16 (start + i)).toNat = start + i := by
        rw [BitVec.toNat_ofNat]
        omega
      rw [push_apply, h.held i hi', List.getElem_append_left hi']
      · intro he
        rw [he] at hx
        exact absurd hx (by simp [Pointer.address]; omega)
      · intro he
        rw [he, h.sp] at hx
        omega
  · intro x hx hrange
    rw [List.length_append, List.length_singleton] at hrange
    rw [push_apply _ _ hx, h.rest x hx (by omega)]
    rintro rfl
    rw [h.sp] at hrange
    omega

theorem pushAll (h : ram.Pushed start words ram') (hstart : 16 ≤ start) (more : List Word)
    (hend : start + words.length + more.length ≤ 65535) :
    ram.Pushed start (words ++ more) (ram'.pushAll more) := by
  induction more generalizing words ram' with
  | nil =>
    rw [List.append_nil]
    exact h
  | cons word more ih =>
    rw [List.length_cons] at hend
    rw [List.append_cons]
    refine ih (h.push hstart (by omega) word) ?_
    rw [List.length_append, List.length_singleton]
    omega

end Pushed

theorem toNat_ofNat_add (h : start + i ≤ 65535) :
    (BitVec.ofNat 16 (start + i)).toNat = start + i := by
  rw [BitVec.toNat_ofNat]
  omega

end Ram

/-! ## The frame of a call -/

@[simp] theorem Ram.length_frameWords (ram : Ram) (back : Word) :
    (ram.frameWords back).length = 5 := rfl

/-- The memory at the end of a function's entry; `s` is the stack pointer before the call. -/
structure Entered (ram : Ram) (s : Nat) (arguments locals : Word) (back : Nat) (ram' : Ram) :
    Prop where
  sp : (ram'.pointer .sp).toNat = s + 5 + locals.toNat
  lcl : (ram'.pointer .lcl).toNat = s + 5
  arg : (ram'.pointer .arg).toNat = s - arguments.toNat
  frame : ram'.HoldsAt s (ram.frameWords (BitVec.ofNat 16 back))
  zeros : ram'.HoldsAt (s + 5) (List.replicate locals.toNat 0)
  rest : ∀ x, x ∉ [Pointer.sp.address, Pointer.lcl.address, Pointer.arg.address] →
    (x.toNat < s ∨ s + 5 + locals.toNat ≤ x.toNat) → ram' x = ram x

/-- A call leaves the frame on the stack and aims the bases of the callee. -/
theorem Ram.enter_spec {ram : Ram} {s back : Nat} {arguments : Word}
    (hsp : (ram.pointer .sp).toNat = s) (hlow : 16 + arguments.toNat ≤ s)
    (hhigh : s + 5 ≤ 65535) :
    Entered ram s arguments 0 back (ram.enter (BitVec.ofNat 16 back) arguments) := by
  have hframe := (Pushed.nil hsp).pushAll (by omega) (ram.frameWords (BitVec.ofNat 16 back))
    (by simp; omega)
  rw [List.nil_append] at hframe
  rw [enter]
  generalize ram.pushAll (ram.frameWords (BitVec.ofNat 16 back)) = pushed at hframe ⊢
  have hpushed : (pushed.pointer .sp).toNat = s + 5 := hframe.sp
  have hlcl : (ram.pointer .sp + 5).toNat = s + 5 := by bv_omega
  have harg : (ram.pointer .sp - arguments).toNat = s - arguments.toNat := by bv_omega
  generalize ram.pointer .sp + 5 = lcl at hlcl ⊢
  generalize ram.pointer .sp - arguments = arg at harg ⊢
  have hkept {x : Word} (hlcl : x ≠ Pointer.lcl.address) (harg : x ≠ Pointer.arg.address) :
      ((pushed.setPointer .arg arg).setPointer .lcl lcl) x = pushed x := by
    rw [setPointer_of_ne _ _ hlcl, setPointer_of_ne _ _ harg]
  constructor
  · rw [pointer_setPointer_of_ne _ _ (by decide), pointer_setPointer_of_ne _ _ (by decide), hpushed]
    rfl
  · rw [pointer_setPointer_self, hlcl]
  · rw [pointer_setPointer_of_ne _ _ (by decide), pointer_setPointer_self, harg]
  · intro i hi
    have hi' : i < 5 := hi
    have hx : High (BitVec.ofNat 16 (s + i)) := by
      rw [High, toNat_ofNat_add (by omega)]
      omega
    rw [hkept (hx.ne_pointer .lcl) (hx.ne_pointer .arg), hframe.held i hi]
  · intro i hi
    cases hi
  · intro x hx hrange
    simp only [List.mem_cons, List.not_mem_nil, or_false, not_or] at hx
    rw [hkept hx.2.1 hx.2.2, hframe.rest x hx.1 hrange]

/-- The entry of a function puts zeros above the frame. -/
theorem Entered.locals {ram ram' : Ram} {s back : Nat} {arguments : Word}
    (h : Entered ram s arguments 0 back ram') (hs : 16 ≤ s) {locals : Word}
    (hhigh : s + 5 + locals.toNat ≤ 65535) :
    Entered ram s arguments locals back (ram'.pushAll (List.replicate locals.toNat 0)) := by
  have hlength : (List.replicate locals.toNat (0 : Word)).length = locals.toNat :=
    List.length_replicate
  have hpushed := (Ram.Pushed.nil h.sp).pushAll (by omega) (List.replicate locals.toNat 0)
    (by simp; omega)
  rw [List.nil_append] at hpushed
  generalize ram'.pushAll (List.replicate locals.toNat 0) = after at hpushed ⊢
  constructor
  · rw [hpushed.sp, hlength]
    rfl
  · rw [hpushed.pointer (by omega) (by decide), h.lcl]
  · rw [hpushed.pointer (by omega) (by decide), h.arg]
  · intro i hi
    have hi' : i < 5 := hi
    have hx : (BitVec.ofNat 16 (s + i)).toNat = s + i := Ram.toNat_ofNat_add (by omega)
    have hhigh : High (BitVec.ofNat 16 (s + i)) := by
      rw [High, hx]
      omega
    rw [hpushed.rest _ (hhigh.ne_pointer .sp) (by rw [hx]; left; simp; omega), h.frame i hi]
  · exact hpushed.held
  · intro x hx hrange
    have hzero : (0 : Word).toNat = 0 := rfl
    have hsp : x ≠ Pointer.sp.address := fun he => hx (by simp [he])
    rw [hpushed.rest x hsp (by rw [hlength]; omega), h.rest x hx (by omega)]

/-! ## The way back -/

/-- A callee that has its bases and its frame as the call left them. -/
structure InFrame (ram : Ram) (s : Nat) (arguments : Word) (back : Nat) (now : Ram) : Prop where
  lcl : (now.pointer .lcl).toNat = s + 5
  arg : (now.pointer .arg).toNat = s - arguments.toNat
  frame : now.HoldsAt s (ram.frameWords (BitVec.ofNat 16 back))

/-- The memory behind a call: `ram` was the caller's, and `now` the callee's when it returned. -/
structure Returned (ram : Ram) (s : Nat) (arguments : Word) (now ram' : Ram) : Prop where
  sp : (ram'.pointer .sp).toNat = s - arguments.toNat + 1
  result : ram' (BitVec.ofNat 16 (s - arguments.toNat)) = now.top
  lcl : ram'.pointer .lcl = ram.pointer .lcl
  arg : ram'.pointer .arg = ram.pointer .arg
  this : ram'.pointer .this = ram.pointer .this
  that : ram'.pointer .that = ram.pointer .that
  rest : ∀ x : Word, 5 ≤ x.toNat → x.toNat ≠ s - arguments.toNat → x ∉ [14, 15] → ram' x = now x

namespace Ram
variable {ram now ram' : Ram} {s back : Nat} {arguments : Word}

theorem leave_apply (h : ∀ p : Pointer, x ≠ p.address) : ram.leave x = ram.withResult x := by
  simp only [leave, setPointer_of_ne _ _ (h _)]

/-- The result does not reach the saved pointers, though it may take the place of the return
address. -/
theorem withResult_frame (h : InFrame ram s arguments back now) (hlow : 16 + arguments.toNat ≤ s)
    (hhigh : s + 5 ≤ 65535) (i : Nat) (hi : 0 < i)
    (hi' : i < (ram.frameWords (BitVec.ofNat 16 back)).length) :
    now.withResult (now.pointer .lcl - BitVec.ofNat 16 (5 - i)) =
      (ram.frameWords (BitVec.ofNat 16 back))[i] := by
  have hlength : i < 5 := hi'
  have hlcl := h.lcl
  have harg := h.arg
  have hcell : now.pointer .lcl - BitVec.ofNat 16 (5 - i) = BitVec.ofNat 16 (s + i) := by
    apply BitVec.eq_of_toNat_eq
    rw [BitVec.toNat_sub, BitVec.toNat_ofNat, BitVec.toNat_ofNat]
    omega
  have htoNat : (BitVec.ofNat 16 (s + i)).toNat = s + i := toNat_ofNat_add (by omega)
  have hhighCell : High (BitVec.ofNat 16 (s + i)) := by
    rw [High, htoNat]
    omega
  rw [hcell, withResult_apply _ (hhighCell.ne_pointer .sp), h.frame i hi']
  intro he
  rw [he] at htoNat
  omega

/-- What a return makes of a memory that has the frame in place. -/
theorem leave_spec (h : InFrame ram s arguments back now) (hlow : 16 + arguments.toNat ≤ s)
    (hhigh : s + 5 ≤ 65535) (hram' : ram'.AgreeOff [14#16, 15#16] now.leave) :
    Returned ram s arguments now ram' := by
  have harg : High (now.pointer .arg) := by
    rw [High, h.arg]
    omega
  have hcell : BitVec.ofNat 16 (s - arguments.toNat) = now.pointer .arg := by
    rw [← h.arg, BitVec.ofNat_toNat, BitVec.setWidth_eq]
  have hpointer (p : Pointer) : ram'.pointer p = now.leave.pointer p :=
    hram' _ (by cases p <;> decide)
  have hsaved := withResult_frame h hlow hhigh
  constructor
  · have hsp : now.leave.pointer .sp = now.pointer .arg + 1#16 := rfl
    rw [hpointer, hsp, BitVec.toNat_add, h.arg]
    simp
    omega
  · rw [hcell, hram' _ fun hmem => harg.ne_scratch (List.mem_cons_of_mem _ hmem),
      leave_apply harg.ne_pointer, now.withResult_arg harg]
  · exact (hpointer .lcl).trans (hsaved 1 (by decide) (by simp))
  · exact (hpointer .arg).trans (hsaved 2 (by decide) (by simp))
  · exact (hpointer .this).trans (hsaved 3 (by decide) (by simp))
  · exact (hpointer .that).trans (hsaved 4 (by decide) (by simp))
  · intro x hlow hx hscratch
    have hne (p : Pointer) : x ≠ p.address := by
      rintro rfl
      exact absurd hlow (by cases p <;> decide)
    rw [hram' x hscratch, leave_apply hne, withResult_apply _ (hne .sp)]
    rintro rfl
    exact hx h.arg

end Ram

/-! ## Calls in a program -/

namespace Site
variable {options : Options} {p : Program}

theorem code_call (h : Program.Reached options p) (site : Site p)
    (hcommand : site.command = .call name arguments) :
    ∃ serial, site.block.code = Expansion.call name arguments serial := by
  obtain ⟨serials, _, hcode⟩ := site.code_eq h
  rw [hcommand] at hcode
  obtain ⟨_, _, hcode⟩ := bind_eq_ok.mp hcode
  exact ⟨_, (Except.ok.inj hcode).symm⟩

theorem code_function (h : Program.Reached options p) (site : Site p)
    (hcommand : site.command = .function name locals) :
    site.block.code = Expansion.function name locals := by
  obtain ⟨serials, _, hcode⟩ := site.code_eq h
  rw [hcommand] at hcode
  exact (Except.ok.inj hcode).symm

theorem code_ret (h : Program.Reached options p) (site : Site p) (hcommand : site.command = .ret) :
    site.block.code = Expansion.ret := by
  obtain ⟨serials, _, hcode⟩ := site.code_eq h
  rw [hcommand] at hcode
  exact (Except.ok.inj hcode).symm

end Site

section
variable {options : Options} {p : Program} {cell : Symbol → Word} {ram : Ram} {m : Machine}

theorem Site.call_enters (h : Program.Reached options p) (hcell : Resolves p.code cell)
    (caller callee : Site p) (hcall : caller.command = .call name arguments)
    (hfunction : callee.command = .function name locals) (hpc : m.pc = caller.start)
    (hsp : (m.ram.pointer .sp).toNat = s) (hlow : 16 + arguments.toNat ≤ s)
    (hhigh : s + 5 + locals.toNat ≤ 65535) :
    ∃ m', Reaches (resolve cell p.code) m m' ∧ m'.pc = callee.stop ∧
      Entered m.ram s arguments locals caller.stop m'.ram := by
  obtain ⟨serial, hcode⟩ := caller.code_call h hcall
  have hentry := callee.code_function h hfunction
  have hcallPlaced := caller.placed
  rw [hcode, ← hpc] at hcallPlaced
  have hplaced := callee.placed
  rw [hentry] at hplaced
  have hroom : m.ram.Room 5 := Ram.room_of_le (by omega) (by omega)
  -- the name of the function stands for the place of its entry
  obtain ⟨m', hreaches, hm'pc, hm'ram⟩ := call_arrives hcell hcallPlaced hroom
  rw [hcell.label hplaced] at hm'pc
  rw [← hm'pc] at hplaced
  obtain ⟨m'', hreaches', hm''pc, hm''ram⟩ := function_arrives hcell.toFixed hplaced
  refine ⟨m'', hreaches.trans hreaches', ?_, ?_⟩
  · rw [hm''pc, hm'pc, Site.stop, hentry]
  · rw [hm''ram.eq, hm'ram.eq, hpc, ← hcode]
    exact (Ram.enter_spec hsp hlow (by omega)).locals (by omega) hhigh

theorem Site.ret_returns (h : Program.Reached options p) (hcell : Fixed cell) (exit : Site p)
    (hret : exit.command = .ret) (hpc : m.pc = exit.start)
    (hframe : InFrame ram s arguments back m.ram) (htop : 17 ≤ (m.ram.pointer .sp).toNat)
    (hlow : 16 + arguments.toNat ≤ s) (hhigh : s + 5 ≤ 65535) (hback : back ≤ 65535) :
    ∃ m', Reaches (resolve cell p.code) m m' ∧ m'.pc = back ∧
      Returned ram s arguments m.ram m'.ram := by
  have hplaced := exit.placed
  rw [exit.code_ret h hret, ← hpc] at hplaced
  have hhighTop : High (m.ram.pointer .sp - 1#16) := by
    rw [High]
    bv_omega
  have harg : High (m.ram.pointer .arg) := by
    rw [High, hframe.arg]
    omega
  have hlcl : m.ram.pointer .lcl - 5#16 = BitVec.ofNat 16 (s + 0) := by
    have := hframe.lcl
    bv_omega
  have hread : m.ram.returnAddress = BitVec.ofNat 16 back :=
    (congrArg m.ram hlcl).trans (hframe.frame 0 (by simp))
  obtain ⟨m', hreaches, hm'pc, hm'ram⟩ :=
    ret_arrives hcell hplaced hhighTop harg (by rw [hframe.lcl]; omega)
  refine ⟨m', hreaches, ?_, Ram.leave_spec hframe hlow hhigh hm'ram⟩
  rw [hm'pc, hread, BitVec.toNat_ofNat]
  omega

end

/-- A call takes the machine to the end of the function's entry, with the frame and the locals on
the stack, and a return that finds the frame in place takes it behind the call, with the result in
the place of the arguments and the pointers of the caller. -/
theorem call_protocol {source : Source} {options : Options} {names : List String} {p : Program}
    {instructions : List Instruction}
    (hlink : ((Program.empty options).addAll source names).value = .ok p)
    (hload : load? p.lines = some instructions) (caller callee : Site p)
    (hcall : caller.command = .call name arguments)
    (hfunction : callee.command = .function name locals) (m : Machine) (hpc : m.pc = caller.start)
    (hsp : (m.ram.pointer .sp).toNat = s) (hlow : 16 + arguments.toNat ≤ s)
    (hhigh : s + 5 + locals.toNat ≤ 65535) :
    (∃ m', Reaches instructions m m' ∧ m'.pc = callee.stop ∧
      Entered m.ram s arguments locals caller.stop m'.ram) ∧
    ∀ (exit : Site p) (m₁ : Machine), exit.command = .ret → m₁.pc = exit.start →
      InFrame m.ram s arguments caller.stop m₁.ram → 17 ≤ (m₁.ram.pointer .sp).toNat →
      ∃ m₂, Reaches instructions m₁ m₂ ∧ m₂.pc = caller.stop ∧
        Returned m.ram s arguments m₁.ram m₂.ram := by
  have hreached := (.empty : Program.Reached options _).addAll hlink
  rw [hreached.load?_lines] at hload
  obtain ⟨hnodup, hsize, rfl⟩ := assemble?_eq_some.mp hload
  have hcell := resolves_addressOf hnodup hsize
  have hstop : caller.stop ≤ 32768 := Nat.le_trans caller.placed.le_size hsize
  constructor
  · exact Site.call_enters hreached hcell caller callee hcall hfunction hpc hsp hlow hhigh
  · intro exit m₁ hret hm₁ hframe htop
    exact Site.ret_returns hreached hcell.toFixed exit hret hm₁ hframe htop hlow (by omega)
      (by omega)

/-! ## A call without arguments -/

def callSource : Source :=
  .ofMemory [("Main", "call f 0\nfunction f 1\nreturn")]

def callBlocks : List Block :=
  [⟨"call f 0", .call "f" 0, Expansion.call "f" 0 0⟩,
    ⟨"function f 1", .function "f" 1, Expansion.function "f" 1⟩,
    ⟨"return", .ret, Expansion.ret⟩]

def callProgram : Program where
  options := {}
  serials := { calls := 1 }
  modules := [⟨"Main", callBlocks⟩]

/-- The site of a block with the given ones before and behind it. -/
def callSite (earlier : List Block) (block : Block) (later : List Block)
    (h : callBlocks = earlier ++ block :: later) : Site callProgram where
  front := []
  linked := ⟨"Main", callBlocks⟩
  rear := []
  modules_eq := rfl
  earlier := earlier
  block := block
  later := later
  blocks_eq := h

/-- All pointers of the caller are different. -/
def callerRam : Ram :=
  .startingWith [300, 1000, 2000, 3000, 4000]

/-- The pointers are saved above the return address. The callee then takes `THIS` and `THAT` for its
own, and the return brings all pointers back, while its result overwrites the return address. -/
theorem call_protocol_alone :
    ∃ instructions m' m'', load? callProgram.lines = some instructions ∧
      Reaches instructions ⟨callerRam, 0, 0, 0⟩ m' ∧
      [0, 1, 2, 3, 4].map m'.ram = [306, 305, 300, 3000, 4000] ∧
      m'.ram.HoldsAt 300 [44, 1000, 2000, 3000, 4000] ∧ m'.ram 305 = 0 ∧
      Reaches instructions ⟨(m'.ram.setPointer .this 7).setPointer .that 8, 0, 0, m'.pc⟩ m'' ∧
      m''.pc = 44 ∧ [0, 1, 2, 3, 4].map m''.ram = [301, 1000, 2000, 3000, 4000] ∧
      m''.ram 300 = 0 := by
  have hlink : ((Program.empty {}).addAll callSource ["Main"]).value = .ok callProgram := by rfl
  obtain ⟨instructions, hload⟩ : ∃ instructions, load? callProgram.lines = some instructions :=
    Option.isSome_iff_exists.mp (by decide +kernel)
  obtain ⟨⟨m', hreaches, hpc, hentered⟩, hexit⟩ :=
    call_protocol (s := 300) hlink hload (callSite [] _ _ rfl) (callSite [_] _ _ rfl) rfl rfl
      ⟨callerRam, 0, 0, 0⟩ rfl rfl (by decide) (by decide)
  have hsp : m'.ram 0 = 306 := BitVec.eq_of_toNat_eq hentered.sp
  have hlcl : m'.ram 1 = 305 := BitVec.eq_of_toNat_eq hentered.lcl
  have harg : m'.ram 2 = 300 := BitVec.eq_of_toNat_eq hentered.arg
  have hthis : m'.ram 3 = 3000 := hentered.rest 3 (by decide) (.inl (by decide))
  have hthat : m'.ram 4 = 4000 := hentered.rest 4 (by decide) (.inl (by decide))
  have hframe : m'.ram.HoldsAt 300 [44, 1000, 2000, 3000, 4000] := hentered.frame
  have hlocal : m'.ram 305 = 0 := hentered.zeros 0 (by decide)
  have hkept {x : Word} (hx : High x) :
      (m'.ram.setPointer .this 7).setPointer .that 8 x = m'.ram x := by
    rw [Ram.setPointer_apply _ _ _ hx, Ram.setPointer_apply _ _ _ hx]
  have hinFrame : InFrame callerRam 300 0 44 ((m'.ram.setPointer .this 7).setPointer .that 8) := by
    refine ⟨hentered.lcl, hentered.arg, fun i hi => (hkept ?_).trans (hframe i hi)⟩
    rw [High, Ram.toNat_ofNat_add (by simp at hi; omega)]
    omega
  obtain ⟨m'', hreaches', hpc', hreturned⟩ := hexit (callSite [_, _] _ _ rfl)
    ⟨(m'.ram.setPointer .this 7).setPointer .that 8, 0, 0, m'.pc⟩ rfl hpc hinFrame
    (show 17 ≤ (m'.ram 0).toNat by rw [hsp]; decide)
  have hresult : ((m'.ram.setPointer .this 7).setPointer .that 8).top = 0 := by
    have htop : ((m'.ram.setPointer .this 7).setPointer .that 8).pointer .sp - 1 = 305 :=
      congrArg (· - 1) hsp
    rw [Ram.top, htop, hkept (by decide), hlocal]
  have hsp' : m''.ram 0 = 301 := BitVec.eq_of_toNat_eq hreturned.sp
  have hlcl' : m''.ram 1 = 1000 := hreturned.lcl
  have harg' : m''.ram 2 = 2000 := hreturned.arg
  have hthis' : m''.ram 3 = 3000 := hreturned.this
  have hthat' : m''.ram 4 = 4000 := hreturned.that
  refine ⟨instructions, m', m'', hload, hreaches, ?_, hframe, hlocal, hreaches', hpc', ?_,
    hreturned.result.trans hresult⟩
  · simp only [List.map_cons, List.map_nil, hsp, hlcl, harg, hthis, hthat]
  · simp only [List.map_cons, List.map_nil, hsp', hlcl', harg', hthis', hthat']

end HackVM
