import HackVM.Proofs.Acceptance
import HackVM.Proofs.Sites
import HackVM.Proofs.StackCode

/-! A push that is taken back.

A push writes the stack pointer and one cell above the stack, and the pop that takes it back writes
a scratch cell besides. The cell in between is arbitrary and may be any of these, but what goes back
to it is the word that was there (`Ram.push_drop_set`). So a push and a pop of one cell leave the
memory as it was, the scratch cell and the cell above the stack aside (`push_pop_restores`). -/

namespace HackVM
open Machine Expansion

namespace Ram
variable (ram : Ram)

theorem top_push (value : Word) (h : High (ram.pointer .sp)) : (ram.push value).top = value := by
  have hsp : ram.pointer .sp + 1#16 - 1#16 = ram.pointer .sp := BitVec.add_sub_cancel _ _
  rw [top, pointer_push _ _ h]
  exact (congrArg _ hsp).trans (ram.push_self value)

/-- Dropping what was pushed leaves it in the cell above the stack. -/
theorem drop_push (value : Word) (h : High (ram.pointer .sp)) :
    (ram.push value).drop = ram.set (ram.pointer .sp) value := by
  have hsp : ram.pointer .sp + 1#16 - 1#16 = ram.pointer .sp := BitVec.add_sub_cancel _ _
  funext x
  by_cases hx : x = Pointer.sp.address
  · subst hx
    rw [set_of_ne (h.ne_pointer .sp).symm]
    exact (pointer_drop _).trans ((congrArg (· - 1#16) (pointer_push _ _ h)).trans hsp)
  · rw [drop, setPointer_of_ne _ _ hx, push, setPointer]
    simp only [set, hx, if_false]

/-- What was pushed goes back to the cell it came from, whichever that is. -/
theorem push_drop_set (x : Word) (h : High (ram.pointer .sp)) :
    AgreeOff [ram.pointer .sp] ((ram.push (ram x)).drop.set x (ram.push (ram x)).top) ram := by
  intro y hy
  rw [List.mem_singleton] at hy
  rw [top_push _ _ h, drop_push _ _ h]
  by_cases hx : y = x
  · rw [hx, set_self]
  · rw [set_of_ne hx, set_of_ne hy]

end Ram

/-! ## Places -/

/-- A place that a push does not move: it is not counted from the stack pointer. -/
def Place.Steady (place : Place) : Prop :=
  ∀ offset, place ≠ .based .sp offset

theorem Segment.place_steady (segment : Segment) (space : String) (index : Word) :
    (segment.place space index).Steady := by
  intro offset
  cases segment <;> simp [Segment.place]

theorem Place.Steady.address?_push {place : Place} (h : place.Steady) (cell : Symbol → Word)
    (ram : Ram) (value : Word) (hsp : High (ram.pointer .sp)) :
    place.address? cell (ram.push value) = place.address? cell ram := by
  cases place with
  | literal | direct => rfl
  | based base offset =>
    have hbase : base ≠ .sp := fun heq => h offset (by rw [heq])
    simp only [address?, ram.pointer_push_of_ne value hsp hbase]

/-! ## Both commands -/

section
variable {cell : Symbol → Word} {code : List Statement} {m : Machine}

theorem push_pop_arrives (hcell : Fixed cell) {place : Place} (hplace : place.Steady)
    (haddress : locate? place = some address) (hsp : High (m.ram.pointer .sp))
    (hpush : Placed code (fetch place ++ pushD) m.pc)
    (hpop : Placed code (address ++ popInto) (m.pc + size (fetch place ++ pushD))) :
    Arrives (resolve cell code) m [13#16, m.ram.pointer .sp] m.ram
      (m.pc + size (fetch place ++ pushD) + size (address ++ popInto)) := by
  obtain ⟨m', hreaches, hpc, hram⟩ := push_arrives hcell hpush
  obtain ⟨x, hx⟩ := address?_of_locate? haddress cell m.ram
  rw [Place.read_of_address? hx] at hram
  have hx' : place.address? cell m'.ram = some x := by
    rw [hram.eq, hplace.address?_push cell _ _ hsp, hx]
  have hsp' : High (m'.ram.pointer .sp - 1#16) := by
    rw [hram.eq, Ram.pointer_push _ _ hsp, BitVec.add_sub_cancel]
    exact hsp
  rw [← hpc] at hpop
  have harrives := pop_arrives hcell hx' haddress hsp' hpop
  rw [hpc, hram.eq] at harrives
  refine .head hreaches (harrives.mono (by simp) fun y hy => ?_)
  exact m.ram.push_drop_set x hsp y fun hmem => hy (List.mem_cons_of_mem _ hmem)

end

/-- A push and a pop of one cell that has an address leave every word of the memory as it was, the
stack pointer included, except for the scratch cell and the cell above the stack: by themselves,
whatever the symbols stand for, and at two commands of a linked program that follow each other.
Nothing is said about where the cell is, which may be any of those that the commands work with. -/
theorem push_pop_restores {segment : Segment} {index : Word} (hsegment : segment ≠ .constant)
    (hindex : index ≤ segment.maxIndex) :
    (∀ ctx : Context, ∃ pushed popped, ctx.code (.push segment index) = .ok pushed ∧
      ctx.code (.pop segment index) = .ok popped ∧
      ∀ (cell : Symbol → Word) (m : Machine), Fixed cell → m.pc = 0 →
        16 ≤ (m.ram.pointer .sp).toNat →
        Arrives (resolve cell (pushed ++ popped)) m [13, m.ram.pointer .sp] m.ram
          (size (pushed ++ popped))) ∧
    ∀ (source : Source) (options : Options) (names : List String) (p : Program)
      (instructions : List Instruction),
      ((Program.empty options).addAll source names).value = .ok p →
      load? p.lines = some instructions → ∀ (first second : Site p) (m : Machine),
        first.command = .push segment index → second.command = .pop segment index →
        second.linked.name = first.linked.name → second.start = first.stop →
        m.pc = first.start → 16 ≤ (m.ram.pointer .sp).toNat →
        Arrives instructions m [13, m.ram.pointer .sp] m.ram second.stop := by
  refine ⟨fun ctx => ?_, ?_⟩
  · obtain ⟨pushed, hpush⟩ := (ctx.code_isOk_iff (.push segment index)).mpr ⟨hindex, nofun⟩
    obtain ⟨popped, hpop⟩ := (ctx.code_isOk_iff (.pop segment index)).mpr
      ⟨hindex, fun _ heq => hsegment (Command.pop.inj heq).1⟩
    refine ⟨pushed, popped, hpush, hpop, fun cell m hcell hpc hsp => ?_⟩
    obtain ⟨_, rfl⟩ := push_eq_ok hpush
    obtain ⟨address, haddress, _, rfl⟩ := pop_eq_ok hpop
    have hplaced : Placed (fetch (segment.place ctx.space index) ++ pushD ++ (address ++ popInto))
        (fetch (segment.place ctx.space index) ++ pushD ++ (address ++ popInto)) m.pc :=
      ⟨[], [], by simp, hpc.symm⟩
    have harrives := push_pop_arrives hcell (segment.place_steady ctx.space index) haddress hsp
      hplaced.left hplaced.right
    rw [hpc, Nat.zero_add, ← size_append] at harrives
    exact harrives
  · intro source options names p instructions hlink hload first second m hpush hpop hname hnext hpc
      hsp
    have hreached := (.empty : Program.Reached options _).addAll hlink
    obtain ⟨hcell, rfl⟩ := hreached.resolves_of_load hload
    obtain ⟨_, _, hfirst⟩ := first.code_eq hreached
    obtain ⟨_, _, hsecond⟩ := second.code_eq hreached
    rw [hpush] at hfirst
    rw [hpop] at hsecond
    obtain ⟨_, hpushed⟩ := push_eq_ok hfirst
    obtain ⟨address, haddress, _, hpopped⟩ := pop_eq_ok hsecond
    -- both commands stand in modules of one namespace, so that they name the same cell
    have hspace : second.linked.space = first.linked.space := congrArg namespaceOf hname
    change locate? (segment.place second.linked.space index) = some address at haddress
    rw [hspace] at haddress
    have hplaced := first.placed
    have hplaced' := second.placed
    rw [hpushed, ← hpc] at hplaced
    rw [hpopped, hnext, Site.stop, hpushed, ← hpc] at hplaced'
    have harrives := push_pop_arrives hcell.toFixed (segment.place_steady _ index) haddress hsp
      hplaced hplaced'
    rw [Site.stop, hnext, Site.stop, hpushed, hpopped, ← hpc]
    exact harrives

/-! ## The stack pointer as the addressed cell -/

/-- A push of a local and the pop that takes it back. -/
def backAndForth : List Block :=
  [⟨"push local 1", .push .locals 1, fetch (.based .lcl 1) ++ pushD⟩,
    ⟨"pop local 1", .pop .locals 1, [.pointer .lcl, .set .d (.reg .m), .number 1,
      .set .d (.left .add .a)] ++ popInto⟩]

def backAndForthProgram : Program where
  options := {}
  serials := {}
  modules := [⟨"Main", backAndForth⟩]

def backAndForthSite (earlier : List Block) (block : Block) (later : List Block)
    (h : backAndForth = earlier ++ block :: later) : Site backAndForthProgram where
  front := []
  linked := ⟨"Main", backAndForth⟩
  rear := []
  modules_eq := rfl
  earlier := earlier
  block := block
  later := later
  blocks_eq := h

/-- All words are the largest address, so that the local is the stack pointer itself, and the stack
pointer wraps around. -/
theorem push_pop_restores_stack_pointer :
    ∃ instructions, load? backAndForthProgram.lines = some instructions ∧
      (Segment.locals.place "Main" 1).address? (fun _ => 0) (fun _ => 65535) =
        some Pointer.sp.address ∧
      Arrives instructions ⟨fun _ => 65535, 0, 0, 0⟩ [13, 65535] (fun _ => 65535) 21 := by
  have hlink : ((Program.empty {}).addAll (.ofMemory [("Main", "push local 1\npop local 1")])
      ["Main"]).value = .ok backAndForthProgram := by rfl
  obtain ⟨instructions, hload⟩ :
      ∃ instructions, load? backAndForthProgram.lines = some instructions :=
    Option.isSome_iff_exists.mp (by decide +kernel)
  have hsegment : Segment.locals ≠ .constant := by decide
  have hindex : (1 : Word) ≤ Segment.locals.maxIndex := by decide
  have hrestores := (push_pop_restores hsegment hindex).2 _ {} ["Main"] _ instructions hlink hload
    (backAndForthSite [] _ _ rfl) (backAndForthSite [_] _ _ rfl) ⟨fun _ => 65535, 0, 0, 0⟩
    rfl rfl rfl rfl rfl (by decide)
  exact ⟨instructions, hload, by decide, hrestores⟩

end HackVM
