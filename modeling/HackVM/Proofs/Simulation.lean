import HackVM.Proofs.CallCode
import HackVM.Proofs.LinkOrder
import HackVM.Proofs.Loading
import HackVM.Proofs.Sites
import HackVM.Proofs.StaticCells

/-! A linked program does on the machine what its commands mean.

One command takes the machine to the memory of its effect, the scratch cells aside, and to the place
where its effect says control goes (`command_arrives`). In a program whose symbols are in order that
place is behind the command, at the command whose place has the name, or at a return address
(`Site.continues`). The commands of a linked program are those on the lines of its modules
(`Program.commands_addAll`), its lines can be loaded, and every command of it is simulated
(`link_simulates`). -/

namespace HackVM
open Machine

/-! ## Cells -/

/-- The cell of a segment, if it is reached through a pointer. -/
def Segment.cells (ram : Ram) (index : Word) (segment : Segment) : List Int :=
  (segment.start?.map fun start => ((ram.pointer start).toNat + index.toNat : Int)).toList

/-- The cells that a command reaches through the pointers, as numbers that do not wrap around. -/
def Command.cells (ram : Ram) (command : Command) : List Int :=
  let sp : Int := (ram.pointer .sp).toNat
  let arg : Int := (ram.pointer .arg).toNat
  let lcl : Int := (ram.pointer .lcl).toNat
  match command with
  | .arithmetic op => if op.isUnary then [sp - 1] else [sp - 1, sp - 2]
  | .push segment index => sp :: segment.cells ram index
  | .pop segment index => (sp - 1) :: segment.cells ram index
  | .label _ | .goto _ => []
  | .ifGoto _ => [sp - 1]
  | .function _ locals => (List.range locals.toNat).map fun i => sp + i
  | .call _ _ => (List.range 5).map fun i => sp + i
  | .ret => [sp - 1, arg] ++ (List.range 5).map fun i => lcl - 5 + i

/-- Addresses above the pointers and registers. -/
def InRange (cells : List Int) : Prop :=
  ∀ x ∈ cells, 16 ≤ x ∧ x ≤ 65535

instance : Decidable (InRange cells) :=
  List.decidableBAll (fun x => 16 ≤ x ∧ x ≤ 65535) cells

theorem InRange.high_sub {x k : Word} (h : InRange cells)
    (hmem : (x.toNat : Int) - k.toNat ∈ cells) : High (x - k) := by
  have hlow := (h _ hmem).1
  rw [High]
  bv_omega

/-! ## One command -/

/-- The effect of a command whose code ends at `stop`, with static cells where `cell` has them. -/
def Context.effect (ctx : Context) (cell : Symbol → Word) (stop : Nat) (ram : Ram)
    (command : Command) : Ram × Next :=
  command.effect ctx (fun index => cell (.static ctx.space index)) (BitVec.ofNat 16 stop) ram

/-- The place that control goes to; `stop` is the place behind the command. -/
def Next.place (cell : Symbol → Word) (stop : Nat) : Next → Nat
  | .on => stop
  | .label name => (cell (.name name)).toNat
  | .address target => target.toNat

theorem Arrives.scratch {instructions : List Instruction} {m : Machine} {ram : Ram}
    (h : Arrives instructions m off ram place) (hoff : off ⊆ [13#16, 14#16, 15#16]) :
    Arrives instructions m [13#16, 14#16, 15#16] ram place :=
  h.mono hoff fun _ _ => rfl

/-- The address of a label is that of its name. -/
theorem Resolves.cell_label {code : List Statement} {cell : Symbol → Word}
    (hcell : Resolves code cell) (ctx : Context) (name : String) :
    cell (ctx.label name) = cell (.name (ctx.scope.qualify ctx.function? name)) :=
  hcell.text (ctx.text_label name)

/-- A command at the program counter has its effect. -/
theorem command_arrives {code piece : List Statement} {cell : Symbol → Word} {ctx : Context}
    {command : Command} {m : Machine} (hcell : Resolves code cell)
    (hcode : ctx.code command = .ok piece) (h : Placed code piece m.pc)
    (hrange : InRange (command.cells m.ram)) :
    Arrives (resolve cell code) m [13#16, 14#16, 15#16]
      (ctx.effect cell (m.pc + size piece) m.ram command).1
      ((ctx.effect cell (m.pc + size piece) m.ram command).2.place cell (m.pc + size piece)) := by
  cases command with
  | arithmetic op =>
    cases hcode
    have htop : High (m.ram.pointer .sp - 1#16) :=
      hrange.high_sub (by cases hop : op.isUnary <;> simp [Command.cells, hop])
    have hsecond : op.isUnary = false → High (m.ram.pointer .sp - 2#16) :=
      fun hop => hrange.high_sub (by simp [Command.cells, hop])
    exact (arithmetic_arrives hcell h htop hsecond).scratch (List.nil_subset _)
  | push segment index =>
    obtain ⟨hindex, rfl⟩ := push_eq_ok hcode
    have harrives := (push_arrives hcell.toFixed h).scratch (List.nil_subset _)
    rw [Segment.read_place hcell.toFixed hindex] at harrives
    exact harrives
  | pop segment index =>
    obtain ⟨address, haddress, hindex, rfl⟩ := pop_eq_ok hcode
    obtain ⟨x, hx⟩ := address?_of_locate? haddress cell m.ram
    have htop : High (m.ram.pointer .sp - 1#16) := hrange.high_sub (by simp [Command.cells])
    have harrives := (pop_arrives hcell.toFixed hx haddress htop h).scratch (by decide)
    rw [Segment.address?_place hcell.toFixed hindex] at hx
    simp only [Context.effect, Command.effect, hx]
    exact harrives
  | label name =>
    cases hcode
    exact ⟨m, .refl _ _, rfl, fun _ _ => rfl⟩
  | goto name =>
    cases hcode
    simp only [Context.effect, Command.effect, Next.place, ← hcell.cell_label]
    exact (goto_arrives h).scratch (List.nil_subset _)
  | ifGoto name =>
    cases hcode
    have htop : High (m.ram.pointer .sp - 1#16) := hrange.high_sub (by simp [Command.cells])
    have harrives := (ifGoto_arrives hcell.toFixed h htop).scratch (List.nil_subset _)
    rw [hcell.cell_label] at harrives
    simp only [Context.effect, Command.effect, apply_ite (Next.place cell _)]
    exact harrives
  | function name locals =>
    cases hcode
    exact (function_arrives hcell.toFixed h).scratch (List.nil_subset _)
  | call name arguments =>
    obtain ⟨_, _, hcode⟩ := bind_eq_ok.mp hcode
    cases hcode
    have hfirst := hrange ((m.ram.pointer .sp).toNat + (0 : Nat))
      (List.mem_map.mpr ⟨0, by decide, rfl⟩)
    have hlast := hrange ((m.ram.pointer .sp).toNat + (4 : Nat))
      (List.mem_map.mpr ⟨4, by decide, rfl⟩)
    have hroom : m.ram.Room 5 := Ram.room_of_le (by omega) (by omega)
    exact (call_arrives hcell h hroom).scratch (List.nil_subset _)
  | ret =>
    cases hcode
    have htop : High (m.ram.pointer .sp - 1#16) := hrange.high_sub (by simp [Command.cells])
    have harg := hrange (m.ram.pointer .arg).toNat (by simp [Command.cells])
    have hframe := hrange ((m.ram.pointer .lcl).toNat - 5)
      (List.mem_append_right _ (List.mem_map.mpr ⟨0, by decide, by simp⟩))
    exact (ret_arrives hcell.toFixed h htop (Int.ofNat_le.mp harg.1) (by omega)).scratch (by decide)

/-! ## Symbols in order -/

/-- The symbol whose address a jump at the head of the rest would go to. -/
def jumpTarget? : Statement → List Statement → Option Symbol
  | .symbol s, .compute _ _ condition :: _ => if condition = .never then none else some s
  | _, _ => none

/-- The symbols that are loaded right before a jump. -/
def jumpTargets : List Statement → List Symbol
  | [] => []
  | s :: rest => (jumpTarget? s rest).toList ++ jumpTargets rest

def declaredTexts (code : List Statement) : List String :=
  (labelsFrom 0 code).map Prod.fst

/-- What the symbols of a program have to satisfy for it to run as it was meant. All of it is about
the texts of symbols, so that it can be read off the lines. -/
structure Program.SymbolsInOrder (p : Program) : Prop where
  once : (declaredTexts p.code).Nodup
  jumps : ∀ s ∈ jumpTargets p.code, s.text ∈ declaredTexts p.code
  not_predefined : ∀ text ∈ declaredTexts p.code, text ∉ predefined.map Prod.fst
  not_static : ∀ text ∈ declaredTexts p.code, ∀ m ∈ p.modules, ∀ index,
    text ≠ (Symbol.static m.space index).text
  small : size p.code ≤ maxInstructions

theorem mem_jumpTargets {code : List Statement} {dest : Dest} {comp : Comp} {condition : Jump}
    (h : Placed code (.symbol s :: .compute dest comp condition :: rest) place)
    (hcondition : condition ≠ .never) : s ∈ jumpTargets code := by
  obtain ⟨before, behind, rfl, -⟩ := h
  induction before with
  | nil => simp [jumpTargets, jumpTarget?, hcondition]
  | cons t before ih => exact List.mem_append_right _ ih

theorem exists_label_of_mem_labelsFrom {code : List Statement} {n : Nat}
    (h : text ∈ (labelsFrom n code).map Prod.fst) :
    ∃ s : Symbol, .label s ∈ code ∧ s.text = text := by
  induction code generalizing n with
  | nil => cases h
  | cons t code ih =>
    cases t with
    | label s =>
      rcases List.mem_cons.mp h with rfl | h
      · exact ⟨s, List.mem_cons_self, rfl⟩
      · obtain ⟨s, hs, htext⟩ := ih h
        exact ⟨s, List.mem_cons_of_mem _ hs, htext⟩
    | number | symbol | compute =>
      obtain ⟨s, hs, htext⟩ := ih h
      exact ⟨s, List.mem_cons_of_mem _ hs, htext⟩

namespace Program.SymbolsInOrder
variable {p : Program}

theorem nodup (h : p.SymbolsInOrder) : ((declared p.code).map Prod.fst).Nodup := by
  rw [declared, List.map_append, List.nodup_append]
  refine ⟨by decide, h.once, fun text htext text' htext' he => ?_⟩
  exact h.not_predefined text' htext' (he ▸ htext)

theorem resolves (h : p.SymbolsInOrder) : Resolves p.code (addressOf p.code) :=
  resolves_addressOf h.nodup h.small

theorem assembles (h : p.SymbolsInOrder) :
    assemble? p.code = some (resolve (addressOf p.code) p.code) :=
  assemble?_eq_some.mpr ⟨h.nodup, h.small, rfl⟩

end Program.SymbolsInOrder

/-! ## Where control goes -/

namespace Site
variable {p : Program}

/-- The memory after a command of a program and where control goes. -/
def effect (site : Site p) (cell : Symbol → Word) (ram : Ram) : Ram × Next :=
  site.context.effect cell site.stop ram site.command

/-- Control goes on behind the command, to the command whose place has a name, or to an address. -/
def Continues (site : Site p) : Next → Nat → Prop
  | .on, place => place = site.stop
  | .label name, place => ∃ target : Site p, place = target.start ∧
      target.command.placeName? target.context = some name
  | .address target, place => place = target.toNat

end Site

/-- A command that goes to a label loads a symbol of its name right before a jump, and this symbol
is no generated one. -/
theorem Context.jump_mem_code {ctx : Context} {command : Command} {piece : List Statement}
    {cell : Symbol → Word} {ram : Ram} (hcode : ctx.code command = .ok piece)
    (h : (ctx.effect cell stop ram command).2 = .label name) :
    ∃ target : Symbol, target.text = name ∧ (∀ kind n, target ≠ .generated kind n) ∧
      ∃ before comp condition behind, condition ≠ .never ∧
        piece = before ++ .symbol target :: .branch comp condition :: behind := by
  cases command with
  | goto label =>
    cases hcode
    cases h
    exact ⟨_, ctx.text_label label, ctx.label_ne_generated label, [], .zero, .always, [], by decide,
      rfl⟩
  | ifGoto label =>
    cases hcode
    simp only [Context.effect, Command.effect] at h
    split at h
    · cases h
    · cases h
      exact ⟨_, ctx.text_label label, ctx.label_ne_generated label, Expansion.popD, .reg .d, .ne,
        [], by decide, rfl⟩
  | call name arguments =>
    obtain ⟨_, _, hcode⟩ := bind_eq_ok.mp hcode
    cases hcode
    cases h
    exact ⟨.name name, rfl, nofun, buildFrame _ _, .zero, .always, [_], by decide, rfl⟩
  | pop segment index =>
    simp only [Context.effect, Command.effect] at h
    split at h <;> cases h
  | arithmetic | push | label | function | ret => cases h

/-- A symbol that the code loads, a generated label aside, and that is declared, is the name of the
place of a command. -/
theorem Program.Reached.exists_site_of_text {options : Options} {p : Program}
    (h : Reached options p) (hmem : .symbol target ∈ p.code)
    (htarget : ∀ kind n, target ≠ .generated kind n) (htext : target.text ∈ declaredTexts p.code) :
    ∃ site : Site p, site.command.placeName? site.context = some target.text ∧
      ∃ s rest, s.text = target.text ∧ site.block.code = .label s :: rest := by
  obtain ⟨s, hs, hstext⟩ := exists_label_of_mem_labelsFrom htext
  have hwf : target.WellFormed := h.wellFormed _ hmem
  have hgenerated (kind : LabelKind) (n : Nat) : s ≠ .generated kind n := by
    rintro rfl
    exact htarget kind n ((Symbol.text_eq_generated hwf).mp hstext.symm)
  obtain ⟨site, hdeclares, rest, hcode⟩ := h.exists_site hs hgenerated
  exact ⟨site, hstext ▸ Command.placeName?_of_declares? hdeclares, s, rest, hstext, hcode⟩

theorem Context.effect_serials (ctx : Context) (serials : Serials) (cell : Symbol → Word)
    (stop : Nat) (ram : Ram) (command : Command) :
    ({ ctx with serials := serials } : Context).effect cell stop ram command =
      ctx.effect cell stop ram command := by
  cases command <;> rfl

theorem Site.continues {options : Options} {p : Program} (h : Program.Reached options p)
    (horder : p.SymbolsInOrder) (site : Site p) (ram : Ram) :
    site.Continues (site.effect (addressOf p.code) ram).2
      ((site.effect (addressOf p.code) ram).2.place (addressOf p.code) site.stop) := by
  cases hnext : (site.effect (addressOf p.code) ram).2 with
  | on | address => rfl
  | label name =>
    obtain ⟨serials, _, hcode⟩ := site.code_eq h
    rw [effect, ← Context.effect_serials _ serials] at hnext
    obtain ⟨target, rfl, htarget, before, comp, condition, behind, hcondition, hpiece⟩ :=
      Context.jump_mem_code hcode hnext
    have hplaced := site.placed
    rw [hpiece] at hplaced
    have hmem : .symbol target ∈ p.code := site.code_mem (by simp [hpiece])
    have htext := horder.jumps target (mem_jumpTargets hplaced.right hcondition)
    obtain ⟨site', hname, s, rest, hstext, hrest⟩ := h.exists_site_of_text hmem htarget htext
    refine ⟨site', ?_, hname⟩
    have hlabel := site'.placed
    rw [hrest] at hlabel
    have hcell : addressOf p.code (.name target.text) = addressOf p.code s :=
      horder.resolves.text hstext.symm
    rw [Next.place, hcell, horder.resolves.label hlabel]

/-! ## Static cells -/

/-- Every static cell in use is a cell of its own, away from the pointers and registers. -/
structure Program.StaticsApart (p : Program) (cell : Symbol → Word) : Prop where
  high : ∀ (site : Site p) index, site.block.UsesStatic index →
    High (cell (.static site.linked.space index))
  inj : ∀ (site₁ site₂ : Site p) i j, site₁.block.UsesStatic i → site₂.block.UsesStatic j →
    cell (.static site₁.linked.space i) = cell (.static site₂.linked.space j) →
      site₁.linked.name = site₂.linked.name ∧ i = j

theorem Program.Reached.staticsApart {options : Options} {p : Program} (h : Reached options p)
    (horder : p.SymbolsInOrder) : p.StaticsApart (addressOf p.code) := by
  have hmem {site : Site p} {index : Word} (huse : site.block.UsesStatic index) :
      .symbol (.static site.linked.space index) ∈ p.code := by
    obtain ⟨serials, _, hcode⟩ := site.code_eq h
    exact site.code_mem (List.mem_of_head? (huse.head? hcode))
  have hfree {site : Site p} {index : Word} :
      (declared p.code).lookup (Symbol.static site.linked.space index).text = none := by
    rw [List.lookup_eq_none_iff]
    intro entry hentry
    rw [bne_iff_ne]
    intro heq
    rcases List.mem_append.mp hentry with hentry | hentry
    · exact (static_text_free site.linked.space index).1 (heq ▸ List.mem_map_of_mem hentry)
    · exact horder.not_static entry.1 (List.mem_map_of_mem hentry) site.linked site.mem_modules
        index heq.symm
  exact {
    high := fun site index huse => le_addressOf horder.small (hmem huse) hfree
    inj := fun site₁ site₂ i j hi hj heq => by
      have htext := addressOf_inj horder.small (hmem hi) hfree (hmem hj) hfree heq
      obtain ⟨hspace, hindex⟩ := Symbol.static_text_inj htext
      exact ⟨h.name_eq site₁.mem_modules site₂.mem_modules hspace, hindex⟩ }

/-! ## The commands of a source -/

/-- The commands on the lines of a module. -/
def Source.commands (source : Source) (name : String) : List Command :=
  match source name with
  | .ok lines => lines.filterMap commandOn?
  | .error _ => []

theorem Program.commands_addAll {p : Program} (h : (p.addAll source names).value = .ok q) :
    q.modules.map (fun m => (m.name, m.commands)) =
      p.modules.map (fun m => (m.name, m.commands)) ++
        names.map fun name => (name, source.commands name) := by
  induction names generalizing p with
  | nil =>
    cases h
    simp
  | cons name names ih =>
    obtain ⟨count, hcount, h⟩ := addAll_cons_eq_ok.mp h
    obtain ⟨lines, hopen, _⟩ := add_eq_ok hcount
    obtain ⟨m, _, hmodules, rfl, hcommands, _⟩ := exists_module_of_add hopen hcount
    have hsource : source.commands m.name = m.commands := by rw [Source.commands, hopen, hcommands]
    rw [ih h, hmodules]
    simp [hsource]

/-! ## Whole programs -/

/-- A linked program has the commands on the lines of its modules. If its symbols are in order,
every one of them does on the machine what it means: from the place of the command the machine gets
to where control goes after it, with the memory of its effect, the scratch cells aside. -/
theorem link_simulates {source : Source} {options : Options} {names : List String} {p : Program}
    (hlink : ((Program.empty options).addAll source names).value = .ok p)
    (horder : p.SymbolsInOrder) :
    (link source options names).value = .ok p.lines ∧
      p.modules.map (fun m => (m.name, m.commands)) =
        names.map (fun name => (name, source.commands name)) ∧
      readStatements? p.lines = some (p.code.map Statement.bare) ∧
      ∃ instructions, load? p.lines = some instructions ∧ Fixed (addressOf p.code) ∧
        p.StaticsApart (addressOf p.code) ∧
        ∀ (site : Site p) (m : Machine), m.pc = site.start →
          InRange (site.command.cells m.ram) →
          ∃ m', Reaches instructions m m' ∧
            site.Continues (site.effect (addressOf p.code) m.ram).2 m'.pc ∧
            m'.ram.AgreeOff [13, 14, 15] (site.effect (addressOf p.code) m.ram).1 := by
  have hreached := (.empty : Program.Reached options _).addAll hlink
  have hload := hreached.load?_lines.trans horder.assembles
  refine ⟨link_value hlink, Program.commands_addAll hlink, hreached.readStatements?_lines, _, hload,
    fixed_addressOf _, hreached.staticsApart horder, ?_⟩
  intro site m hpc hrange
  obtain ⟨serials, _, hcode⟩ := site.code_eq hreached
  have hplaced := site.placed
  rw [← hpc] at hplaced
  obtain ⟨m', hreaches, hm'pc, hm'ram⟩ := command_arrives horder.resolves hcode hplaced hrange
  rw [Context.effect_serials, hpc] at hm'pc hm'ram
  refine ⟨m', hreaches, ?_, hm'ram⟩
  rw [hm'pc]
  exact site.continues hreached horder m.ram

/-! ## A loop in a function -/

def loopSource : Source :=
  .ofMemory [("Main", "function f 0\nlabel LOOP\npush argument 1\nif-goto LOOP\nreturn")]

def loopBlocks : List Block :=
  [⟨"function f 0", .function "f" 0, Expansion.function "f" 0⟩,
    ⟨"label LOOP", .label "LOOP", Expansion.label (.within "f" "LOOP")⟩,
    ⟨"push argument 1", .push .argument 1, Expansion.fetch (.based .arg 1) ++ Expansion.pushD⟩,
    ⟨"if-goto LOOP", .ifGoto "LOOP", Expansion.ifGoto (.within "f" "LOOP")⟩,
    ⟨"return", .ret, Expansion.ret⟩]

def loopProgram : Program where
  options := { scope := .function }
  serials := {}
  modules := [⟨"Main", loopBlocks⟩]

def loopSite (earlier : List Block) (block : Block) (later : List Block)
    (h : loopBlocks = earlier ++ block :: later) : Site loopProgram where
  front := []
  linked := ⟨"Main", loopBlocks⟩
  rear := []
  modules_eq := rfl
  earlier := earlier
  block := block
  later := later
  blocks_eq := h

theorem loopProgram_linked :
    ((Program.empty loopProgram.options).addAll loopSource ["Main"]).value = .ok loopProgram := by
  rfl

theorem loopProgram_symbolsInOrder : loopProgram.SymbolsInOrder where
  once := by decide
  jumps := by decide
  not_predefined := by decide
  not_static text htext m _ index heq := by
    have hdot : ∀ text ∈ declaredTexts loopProgram.code, '.' ∉ text.toList := by decide
    exact hdot text htext (heq ▸ Symbol.dot_mem_static m.space index)
  small := by decide

/-- All pointers of the function are different. -/
def loopRam : Ram :=
  .startingWith [400, 350, 300, 3000, 4000]

/-- The argument is found at `ARG`, the jump goes to the label of the function, and the return
brings back what stands below `LCL`. -/
theorem link_simulates_loop :
    ((Program.empty loopProgram.options).addAll loopSource ["Main"]).value = .ok loopProgram ∧
      loopProgram.SymbolsInOrder ∧
      ∃ instructions m₁ m₂ m₃, load? loopProgram.lines = some instructions ∧
        Reaches instructions ⟨loopRam, 0, 0, 0⟩ m₁ ∧ m₁.pc = 9 ∧
        m₁.ram.AgreeOff [13, 14, 15] ((loopRam.set 0 401).set 400 301) ∧
        Reaches instructions ⟨loopRam, 0, 0, 9⟩ m₂ ∧
        (loopSite [_, _, _] _ _ rfl).Continues (.label "f$LOOP") m₂.pc ∧
        m₂.ram.AgreeOff [13, 14, 15] (loopRam.set 0 399) ∧
        Reaches instructions ⟨loopRam, 0, 0, 14⟩ m₃ ∧ m₃.pc = 345 ∧
        [0, 1, 2, 3, 4, 300].map m₃.ram = [301, 346, 347, 348, 349, 399] := by
  obtain ⟨_, _, _, instructions, hload, _, _, hsites⟩ :=
    link_simulates loopProgram_linked loopProgram_symbolsInOrder
  obtain ⟨m₁, hreaches₁, hpc₁, hram₁⟩ :=
    hsites (loopSite [_, _] _ _ rfl) ⟨loopRam, 0, 0, 0⟩ rfl (by decide)
  obtain ⟨m₂, hreaches₂, hpc₂, hram₂⟩ :=
    hsites (loopSite [_, _, _] _ _ rfl) ⟨loopRam, 0, 0, 9⟩ rfl (by decide)
  obtain ⟨m₃, hreaches₃, hpc₃, hram₃⟩ :=
    hsites (loopSite [_, _, _, _] _ _ rfl) ⟨loopRam, 0, 0, 14⟩ rfl (by decide)
  refine ⟨loopProgram_linked, loopProgram_symbolsInOrder, instructions, m₁, m₂, m₃, hload,
    hreaches₁, hpc₁, hram₁, hreaches₂, hpc₂, hram₂, hreaches₃, hpc₃, ?_⟩
  have hwords : [0, 1, 2, 3, 4, 300].map m₃.ram = [0, 1, 2, 3, 4, 300].map loopRam.leave :=
    List.map_congr_left fun x hx => hram₃ x (by fin_cases hx <;> decide)
  rw [hwords]
  decide

end HackVM
