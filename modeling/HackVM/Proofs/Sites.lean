import HackVM.Proofs.Addresses
import HackVM.Proofs.Loading

/-! The places of commands in a program.

A site is one command of one module with what stands before and behind it. The code of the command
is placed where the statements before it end (`Site.placed`), it is expanded in the context that the
module so far leads to (`Site.code_eq`), and every authored label of a program stands at the
beginning of a site (`Reached.exists_site`). -/

namespace HackVM

/-- One command of a program. -/
structure Site (p : Program) where
  front : List LinkedModule
  linked : LinkedModule
  rear : List LinkedModule
  modules_eq : p.modules = front ++ linked :: rear
  earlier : List Block
  block : Block
  later : List Block
  blocks_eq : linked.blocks = earlier ++ block :: later

namespace Site
variable {options : Options} {p : Program}

abbrev command (site : Site p) : Command :=
  site.block.command

/-- The statements before a command. -/
def before (site : Site p) : List Statement :=
  (if p.options.bootstrap then Expansion.bootstrap 0 else []) ++
    (site.front.flatMap fun m => m.blocks.flatMap Block.code) ++ site.earlier.flatMap Block.code

/-- The place of the first instruction of a command. -/
def start (site : Site p) : Nat :=
  size site.before

/-- The place behind a command. -/
def stop (site : Site p) : Nat :=
  site.start + size site.block.code

/-- What the meaning of a command depends on: its module, and the function it stands in. -/
def context (site : Site p) : Context where
  space := site.linked.space
  scope := p.options.scope
  function? := enclosing? site.earlier

theorem mem_modules (site : Site p) : site.linked ∈ p.modules := by
  rw [site.modules_eq]
  simp

theorem placed (site : Site p) : Placed p.code site.block.code site.start := by
  refine ⟨site.before, site.later.flatMap Block.code ++
    site.rear.flatMap fun m => m.blocks.flatMap Block.code, ?_, rfl⟩
  simp [Program.code, before, site.modules_eq, site.blocks_eq]

theorem code_eq (h : Program.Reached options p) (site : Site p) :
    ∃ serials, Command.read site.block.text = .ok site.command ∧
      ({ site.context with serials := serials } : Context).code site.command =
        .ok site.block.code := by
  obtain ⟨_, ctx, hlisted, hread, hcode⟩ := h.split site.mem_modules site.blocks_eq
  have hctx : ctx = { site.context with serials := ctx.serials } := by
    have hspace := hlisted.space_eq
    have hscope := hlisted.scope_eq
    have hfunction := hlisted.function?_eq
    rw [Option.or_none] at hfunction
    obtain ⟨space, scope, function?, serials⟩ := ctx
    simp only at hspace hscope hfunction
    rw [hspace, hscope, hfunction, context, h.options_eq]
  rw [hctx] at hcode
  exact ⟨ctx.serials, hread, hcode⟩

theorem code_mem (site : Site p) (hs : s ∈ site.block.code) : s ∈ p.code := by
  obtain ⟨before, behind, hcode, _⟩ := site.placed
  rw [hcode]
  simp [hs]

end Site

theorem exists_site_of_block {p : Program} {m : LinkedModule} (hm : m ∈ p.modules)
    (hblock : block ∈ m.blocks) : ∃ site : Site p, site.linked = m ∧ site.block = block := by
  obtain ⟨front, rear, hmodules⟩ := List.append_of_mem hm
  obtain ⟨earlier, later, hblocks⟩ := List.append_of_mem hblock
  exact ⟨⟨front, m, rear, hmodules, earlier, block, later, hblocks⟩, rfl, rfl⟩

/-- The instructions that the lines of a program are loaded as. -/
theorem Program.Reached.resolves_of_load {options : Options} {p : Program} (h : Reached options p)
    (hload : load? p.lines = some instructions) :
    Resolves p.code (addressOf p.code) ∧ instructions = resolve (addressOf p.code) p.code := by
  rw [h.load?_lines] at hload
  obtain ⟨hnodup, hsize, hinstructions⟩ := assemble?_eq_some.mp hload
  exact ⟨resolves_addressOf hnodup hsize, hinstructions⟩

/-! ## Authored labels -/

/-- The symbol of its author that a command declares. -/
def Command.declares? (ctx : Context) : Command → Option Symbol
  | .label name => some (ctx.label name)
  | .function name _ => some (.name name)
  | _ => none

theorem Command.placeName?_of_declares? {ctx : Context} {command : Command}
    (h : command.declares? ctx = some s) : command.placeName? ctx = some s.text := by
  cases command with
  | label name =>
    cases h
    exact congrArg some (ctx.text_label name).symm
  | function name locals =>
    cases h
    rfl
  | _ => cases h

/-- A label in the code of a command is generated, or is the command's own and comes first. -/
theorem Context.label_mem_code {ctx : Context} {command : Command} {code : List Statement}
    (h : ctx.code command = .ok code) (hmem : .label s ∈ code) :
    (∃ kind n, s = .generated kind n) ∨
      (command.declares? ctx = some s ∧ ∃ rest, code = .label s :: rest) := by
  generalize hs : Statement.label s = statement at hmem
  cases emits_of_mem h statement hmem with
  | declaration =>
    cases hs
    exact .inl ⟨_, _, rfl⟩
  | label | function =>
    cases hs
    cases h
    exact .inr ⟨rfl, _, rfl⟩
  | _ => cases hs

theorem Program.Reached.exists_site {options : Options} {p : Program} (h : Reached options p)
    (hmem : .label s ∈ p.code) (hs : ∀ kind n, s ≠ .generated kind n) :
    ∃ site : Site p, site.command.declares? site.context = some s ∧
      ∃ rest, site.block.code = .label s :: rest := by
  rcases List.mem_append.mp hmem with hmem | hmem
  · split at hmem
    · simp [Expansion.bootstrap, Expansion.call, Expansion.pushD, Expansion.savedPointers] at hmem
      exact absurd hmem (hs _ _)
    · cases hmem
  · obtain ⟨m, hm, hmem⟩ := List.mem_flatMap.mp hmem
    obtain ⟨block, hblock, hmem⟩ := List.mem_flatMap.mp hmem
    obtain ⟨site, _, rfl⟩ := exists_site_of_block hm hblock
    obtain ⟨serials, _, hcode⟩ := site.code_eq h
    rcases Context.label_mem_code hcode hmem with ⟨kind, n, he⟩ | ⟨hdeclares, hrest⟩
    · exact absurd he (hs kind n)
    · refine ⟨site, ?_, hrest⟩
      rw [← hdeclares]
      cases site.command <;> rfl

end HackVM
