import HackVM.Machine.Assembler
import HackVM.Proofs.History

/-! The static cells of different modules stay apart.

In every program that attempts to add modules lead to, a namespace belongs to the modules of one
name (`Reached.name_eq`). As the text of a static cell determines its namespace and index, two
modules name the same cell only if they are the same module (`static_symbol_eq_iff`). -/

namespace HackVM

/-- The block gets at the cell of the segment `static` with the given index. -/
def Block.UsesStatic (block : Block) (index : Word) : Prop :=
  block.command = .push .static index ∨ block.command = .pop .static index

namespace Program

/-- A namespace in use has an owner. -/
theorem exists_owner {p : Program} {m : LinkedModule} (hm : m ∈ p.modules) :
    ∃ owner ∈ p.modules, owner.space = m.space ∧ p.owner? m.space = some owner.name := by
  cases hfind : p.modules.find? (·.space == m.space) with
  | none =>
    have := List.find?_eq_none.mp hfind m hm
    simp at this
  | some owner =>
    have hspace : owner.space = m.space := by simpa using List.find?_some hfind
    refine ⟨owner, List.mem_of_find?_eq_some hfind, hspace, ?_⟩
    rw [owner?, hfind]
    rfl

namespace Reached
variable {options : Options} {p : Program}

theorem name_eq (h : Reached options p) {m₁ m₂ : LinkedModule} (h₁ : m₁ ∈ p.modules)
    (h₂ : m₂ ∈ p.modules) (hspace : m₁.space = m₂.space) : m₁.name = m₂.name := by
  induction h generalizing m₁ m₂ with
  | empty => cases h₁
  | skip _ _ ih => exact ih h₁ h₂ hspace
  | @add p name blocks _ _ howner _ ih =>
    -- a module of the program in the new module's namespace carries the name of the owner
    have hnew {m : LinkedModule} (hm : m ∈ p.modules) (hspace : m.space = namespaceOf name) :
        m.name = name := by
      obtain ⟨owner, hmem, howned, hname⟩ := exists_owner hm
      rw [hspace] at hname
      rw [ih hm hmem howned.symm, howner owner.name hname]
    rcases List.mem_append.mp h₁ with h₁ | h₁ <;> rcases List.mem_append.mp h₂ with h₂ | h₂
    · exact ih h₁ h₂ hspace
    · cases List.mem_singleton.mp h₂
      exact hnew h₁ hspace
    · cases List.mem_singleton.mp h₁
      exact (hnew h₂ hspace.symm).symm
    · cases List.mem_singleton.mp h₁
      cases List.mem_singleton.mp h₂
      rfl

end Reached

end Program

/-- The code begins by loading the address of the cell. -/
theorem Block.UsesStatic.head? {block : Block} {ctx : Context} (h : block.UsesStatic index)
    (hcode : ctx.code block.command = .ok block.code) :
    block.code.head? = some (.symbol (.static ctx.space index)) := by
  rcases h with h | h
  · rw [h, Context.code] at hcode
    rw [(push_eq_ok hcode).2]
    rfl
  · rw [h, Context.code] at hcode
    obtain ⟨address, haddress, _, hpop⟩ := pop_eq_ok hcode
    cases haddress
    rw [hpop]
    rfl

/-- The line behind the comment of the block names the cell. -/
theorem Program.Reached.static_line {options : Options} {p : Program} (h : Reached options p)
    {m : LinkedModule} (hm : m ∈ p.modules) {block : Block} (hblock : block ∈ m.blocks)
    (huse : block.UsesStatic index) :
    block.lines[1]? = some ("@" ++ (Symbol.static m.space index).text) := by
  obtain ⟨ctx, hspace, hcode⟩ := h.block_code hm hblock
  rw [Block.lines, List.getElem?_cons_succ, ← List.head?_eq_getElem?, List.head?_map,
    huse.head? hcode, hspace]
  rfl

/-- A static cell is no predefined cell and no generated label. -/
theorem static_text_free (space : String) (index : Word) :
    (Symbol.static space index).text ∉ predefined.map Prod.fst ∧
      ∀ kind serial, (Symbol.static space index).text ≠ (Symbol.generated kind serial).text := by
  have hdot := Symbol.dot_mem_static space index
  constructor
  · have hnodot : ∀ text ∈ predefined.map Prod.fst, '.' ∉ text.toList := by decide
    exact fun hmem => hnodot _ hmem hdot
  · intro kind serial heq
    exact Symbol.dot_notMem_generated kind serial (heq ▸ hdot)

/-- Whatever modules have been added, failed or repeated: two static cells of a program are the same
symbol exactly if they are the same cell of the same module, and this symbol is neither predefined
nor a generated label. -/
theorem static_symbol_eq_iff (options : Options) (attempts : List (Source × String))
    {m₁ m₂ : LinkedModule} (hm₁ : m₁ ∈ ((Program.empty options).addEach attempts).modules)
    (hm₂ : m₂ ∈ ((Program.empty options).addEach attempts).modules)
    {block₁ block₂ : Block} (hblock₁ : block₁ ∈ m₁.blocks) (hblock₂ : block₂ ∈ m₂.blocks)
    (huse₁ : block₁.UsesStatic i) (huse₂ : block₂.UsesStatic j) :
    ∃ cell₁ cell₂ : String, block₁.lines[1]? = some ("@" ++ cell₁) ∧
      block₂.lines[1]? = some ("@" ++ cell₂) ∧
      (cell₁ = cell₂ ↔ m₁.name = m₂.name ∧ i = j) ∧
      ∀ cell ∈ [cell₁, cell₂], cell ∉ predefined.map Prod.fst ∧
        ∀ kind serial, cell ≠ (Symbol.generated kind serial).text := by
  have hreached := (.empty : Program.Reached options _).addEach attempts
  refine ⟨_, _, hreached.static_line hm₁ hblock₁ huse₁, hreached.static_line hm₂ hblock₂ huse₂,
    ⟨fun heq => ?_, fun heq => ?_⟩, fun cell hcell => ?_⟩
  · obtain ⟨hspace, hindex⟩ := Symbol.static_text_inj heq
    exact ⟨hreached.name_eq hm₁ hm₂ hspace, hindex⟩
  · rw [LinkedModule.space, LinkedModule.space, heq.1, heq.2]
  · rcases List.mem_cons.mp hcell with rfl | hcell
    · exact static_text_free _ _
    · cases List.mem_singleton.mp hcell
      exact static_text_free _ _

/-! ## Names that run into each other -/

/-- Five attempts: the second fails on its index, and the fourth finds its namespace taken. -/
def dottedModules : List (Source × String) :=
  [("A", "push static 0"), ("A.0", "push static 32768"), ("A 0", "push static 1"),
    ("A_0", "push static 0"), ("A.0", "push static 1")].map
    fun (name, text) => (.ofMemory [(name, text)], name)

def pushStaticBlock (space : String) (index : Word) : Block where
  text := Text.unwords ["push", "static", index.text]
  command := .push .static index
  code := Expansion.fetch (.direct (.static space index)) ++ Expansion.pushD

theorem modules_dotted : ((Program.empty {}).addEach dottedModules).modules =
    [⟨"A", [pushStaticBlock "A" 0]⟩, ⟨"A 0", [pushStaticBlock "A_0" 1]⟩,
      ⟨"A.0", [pushStaticBlock "A.0" 1]⟩] := by
  decide +kernel

theorem static_symbol_dotted :
    ⟨"A", [pushStaticBlock "A" 0]⟩ ∈ ((Program.empty {}).addEach dottedModules).modules ∧
      ⟨"A.0", [pushStaticBlock "A.0" 1]⟩ ∈ ((Program.empty {}).addEach dottedModules).modules ∧
      ∃ cell₁ cell₂ : String, (pushStaticBlock "A" 0).lines[1]? = some ("@" ++ cell₁) ∧
        (pushStaticBlock "A.0" 1).lines[1]? = some ("@" ++ cell₂) ∧
        (cell₁ = cell₂ ↔ "A" = "A.0" ∧ (0 : Word) = 1) ∧
        ∀ cell ∈ [cell₁, cell₂], cell ∉ predefined.map Prod.fst ∧
          ∀ kind serial, cell ≠ (Symbol.generated kind serial).text := by
  have h₁ : ⟨"A", [pushStaticBlock "A" 0]⟩ ∈
      ((Program.empty {}).addEach dottedModules).modules := by
    simp [modules_dotted]
  have h₂ : ⟨"A.0", [pushStaticBlock "A.0" 1]⟩ ∈
      ((Program.empty {}).addEach dottedModules).modules := by
    simp [modules_dotted]
  exact ⟨h₁, h₂, static_symbol_eq_iff {} dottedModules h₁ h₂ (List.mem_singleton_self _)
    (List.mem_singleton_self _) (.inl rfl) (.inl rfl)⟩

end HackVM
