import HackVM.Proofs.Sites
import HackVM.Proofs.StaticCells

/-! What the names of authors can be taken for.

The code of commands refers to symbols that no author has declared: the cells of the pointers and
registers, the static cells of modules, and generated labels (`Program.Own`). A declaration is never
taken for a generated label, but the names of cells are not kept from authors. It is taken for a
cell exactly if its name spells the cell's symbol, together with the name of the function that
qualifies it (`declared_symbol_capture_iff`). -/

namespace HackVM

/-- The cells that the code of commands gets at by symbols that are the same in all programs. -/
def fixedCells : List Symbol :=
  [.pointer .sp, .pointer .lcl, .pointer .arg, .pointer .this, .pointer .that] ++
    (List.range' 5 11).map .register

/-- The symbols that the code of commands refers to of its own accord. -/
inductive Program.Own (p : Program) : String → Prop
  | cell : cell ∈ fixedCells → p.Own cell.text
  | static : m ∈ p.modules → block ∈ m.blocks → block.UsesStatic index →
      p.Own (Symbol.static m.space index).text
  | generated : p.Own (Symbol.generated kind serial).text

/-- The name that a command declares as its author wrote it. -/
def Command.declaredName? : Command → Option String
  | .label name | .function name _ => some name
  | _ => none

namespace Site
variable {p : Program}

/-- A line of the command declares the symbol. -/
def Declares (site : Site p) (symbol : String) : Prop :=
  "(" ++ symbol ++ ")" ∈ site.block.lines

/-- The function whose name stands before that of a label. -/
def qualifier? (site : Site p) : Option String :=
  match site.command, p.options.scope with
  | .label _, .function => enclosing? site.earlier
  | _, _ => none

end Site

/-- The declarations of authors are not taken for symbols that code refers to of its own accord. -/
def Program.Uncaptured (p : Program) : Prop :=
  ∀ (site : Site p) (name symbol : String), site.command.declaredName? = some name →
    site.Declares symbol → ¬ p.Own symbol

/-! ## Declarations in the lines -/

/-- The code of a command that declares a symbol has this one label. -/
theorem Context.label_mem_code_iff {ctx : Context} {command : Command} {code : List Statement}
    (hs : command.declares? ctx = some s) (hcode : ctx.code command = .ok code) :
    .label t ∈ code ↔ t = s := by
  cases command with
  | label name =>
    cases hs
    cases hcode
    simp [Expansion.label]
  | function name locals =>
    cases hs
    cases hcode
    simp [Expansion.function]
  | _ => cases hs

namespace Site
variable {options : Options} {p : Program}

theorem label_mem_code_iff (h : Program.Reached options p) (site : Site p)
    (hs : site.command.declares? site.context = some s) : .label t ∈ site.block.code ↔ t = s := by
  obtain ⟨serials, _, hcode⟩ := site.code_eq h
  refine Context.label_mem_code_iff ?_ hcode
  rw [← hs]
  cases site.command <;> rfl

theorem declares_iff (h : Program.Reached options p) (site : Site p)
    (hs : site.command.declares? site.context = some s) : site.Declares u ↔ u = s.text := by
  rw [Declares, Block.lines, List.mem_cons, List.mem_map]
  constructor
  · rintro (hcomment | ⟨statement, hmem, htext⟩)
    · exact absurd hcomment.symm (commentLine_ne_label _ _)
    · obtain ⟨t, rfl, rfl⟩ := Statement.text_eq_label.mp htext
      rw [(site.label_mem_code_iff h hs).mp hmem]
  · rintro rfl
    exact .inr ⟨.label s, (site.label_mem_code_iff h hs).mpr rfl, rfl⟩

/-- The dollar sign at the beginning is kept for generated labels. -/
theorem declared_ne_generated (h : Program.Reached options p) (site : Site p)
    (hs : site.command.declares? site.context = some s) (hne : s ≠ .generated kind serial) :
    s.text ≠ (Symbol.generated kind serial).text := by
  have hmem : .label s ∈ site.block.code := (site.label_mem_code_iff h hs).mpr rfl
  have hwell : s.WellFormed := h.wellFormed _ (site.code_mem hmem)
  exact fun htext => hne ((Symbol.text_eq_generated hwell).mp htext)

/-- A declared symbol is the name, or the name qualified by a function. -/
theorem declares?_cases (site : Site p) (hname : site.command.declaredName? = some name) :
    (site.qualifier? = none ∧ site.command.declares? site.context = some (.name name)) ∨
      ∃ function, site.qualifier? = some function ∧
        site.command.declares? site.context = some (.within function name) := by
  rw [qualifier?]
  cases hcommand : site.command with
  | label name' =>
    rw [hcommand] at hname
    cases hname
    cases hscope : p.options.scope <;> cases henclosing : enclosing? site.earlier <;>
      simp [Command.declares?, Context.label, context, hscope, henclosing]
  | function name' locals =>
    rw [hcommand] at hname
    cases hname
    exact .inl ⟨rfl, rfl⟩
  | _ =>
    rw [hcommand] at hname
    cases hname

end Site

/-! ## Texts of declared symbols -/

namespace Symbol

theorem within_text_ne_fixedCell {cell : Symbol} (h : cell ∈ fixedCells) :
    (within function label).text ≠ cell.text := by
  have hnodollar : ∀ cell ∈ fixedCells, '$' ∉ cell.text.toList := by decide
  intro heq
  apply hnodollar cell h
  rw [← heq]
  simp [text]

/-- A qualified label is a static cell if the namespace reaches into the label. -/
theorem within_text_eq_static : (within function label).text = (static space index).text ↔
    ∃ stem, space = function ++ "$" ++ stem ∧ label = stem ++ "." ++ index.text := by
  constructor
  · intro h
    have hchars : function.toList ++ '$' :: label.toList =
        space.toList ++ '.' :: index.text.toList := by
      rw [← toList_static, ← h]
      simp [text]
    -- the dollar sign is left of the dot, as there is none in a number
    rcases List.append_eq_append_iff.mp hchars with ⟨as, hspace, hlabel⟩ | ⟨as, _, hindex⟩
    · cases as with
      | nil => cases hlabel
      | cons a as =>
        rw [List.cons_append, List.cons.injEq] at hlabel
        obtain ⟨rfl, hlabel⟩ := hlabel
        refine ⟨String.ofList as, ?_, ?_⟩ <;> apply String.toList_inj.mp
        · simp [hspace]
        · simp [hlabel]
    · have hdollar : '$' ∈ '.' :: index.text.toList := by simp [hindex]
      rcases List.mem_cons.mp hdollar with hdollar | hdollar
      · cases hdollar
      · exact absurd (Decimal.isDigit_of_mem hdollar) (by decide)
  · rintro ⟨stem, rfl, rfl⟩
    simp [text, String.append_assoc]

end Symbol

/-! ## Captures -/

/-- The names of cells are not kept from authors. -/
def stackPointerLabel : Program where
  options := {}
  serials := {}
  modules := [⟨"Main", [⟨"label SP", .label "SP", Expansion.label (.name "SP")⟩]⟩]

theorem label_captures_stack_pointer :
    ((Program.empty {}).addAll (.ofMemory [("Main", "label SP")]) ["Main"]).value =
        .ok stackPointerLabel ∧
      stackPointerLabel.lines = ["// label SP", "(SP)"] ∧ ¬ stackPointerLabel.Uncaptured := by
  refine ⟨by decide +kernel, by decide, fun huncaptured => ?_⟩
  let site : Site stackPointerLabel := ⟨[], _, [], rfl, [], _, [], rfl⟩
  have hdeclares : site.Declares "SP" := List.mem_cons_of_mem _ List.mem_cons_self
  have hcell : Symbol.pointer .sp ∈ fixedCells := by decide
  exact huncaptured site "SP" "SP" rfl hdeclares (.cell hcell)

/-- A `label` or `function` command declares one symbol. It is no generated label; it is a pointer
or a register exactly if it is not qualified and spelled like that; and it is a static cell exactly
if it is spelled like that, the qualifier included. -/
theorem declared_symbol_capture_iff {source : Source} {options : Options} {names : List String}
    {p : Program} (h : ((Program.empty options).addAll source names).value = .ok p)
    (site : Site p) (hname : site.command.declaredName? = some name) :
    ∃ symbol : String, (∀ s, site.Declares s ↔ s = symbol) ∧
      (∀ kind serial, symbol ≠ (Symbol.generated kind serial).text) ∧
      (∀ cell ∈ fixedCells, symbol = cell.text ↔ site.qualifier? = none ∧ name = cell.text) ∧
      ∀ (space : String) (index : Word), symbol = (Symbol.static space index).text ↔
        (site.qualifier? = none ∧ name = space ++ "." ++ index.text) ∨
        ∃ function stem, site.qualifier? = some function ∧ space = function ++ "$" ++ stem ∧
          name = stem ++ "." ++ index.text := by
  have hreached := Program.Reached.empty.addAll h
  rcases site.declares?_cases hname with ⟨hqualifier, hs⟩ | ⟨function, hqualifier, hs⟩
  · refine ⟨name, fun s => site.declares_iff hreached hs, fun kind serial => ?_, ?_, ?_⟩
    · exact site.declared_ne_generated hreached hs fun heq => by cases heq
    · simp [hqualifier]
    · simp [hqualifier, Symbol.text]
  · refine ⟨_, fun s => site.declares_iff hreached hs, fun kind serial => ?_, ?_, ?_⟩
    · exact site.declared_ne_generated hreached hs fun heq => by cases heq
    · intro cell hcell
      exact iff_of_false (Symbol.within_text_ne_fixedCell hcell) (by simp [hqualifier])
    · intro space index
      rw [Symbol.within_text_eq_static]
      simp [hqualifier]

/-- A qualified label that spells a static cell of its module. -/
def dollarNamespace : Program where
  options := { scope := .function }
  serials := {}
  modules := [⟨"f$x",
    [⟨"function f 0", .function "f" 0, Expansion.function "f" 0⟩,
      ⟨"label x.3", .label "x.3", Expansion.label (.within "f" "x.3")⟩,
      pushStaticBlock "f$x" 3]⟩]

theorem declared_symbol_dollar_namespace :
    ((Program.empty { scope := .function }).addAll
        (.ofMemory [("f$x", "function f 0\nlabel x.3\npush static 3")]) ["f$x"]).value =
      .ok dollarNamespace ∧
    ∃ site : Site dollarNamespace, site.command.declaredName? = some "x.3" ∧
      site.qualifier? = some "f" ∧ site.Declares (Symbol.static "f$x" 3).text ∧
      dollarNamespace.Own (Symbol.static "f$x" 3).text := by
  have hlink : ((Program.empty { scope := .function }).addAll
      (.ofMemory [("f$x", "function f 0\nlabel x.3\npush static 3")]) ["f$x"]).value =
        .ok dollarNamespace := by
    decide +kernel
  let site : Site dollarNamespace := ⟨[], _, [], rfl, [_], _, [_], rfl⟩
  obtain ⟨symbol, hdeclares, _, _, hstatic⟩ := declared_symbol_capture_iff hlink site rfl
  have hspelled : symbol = (Symbol.static "f$x" 3).text :=
    (hstatic "f$x" 3).mpr (.inr ⟨"f", "x", rfl, by decide, by decide⟩)
  have hspace : site.linked.space = "f$x" := by decide
  have hblock : pushStaticBlock "f$x" 3 ∈ site.linked.blocks := by simp [site]
  have huses : (pushStaticBlock "f$x" 3).UsesStatic 3 := .inl rfl
  have hown := Program.Own.static site.mem_modules hblock huses
  rw [hspace] at hown
  exact ⟨hlink, site, rfl, rfl, (hdeclares _).mpr hspelled.symm, hown⟩

end HackVM
