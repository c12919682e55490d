import Mathlib.Data.List.Nodup
import HackVM.Proofs.GeneratedLabels
import HackVM.Proofs.LineFaults
import HackVM.Proofs.LinkOrder

/-! Labels that are scoped by functions.

Inside a function the symbol of a label is its name behind that of the function and a dollar sign.
Names may have dollar signs themselves, so that the symbol does not always tell where the function
ends. The declarations of a module that come to one symbol are the same or overlap in one of four
ways (`Declaration.symbol_eq_iff`), and the label lines and jumps of a module follow from that
(`function_scope_keeps_apart`). -/

namespace HackVM

/-! ## Declarations -/

/-- What an author declares: a function, or a label with the function it stands in. -/
inductive Declaration where
  | function (name : String)
  | label (function? : Option String) (name : String)
  deriving DecidableEq

namespace Declaration

def symbol : Declaration → String
  | .function name => name
  | .label function? name => LabelScope.function.qualify function? name

/-- The line that declares the symbol. -/
def line (d : Declaration) : String :=
  "(" ++ d.symbol ++ ")"

/-- The line that loads the place of the symbol. -/
def reference (d : Declaration) : String :=
  "@" ++ d.symbol

/-- The ways in which different declarations come to one symbol. -/
inductive Overlaps : Declaration → Declaration → Prop
  | bare : Overlaps (.label none name) (.function name)
  | entry : Overlaps (.label (some f) name) (.function (f ++ "$" ++ name))
  | outside : Overlaps (.label (some f) name) (.label none (f ++ "$" ++ name))
  | nested : Overlaps (.label (some (f ++ "$" ++ stem)) name)
      (.label (some f) (stem ++ "$" ++ name))

def Clash (d e : Declaration) : Prop :=
  d.Overlaps e ∨ e.Overlaps d

theorem Overlaps.symbol_eq (h : Overlaps d e) : d.symbol = e.symbol := by
  cases h <;> simp [symbol, LabelScope.qualify, String.append_assoc]

theorem Overlaps.ne (h : Overlaps d e) : d ≠ e := by
  cases h with
  | nested =>
    intro heq
    injection heq with hfunction _
    simp [String.append_assoc] at hfunction
  | _ => simp

theorem Clash.ne {d e : Declaration} (h : d.Clash e) : d ≠ e :=
  h.elim Overlaps.ne fun h => h.ne.symm

/-- Of two functions whose labels have one symbol, the longer name reaches into the label of the
other function. -/
theorem overlaps_of_split {f g a b : String} {cs : List Char} (hg : g.toList = f.toList ++ cs)
    (ha : '$' :: a.toList = cs ++ '$' :: b.toList) :
    label (some g) b = label (some f) a ∨ Overlaps (label (some g) b) (label (some f) a) := by
  cases cs with
  | nil =>
    have hfunction : g = f := String.toList_inj.mp (by simpa using hg)
    have hname : a = b := String.toList_inj.mp (by simpa using ha)
    rw [hfunction, hname]
    exact .inl rfl
  | cons c cs =>
    -- the longer name goes on with the dollar sign behind the shorter one
    rw [List.cons_append, List.cons.injEq] at ha
    obtain ⟨rfl, ha⟩ := ha
    have hfunction : g = f ++ "$" ++ String.ofList cs := String.toList_inj.mp (by simp [hg])
    have hname : a = String.ofList cs ++ "$" ++ b := String.toList_inj.mp (by simp [ha])
    rw [hfunction, hname]
    exact .inr .nested

/-- Declarations come to one symbol if they are the same, or else clash. -/
theorem symbol_eq_iff {d e : Declaration} : d.symbol = e.symbol ↔ d = e ∨ d.Clash e := by
  constructor
  · intro h
    match d, e with
    | .function f, .function g => exact .inl (congrArg function h)
    | .function f, .label none b => cases h; exact .inr (.inr .bare)
    | .function f, .label (some g) b => cases h; exact .inr (.inr .entry)
    | .label none a, .function g => cases h; exact .inr (.inl .bare)
    | .label none a, .label none b => exact .inl (congrArg (label none) h)
    | .label none a, .label (some g) b => cases h; exact .inr (.inr .outside)
    | .label (some f) a, .function g => cases h; exact .inr (.inl .entry)
    | .label (some f) a, .label none b => cases h; exact .inr (.inl .outside)
    | .label (some f) a, .label (some g) b =>
      have hchars : f.toList ++ '$' :: a.toList = g.toList ++ '$' :: b.toList := by
        simpa [symbol, LabelScope.qualify] using congrArg String.toList h
      -- the names of the functions begin alike, so that one of them is a part of the other
      rcases List.append_eq_append_iff.mp hchars with ⟨cs, hg, ha⟩ | ⟨cs, hf, hb⟩
      · exact (overlaps_of_split hg ha).imp Eq.symm .inr
      · exact (overlaps_of_split hf hb).imp id .inl
  · rintro (rfl | h | h)
    · rfl
    · exact h.symbol_eq
    · exact h.symbol_eq.symm

/-- The dollar sign before a label keeps functions apart that have labels of one name. -/
theorem not_clash_same_name : ¬ Clash (.label (some f) name) (.label (some g) name) := by
  intro hclash
  have hsymbol : f ++ "$" ++ name = g ++ "$" ++ name := symbol_eq_iff.mpr (.inr hclash)
  rw [String.append_assoc, String.append_assoc, String.append_left_inj] at hsymbol
  exact hclash.ne (by rw [hsymbol])

end Declaration

/-! ## Scopes -/

/-- Commands, each with the function that it stands in. -/
def inScopes (function? : Option String) : List Command → List (Option String × Command)
  | [] => []
  | command :: commands =>
    (function?, command) :: inScopes (command.opens?.or function?) commands

namespace Command

/-- The command goes to a label. -/
def isJump : Command → Bool
  | .goto _ | .ifGoto _ => true
  | _ => false

def declaration? (function? : Option String) : Command → Option Declaration
  | .label name => some (.label function? name)
  | .function name _ => some (.function name)
  | _ => none

/-- The label that a jump goes to, as its author means it: that of its own function. -/
def target? (function? : Option String) : Command → Option Declaration
  | .goto name | .ifGoto name => some (.label function? name)
  | _ => none

end Command

/-- The line declares a symbol. -/
def isLabelLine (line : String) : Bool :=
  line.toList.head? == some '('

namespace Block

/-- The label lines of a `label` or `function` command. -/
def labelLines (block : Block) : List String :=
  if block.command.isDeclaration then block.lines.filter isLabelLine else []

/-- The line of a jump that loads the place to go to. The last instruction goes there. -/
def jumpLines (block : Block) : List String :=
  if block.command.isJump then block.lines.dropLast.getLast?.toList else []

end Block

namespace LinkedModule
variable (m : LinkedModule)

def declarations : List Declaration :=
  (inScopes none m.commands).filterMap fun place => place.2.declaration? place.1

def targets : List Declaration :=
  (inScopes none m.commands).filterMap fun place => place.2.target? place.1

def labelLines : List String :=
  m.blocks.flatMap Block.labelLines

def jumpLines : List String :=
  m.blocks.flatMap Block.jumpLines

end LinkedModule

/-! ## Lines of a module -/

theorem isLabelLine_commentLine (text : String) : isLabelLine (commentLine text) = false := by
  simp [isLabelLine, commentLine]

theorem isLabelLine_text_iff (s : Statement) : isLabelLine s.text = true ↔ ∃ t, s = .label t := by
  rw [isLabelLine, beq_iff_eq]
  cases s with
  | number w => simp [Statement.toList_number]
  | symbol t => simp [Statement.toList_symbol]
  | label t => simp [Statement.toList_label]
  | compute dest comp condition =>
    obtain ⟨c, cs, hcs, _, hparen, _⟩ := Statement.head_compute dest comp condition
    simp [hcs, hparen]

theorem filter_isLabelLine (text : String) (s : Symbol) {rest : List Statement}
    (h : ∀ t, .label t ∉ rest) :
    (commentLine text :: (Statement.label s :: rest).map Statement.text).filter isLabelLine =
      ["(" ++ s.text ++ ")"] := by
  have hrest : (rest.map Statement.text).filter isLabelLine = [] := by
    rw [List.filter_eq_nil_iff, List.forall_mem_map]
    intro statement hmem hlabel
    obtain ⟨t, rfl⟩ := (isLabelLine_text_iff statement).mp hlabel
    exact h t hmem
  rw [List.filter_cons_of_neg (by simp [isLabelLine_commentLine]), List.map_cons,
    List.filter_cons_of_pos ((isLabelLine_text_iff _).mpr ⟨s, rfl⟩), hrest]
  rfl

theorem getLast?_dropLast_jump (text : String) (front : List Statement) (s : Symbol)
    (last : Statement) :
    (commentLine text :: (front ++ [.symbol s, last]).map Statement.text).dropLast.getLast? =
      some ("@" ++ s.text) := by
  have hlines : commentLine text :: (front ++ [.symbol s, last]).map Statement.text =
      (commentLine text :: front.map Statement.text) ++ ["@" ++ s.text] ++ [last.text] := by
    simp [Statement.text]
  rw [hlines, List.dropLast_concat, List.getLast?_concat]

/-- A block has one label line if its command declares something, and none otherwise. -/
theorem Context.labelLines_eq {ctx : Context} {code : List Statement}
    (hscope : ctx.scope = .function) (text : String) (hcode : ctx.code command = .ok code) :
    (Block.mk text command code).labelLines =
      (command.declaration? ctx.function?).toList.map Declaration.line := by
  cases command with
  | label name =>
    cases hcode
    refine (filter_isLabelLine text (ctx.label name) (by simp)).trans ?_
    rw [ctx.text_label, hscope]
    rfl
  | function name locals =>
    cases hcode
    exact filter_isLabelLine text (.name name) (by simp)
  | _ => rfl

theorem Context.jumpLines_eq {ctx : Context} {code : List Statement}
    (hscope : ctx.scope = .function) (text : String) (hcode : ctx.code command = .ok code) :
    (Block.mk text command code).jumpLines =
      (command.target? ctx.function?).toList.map Declaration.reference := by
  have hjump (name : String) (front : List Statement) (last : Statement) :
      (commentLine text :: (front ++ [.symbol (ctx.label name), last]).map
        Statement.text).dropLast.getLast?.toList =
          [Declaration.reference (.label ctx.function? name)] := by
    rw [getLast?_dropLast_jump, ctx.text_label, hscope]
    rfl
  cases command with
  | goto name =>
    cases hcode
    exact hjump name [] _
  | ifGoto name =>
    cases hcode
    exact hjump name Expansion.popD _
  | _ => rfl

/-- What the lines of each block say of its command and the function around it, the lines of all
blocks say of the commands in their scopes. -/
theorem Listed.flatMap_inScopes {ctx : Context} (h : Listed ctx blocks ctx')
    (hscope : ctx.scope = .function) (linesOf : Block → List String)
    (said? : Option String → Command → Option Declaration) (text : Declaration → String)
    (hstep : ∀ (ctx : Context) line command code, ctx.scope = .function →
      ctx.code command = .ok code →
        linesOf ⟨line, command, code⟩ = (said? ctx.function? command).toList.map text) :
    blocks.flatMap linesOf = ((inScopes ctx.function? (blocks.map Block.command)).filterMap
      fun place => said? place.1 place.2).map text := by
  induction h with
  | nil => rfl
  | @cons _ _ command _ _ ctx code _ _ hcode _ ih =>
    rw [List.flatMap_cons, hstep ctx _ command code hscope hcode,
      ih (by rw [Context.after_scope, hscope]), Context.after_function?, List.map_cons, inScopes]
    cases hsaid : said? ctx.function? command <;> simp [hsaid]

theorem Listed.labelLines_eq {m : LinkedModule} {ctx : Context} (h : Listed ctx m.blocks ctx')
    (hscope : ctx.scope = .function) (hfunction : ctx.function? = none) :
    m.labelLines = m.declarations.map Declaration.line := by
  have hlines := h.flatMap_inScopes hscope Block.labelLines Command.declaration? Declaration.line
    fun ctx line _ _ hscope hcode => ctx.labelLines_eq hscope line hcode
  rwa [hfunction] at hlines

theorem Listed.jumpLines_eq {m : LinkedModule} {ctx : Context} (h : Listed ctx m.blocks ctx')
    (hscope : ctx.scope = .function) (hfunction : ctx.function? = none) :
    m.jumpLines = m.targets.map Declaration.reference := by
  have hlines := h.flatMap_inScopes hscope Block.jumpLines Command.target? Declaration.reference
    fun ctx line _ _ hscope hcode => ctx.jumpLines_eq hscope line hcode
  rwa [hfunction] at hlines

/-! ## Modules -/

namespace LinkedModule
variable {m : LinkedModule}

theorem nodup_labelLines_iff (h : m.labelLines = m.declarations.map Declaration.line) :
    m.labelLines.Nodup ↔ m.declarations.Nodup ∧
      ∀ d ∈ m.declarations, ∀ e ∈ m.declarations, ¬ d.Clash e := by
  have hline {d e : Declaration} : d.line = e.line ↔ d = e ∨ d.Clash e := by
    rw [← Declaration.symbol_eq_iff]
    simp [Declaration.line]
  rw [h]
  constructor
  · intro hnodup
    have hdeclarations := hnodup.of_map
    refine ⟨hdeclarations, fun d hd e he hclash => hclash.ne ?_⟩
    exact (List.nodup_map_iff_inj_on hdeclarations).mp hnodup d hd e he (hline.mpr (.inr hclash))
  · rintro ⟨hdeclarations, hclash⟩
    refine (List.nodup_map_iff_inj_on hdeclarations).mpr fun d hd e he heq => ?_
    exact (hline.mp heq).resolve_right (hclash d hd e he)

/-- No function has a dollar sign in its name, and what stands outside of functions has neither a
dollar sign in its name nor the name of a function. -/
structure Plain (m : LinkedModule) : Prop where
  functions : ∀ name, .function name ∈ m.declarations → '$' ∉ name.toList
  outside : ∀ name, .label none name ∈ m.declarations ++ m.targets →
    '$' ∉ name.toList ∧ .function name ∉ m.declarations

end LinkedModule

/-- The function around a command is the given one, or a command before it has opened it. -/
theorem function_mem_inScopes (h : (some f, command) ∈ inScopes function? commands) :
    function? = some f ∨ ∃ g locals, (g, .function f locals) ∈ inScopes function? commands := by
  induction commands generalizing function? with
  | nil => cases h
  | cons first commands ih =>
    rcases List.mem_cons.mp h with heq | hrest
    · cases heq
      exact .inl rfl
    · rcases ih hrest with hopen | ⟨g, locals, hmem⟩
      · -- the function is still open from before, or the first command opens it
        cases first with
        | function name locals =>
          cases hopen
          exact .inr ⟨_, locals, List.mem_cons_self⟩
        | _ => exact .inl hopen
      · exact .inr ⟨g, locals, List.mem_cons_of_mem _ hmem⟩

namespace LinkedModule
variable {m : LinkedModule}

theorem function_mem_declarations (h : .label (some f) label ∈ m.declarations ++ m.targets) :
    .function f ∈ m.declarations := by
  have hscope : ∃ command, (some f, command) ∈ inScopes none m.commands := by
    rcases List.mem_append.mp h with h | h
    · obtain ⟨⟨function?, command⟩, hmem, hsaid⟩ := List.mem_filterMap.mp h
      cases command <;> cases hsaid
      exact ⟨_, hmem⟩
    · obtain ⟨⟨function?, command⟩, hmem, hsaid⟩ := List.mem_filterMap.mp h
      cases command <;> cases hsaid
      · exact ⟨_, hmem⟩
      · exact ⟨_, hmem⟩
  obtain ⟨command, hmem⟩ := hscope
  rcases function_mem_inScopes hmem with heq | ⟨g, locals, hopen⟩
  · cases heq
  · exact List.mem_filterMap.mpr ⟨_, hopen, rfl⟩

theorem function_not_mem_targets : .function f ∉ m.targets := by
  intro h
  obtain ⟨⟨function?, command⟩, _, hsaid⟩ := List.mem_filterMap.mp h
  cases command <;> cases hsaid

theorem Plain.not_overlaps (h : m.Plain) (hd : d ∈ m.declarations ++ m.targets)
    (he : e ∈ m.declarations ++ m.targets) : ¬ d.Overlaps e := by
  intro hoverlaps
  have hfunction {f : String} (hf : .function f ∈ m.declarations ++ m.targets) :
      .function f ∈ m.declarations :=
    (List.mem_append.mp hf).resolve_right function_not_mem_targets
  cases hoverlaps with
  | bare => exact (h.outside _ hd).2 (hfunction he)
  | entry => exact h.functions _ (hfunction he) (by simp)
  | outside => exact (h.outside _ he).1 (by simp)
  | nested => exact h.functions _ (function_mem_declarations hd) (by simp)

theorem Plain.not_clash (h : m.Plain) (hd : d ∈ m.declarations ++ m.targets)
    (he : e ∈ m.declarations ++ m.targets) : ¬ d.Clash e := by
  rintro (hoverlaps | hoverlaps)
  · exact h.not_overlaps hd he hoverlaps
  · exact h.not_overlaps he hd hoverlaps

end LinkedModule

/-! ## Labels apart -/

/-- The name of the second function goes on with the beginning of a label of the first. -/
def dollarModule : LinkedModule where
  name := "Main"
  blocks :=
    [⟨"function A 0", .function "A" 0, Expansion.function "A" 0⟩,
      ⟨"label B$C", .label "B$C", Expansion.label (.within "A" "B$C")⟩,
      ⟨"function A$B 0", .function "A$B" 0, Expansion.function "A$B" 0⟩,
      ⟨"label C", .label "C", Expansion.label (.within "A$B" "C")⟩]

theorem function_scope_shares_symbol :
    ((Program.empty { scope := .function }).addAll
        (.ofMemory [("Main", "function A 0\nlabel B$C\nfunction A$B 0\nlabel C")])
        ["Main"]).value = .ok ⟨{ scope := .function }, {}, [dollarModule]⟩ ∧
      dollarModule.declarations.Nodup ∧
      dollarModule.labelLines = ["(A)", "(A$B$C)", "(A$B)", "(A$B$C)"] ∧
      ¬ dollarModule.labelLines.Nodup :=
  ⟨by decide +kernel, by decide, by decide, by decide⟩

/-- Where labels are scoped by functions, the label lines of a module are those of its declarations,
and they are all different if no declaration is repeated and none clashes with another. A jump goes
to a declaration if this is the label that it means, or clashes with it. The labels of one name in
different functions never clash, and nothing does in a module with plain names. -/
theorem function_scope_keeps_apart {p : Program} (hscope : p.options.scope = .function)
    {source : Source} {name : String} {lines : Lines} {count : Nat}
    (hopen : source name = .ok lines) (hok : (p.add source name).2.value = .ok count) :
    ∃ m : LinkedModule, (p.add source name).1.modules = p.modules ++ [m] ∧
      m.commands = lines.filterMap commandOn? ∧
      m.labelLines = m.declarations.map Declaration.line ∧
      m.jumpLines = m.targets.map Declaration.reference ∧
      (m.labelLines.Nodup ↔ m.declarations.Nodup ∧
        ∀ d ∈ m.declarations, ∀ e ∈ m.declarations, ¬ d.Clash e) ∧
      (∀ d ∈ m.declarations, ∀ e ∈ m.targets, d.symbol = e.symbol ↔ d = e ∨ d.Clash e) ∧
      (∀ f g label, ¬ Declaration.Clash (.label (some f) label) (.label (some g) label)) ∧
      (m.Plain → m.declarations.Nodup → m.labelLines.Nodup ∧
        ∀ d ∈ m.declarations, ∀ e ∈ m.targets, d.symbol = e.symbol → d = e) := by
  obtain ⟨m, ctx, hmodules, _, hcommands, hlisted⟩ := Program.exists_module_of_add hopen hok
  have hlines := hlisted.labelLines_eq hscope rfl
  have hnodup_iff := LinkedModule.nodup_labelLines_iff hlines
  refine ⟨m, hmodules, hcommands, hlines, hlisted.jumpLines_eq hscope rfl, hnodup_iff, ?_, ?_, ?_⟩
  · exact fun _ _ _ _ => Declaration.symbol_eq_iff
  · exact fun _ _ _ => Declaration.not_clash_same_name
  · intro hplain hnodup
    refine ⟨hnodup_iff.mpr ⟨hnodup, fun d hd e he => ?_⟩, fun d hd e he heq => ?_⟩
    · exact hplain.not_clash (List.mem_append_left _ hd) (List.mem_append_left _ he)
    · have hclash := hplain.not_clash (List.mem_append_left _ hd) (List.mem_append_right _ he)
      exact (Declaration.symbol_eq_iff.mp heq).resolve_right hclash

/-- Labels of one name outside of functions and in two of them. -/
def sharedLabels : Source :=
  .ofMemory [("Main", "label L\nfunction f 0\nlabel L\ngoto L\nfunction g 0\nlabel L\nif-goto L")]

theorem function_scope_keeps_shared_labels :
    ∃ m : LinkedModule,
      ((Program.empty { scope := .function }).add sharedLabels "Main").1.modules = [m] ∧
      m.Plain ∧ m.declarations.Nodup ∧
      m.labelLines = ["(L)", "(f)", "(f$L)", "(g)", "(g$L)"] ∧ m.jumpLines = ["@f$L", "@g$L"] ∧
      m.labelLines.Nodup ∧
      ∀ d ∈ m.declarations, ∀ e ∈ m.targets, d.symbol = e.symbol → d = e := by
  have hok : ((Program.empty { scope := .function }).add sharedLabels "Main").2.value = .ok 7 := by
    decide +kernel
  obtain ⟨m, hmodules, hcommands, hlabels, hjumps, _, _, _, hplain⟩ :=
    function_scope_keeps_apart rfl rfl hok
  have hread : m.commands = [.label "L", .function "f" 0, .label "L", .goto "L",
      .function "g" 0, .label "L", .ifGoto "L"] := by
    rw [hcommands]
    decide +kernel
  have hdeclarations : m.declarations = [.label none "L", .function "f", .label (some "f") "L",
      .function "g", .label (some "g") "L"] := by
    rw [LinkedModule.declarations, hread]
    rfl
  have htargets : m.targets = [.label (some "f") "L", .label (some "g") "L"] := by
    rw [LinkedModule.targets, hread]
    rfl
  have hm : m.Plain := ⟨by simp [hdeclarations], by simp [hdeclarations, htargets]⟩
  have hnodup : m.declarations.Nodup := by
    rw [hdeclarations]
    decide
  rw [hdeclarations] at hlabels
  rw [htargets] at hjumps
  exact ⟨m, hmodules, hm, hnodup, hlabels, hjumps, hplain hm hnodup⟩

end HackVM
