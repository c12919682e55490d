import HackVM.Proofs.History

/-! The lines of a program are lines of assembly.

A line of assembly has one of five forms, which are described here by their text alone
(`LineForm.Matches`) and told apart by their first two characters (`LineForm.Matches.eq_ofHead`).
The code of a command consists of lines in such a form as long as the names in the command and its
context are symbols (`Context.Named.code_inForm`), and expansion keeps to such contexts, so that all
lines of a program are in form. -/

namespace HackVM

/-! ## Forms -/

/-- The characters that end a line: line feed to carriage return, next line, and the line and
paragraph separators. -/
def isLineBreak (c : Char) : Bool :=
  Text.CharRanges.covers [(0x0A, 0x0D), (0x85, 0x85), (0x2028, 0x2029)] c

/-- The functions of the arithmetic unit. Operands of a commutative one stand in either order. -/
def aluFunctions : List String :=
  ["0", "1", "-1", "D", "A", "M", "!D", "!A", "!M", "-D", "-A", "-M", "D+1", "A+1", "M+1", "D-1",
    "A-1", "M-1", "D+A", "A+D", "D+M", "M+D", "D-A", "A-D", "D-M", "M-D", "D&A", "A&D", "D&M",
    "M&D", "D|A", "A|D", "D|M", "M|D"]

def jumpNames : List String :=
  ["JGT", "JEQ", "JGE", "JLT", "JNE", "JLE", "JMP"]

/-- What may stand before a function: registers to write, each once, and an equals sign. -/
def IsDest (text : String) : Prop :=
  text = "" ∨ ∃ registers : List Char, registers ≠ [] ∧ registers.Nodup ∧
    registers ⊆ ['A', 'D', 'M'] ∧ text = String.ofList registers ++ "="

/-- What may stand behind a function. -/
def IsJump (text : String) : Prop :=
  text = "" ∨ ∃ jump ∈ jumpNames, text = ";" ++ jump

inductive LineForm where
  | comment
  | number
  | symbol
  | label
  | computation
  deriving DecidableEq

namespace LineForm

def Matches : LineForm → String → Prop
  | comment, line => ∃ text : String, (∀ c ∈ text.toList, isLineBreak c = false) ∧
      line = "// " ++ text
  | number, line => ∃ n ≤ 32767, line = "@" ++ Decimal.text n
  | symbol, line => ∃ name : String, SymbolText name.toList ∧ line = "@" ++ name
  | label, line => ∃ name : String, SymbolText name.toList ∧ line = "(" ++ name ++ ")"
  | computation, line => ∃ dest function jump : String, IsDest dest ∧ function ∈ aluFunctions ∧
      IsJump jump ∧ line = dest ++ function ++ jump

/-- The form that a line can have at most. -/
def ofHead : List Char → LineForm
  | '/' :: _ => comment
  | '@' :: c :: _ => if c.isDigit then number else symbol
  | '(' :: _ => label
  | _ => computation

/-- The characters that a computation may begin with. -/
def computationHeads : List Char :=
  ['0', '1', '-', '!', 'A', 'D', 'M']

theorem ofHead_computation (h : c ∈ computationHeads) : ofHead (c :: cs) = computation := by
  fin_cases h <;> rfl

theorem head_function (h : function ∈ aluFunctions) :
    ∃ c cs, function.toList = c :: cs ∧ c ∈ computationHeads := by
  have hheads : ∀ function ∈ aluFunctions,
      function.toList.head?.any computationHeads.contains = true := by
    decide
  obtain ⟨c, hhead, hc⟩ := (Option.any_eq_true _ _).mp (hheads function h)
  obtain ⟨cs, hcs⟩ := List.head?_eq_some_iff.mp hhead
  exact ⟨c, cs, hcs, List.contains_iff_mem.mp hc⟩

theorem head_dest (h : IsDest dest) : dest = "" ∨
    ∃ c cs, dest.toList = c :: cs ∧ c ∈ computationHeads := by
  rcases h with h | ⟨registers, hne, _, hsubset, rfl⟩
  · exact .inl h
  · obtain ⟨c, cs, rfl⟩ := List.exists_cons_of_ne_nil hne
    have hall : ['A', 'D', 'M'] ⊆ computationHeads := by decide
    exact .inr ⟨c, cs ++ ['='], by simp, hall (hsubset List.mem_cons_self)⟩

/-- The first two characters of a line tell its form. -/
theorem Matches.eq_ofHead {form : LineForm} (h : form.Matches line) :
    form = ofHead line.toList := by
  cases form with
  | comment =>
    obtain ⟨text, _, rfl⟩ := h
    simp [ofHead]
  | number =>
    obtain ⟨n, _, rfl⟩ := h
    obtain ⟨c, cs, hdigits⟩ := List.exists_cons_of_ne_nil (@Nat.toDigits_ne_nil n 10)
    have hc : c.isDigit = true := by
      apply Decimal.isDigit_of_mem (n := n)
      simp [Decimal.toList_text, hdigits]
    simp [ofHead, Decimal.toList_text, hdigits, hc]
  | symbol =>
    obtain ⟨name, hname, rfl⟩ := h
    obtain ⟨c, cs, hcs⟩ := List.exists_cons_of_ne_nil hname.nonempty
    have hc : c.isDigit = false := hname.head c (by rw [hcs]; rfl)
    simp [ofHead, hcs, hc]
  | label =>
    obtain ⟨name, _, rfl⟩ := h
    simp [ofHead]
  | computation =>
    obtain ⟨dest, function, jump, hdest, hfunction, _, rfl⟩ := h
    rw [String.toList_append, String.toList_append]
    rcases head_dest hdest with rfl | ⟨c, cs, hcs, hc⟩
    · obtain ⟨c, cs, hcs, hc⟩ := head_function hfunction
      rw [hcs]
      exact (ofHead_computation hc).symm
    · rw [hcs]
      exact (ofHead_computation hc).symm

end LineForm

/-- The line has exactly one of the forms. -/
def InForm (line : String) : Prop :=
  ∃! form, LineForm.Matches form line

theorem LineForm.inForm (form : LineForm) (h : form.Matches line) : InForm line :=
  ⟨form, h, fun _ h' => h'.eq_ofHead.trans h.eq_ofHead.symm⟩

/-! ## Statements -/

namespace Statement

theorem isDest_text (dest : Dest) : IsDest dest.text := by
  cases dest with
  | none => exact .inl rfl
  | m => exact .inr ⟨['M'], by decide⟩
  | d => exact .inr ⟨['D'], by decide⟩
  | dm => exact .inr ⟨['D', 'M'], by decide⟩
  | a => exact .inr ⟨['A'], by decide⟩
  | am => exact .inr ⟨['A', 'M'], by decide⟩
  | ad => exact .inr ⟨['A', 'D'], by decide⟩
  | adm => exact .inr ⟨['A', 'D', 'M'], by decide⟩

theorem text_mem_aluFunctions (comp : Comp) : comp.text ∈ aluFunctions := by
  cases comp with
  | zero | one | minusOne => decide
  | reg r | not r | neg r | succ r | pred r => cases r <;> decide
  | left op y | right op y => cases op <;> cases y <;> decide

theorem isJump_text (condition : Jump) : IsJump condition.text := by
  cases condition with
  | never => exact .inl rfl
  | gt => exact .inr ⟨"JGT", by decide⟩
  | eq => exact .inr ⟨"JEQ", by decide⟩
  | ge => exact .inr ⟨"JGE", by decide⟩
  | lt => exact .inr ⟨"JLT", by decide⟩
  | ne => exact .inr ⟨"JNE", by decide⟩
  | le => exact .inr ⟨"JLE", by decide⟩
  | always => exact .inr ⟨"JMP", by decide⟩

theorem compute_inForm (dest : Dest) (comp : Comp) (condition : Jump) :
    InForm (compute dest comp condition).text :=
  LineForm.computation.inForm
    ⟨_, _, _, isDest_text dest, text_mem_aluFunctions comp, isJump_text condition, rfl⟩

theorem number_inForm {value : Word} (h : value ≤ Word.maxLiteral) : InForm (number value).text :=
  LineForm.number.inForm ⟨value.toNat, h, rfl⟩

theorem symbol_inForm {s : Symbol} (h : SymbolText s.text.toList) : InForm (symbol s).text :=
  LineForm.symbol.inForm ⟨s.text, h, rfl⟩

theorem label_inForm {s : Symbol} (h : SymbolText s.text.toList) : InForm (label s).text :=
  LineForm.label.inForm ⟨s.text, h, rfl⟩

end Statement

/-! ## Commands -/

/-- The name that a command carries. -/
def Command.name? : Command → Option String
  | .label name | .goto name | .ifGoto name | .function name _ | .call name _ => some name
  | .arithmetic _ | .push .. | .pop .. | .ret => none

/-- The name that a command carries is a symbol. -/
def Command.Named (command : Command) : Prop :=
  ∀ name, command.name? = some name → SymbolText name.toList

theorem Command.WellFormed.named {command : Command} (h : command.WellFormed) : command.Named := by
  intro name hname
  cases command with
  | label | goto | ifGoto | function | call =>
    cases hname
    exact (isSymbol_iff.mp h).1
  | arithmetic | push | pop | ret => cases hname

namespace Context

/-- The names in a context are symbols, but for a namespace that is empty. -/
structure Named (ctx : Context) : Prop where
  space : ctx.space = "" ∨ SymbolText ctx.space.toList
  function? : ∀ name, ctx.function? = some name → SymbolText name.toList

namespace Named
variable {ctx : Context} {command : Command}

theorem after (h : ctx.Named) (hcommand : command.Named) : (ctx.after command).Named where
  space := by
    rw [after_space]
    exact h.space
  function? name hname := by
    rw [after_function?] at hname
    cases command with
    | function => exact hcommand name hname
    | _ => exact h.function? name hname

theorem label (h : ctx.Named) (hname : SymbolText name.toList) :
    SymbolText (ctx.label name).text.toList := by
  rcases ctx.label_cases name with hlabel | ⟨function, hfunction, hlabel⟩
  · rw [hlabel]
    exact hname
  · rw [hlabel]
    exact Symbol.symbolText_within (h.function? function hfunction) hname

/-- Commands with names that are symbols expand to lines of assembly. -/
theorem code_inForm (h : ctx.Named) (hcommand : command.Named) {code : List Statement}
    (hcode : ctx.code command = .ok code) : ∀ s ∈ code, InForm s.text := by
  intro s hs
  cases emits_of_mem hcode s hs with
  | compute => exact Statement.compute_inForm _ _ _
  | number hvalue => exact Statement.number_inForm hvalue
  | pointer => exact Statement.symbol_inForm (Symbol.symbolText_pointer _)
  | register => exact Statement.symbol_inForm (Symbol.symbolText_register _)
  | pushStatic | popStatic => exact Statement.symbol_inForm (Symbol.symbolText_static h.space _)
  | label => exact Statement.label_inForm (h.label (hcommand _ rfl))
  | goto | ifGoto => exact Statement.symbol_inForm (h.label (hcommand _ rfl))
  | @function name => exact Statement.label_inForm (hcommand name rfl)
  | @call name => exact Statement.symbol_inForm (hcommand name rfl)
  | reference => exact Statement.symbol_inForm (Symbol.symbolText_generated _ _)
  | declaration => exact Statement.label_inForm (Symbol.symbolText_generated _ _)

end Named

end Context

theorem Listed.named (h : Listed ctx blocks ctx') (hctx : ctx.Named) : ctx'.Named := by
  induction h with
  | nil => exact hctx
  | cons _ hread _ _ ih => exact ih (hctx.after (read_wellFormed hread).named)

theorem bootstrap_inForm (serial : Nat) : ∀ s ∈ Expansion.bootstrap serial, InForm s.text := by
  -- the call is that of a command in some context
  let ctx : Context := { space := "", scope := .program, serials := { calls := serial } }
  have hctx : ctx.Named := ⟨.inl rfl, nofun⟩
  have hentry : (Command.call Expansion.entryPoint 0).WellFormed := by
    show isSymbol "Sys.init" = true
    decide
  have hcall : ctx.code (.call Expansion.entryPoint 0) =
      .ok (Expansion.call Expansion.entryPoint 0 serial) := rfl
  simp only [Expansion.bootstrap, List.forall_mem_append, List.forall_mem_cons]
  exact ⟨⟨Statement.number_inForm (by decide), Statement.compute_inForm _ _ _,
    Statement.symbol_inForm (Symbol.symbolText_pointer _), Statement.compute_inForm _ _ _,
    List.forall_mem_nil _⟩, hctx.code_inForm hentry.named hcall⟩

/-! ## Comments -/

theorem isBlank_of_isLineBreak (h : isLineBreak c = true) : Text.isBlank c = true := by
  obtain ⟨range, hrange, hc⟩ := Text.CharRanges.covers_iff.mp h
  refine Text.CharRanges.covers_iff.mpr ?_
  simp only [List.mem_cons, List.not_mem_nil, or_false] at hrange
  rcases hrange with rfl | rfl | rfl
  · exact ⟨(0x09, 0x0D), by decide, by omega, hc.2⟩
  · exact ⟨(0x85, 0x85), by decide, hc⟩
  · exact ⟨(0x2028, 0x2029), by decide, hc⟩

/-- The pieces of a list are free of what it is split at. -/
theorem eq_false_of_mem_splitOnP {p : α → Bool} {xs piece : List α} (h : piece ∈ xs.splitOnP p) :
    ∀ x ∈ piece, p x = false := by
  induction xs generalizing piece with
  | nil =>
    rw [List.splitOnP_nil, List.mem_singleton] at h
    rw [h]
    exact List.forall_mem_nil _
  | cons y ys ih =>
    rw [List.splitOnP_cons_eq_if_modifyHead] at h
    obtain ⟨first, others, hsplit⟩ := List.exists_cons_of_ne_nil (List.splitOnP_ne_nil p ys)
    split at h
    · rcases List.mem_cons.mp h with rfl | h
      · exact List.forall_mem_nil _
      · exact ih h
    · rename_i hy
      rw [hsplit] at ih h
      rcases List.mem_cons.mp h with rfl | h
      · rw [List.forall_mem_cons]
        exact ⟨Bool.eq_false_iff.mpr hy, ih List.mem_cons_self⟩
      · exact ih (List.mem_cons_of_mem _ h)

theorem not_isBlank_of_mem_words (hword : word ∈ Text.words text) :
    ∀ c ∈ word.toList, Text.isBlank c = false := by
  obtain ⟨piece, hpiece, rfl⟩ := List.mem_map.mp hword
  rw [String.toList_ofList]
  exact eq_false_of_mem_splitOnP (List.mem_filter.mp hpiece).1

theorem mem_unwords {words : List String} (h : c ∈ (Text.unwords words).toList) :
    c = ' ' ∨ ∃ word ∈ words, c ∈ word.toList := by
  rw [Text.unwords, String.toList_intercalate] at h
  induction words with
  | nil => simp at h
  | cons word words ih =>
    cases words with
    | nil => exact .inr ⟨word, List.mem_cons_self, by simpa using h⟩
    | cons word' words =>
      rw [List.map_cons, List.map_cons, List.intercalate_cons_cons, List.mem_append,
        List.mem_append] at h
      rcases h with (h | h) | h
      · exact .inr ⟨word, List.mem_cons_self, h⟩
      · exact .inl (by simpa using h)
      · rcases ih h with h | ⟨word, hword, h⟩
        · exact .inl h
        · exact .inr ⟨word, List.mem_cons_of_mem _ hword, h⟩

theorem normalLine?_lineBreak (h : normalLine? line = some text) :
    ∀ c ∈ text.toList, isLineBreak c = false := by
  intro c hc
  rw [normalLine?] at h
  split at h
  · cases h
  · cases h
    rcases mem_unwords hc with rfl | ⟨word, hword, hc⟩
    · decide
    · rw [Bool.eq_false_iff]
      intro hbreak
      have hblank := not_isBlank_of_mem_words hword c hc
      rw [isBlank_of_isLineBreak hbreak] at hblank
      cases hblank

theorem commentLine_inForm (h : ∀ c ∈ text.toList, isLineBreak c = false) :
    InForm (commentLine text) :=
  LineForm.comment.inForm ⟨text, h, rfl⟩

/-! ## Programs -/

theorem Group.lines_inForm {group : Group} (htext : ∀ c ∈ group.text.toList, isLineBreak c = false)
    (hcode : ∀ s ∈ group.code, InForm s.text) : ∀ line ∈ group.lines, InForm line := by
  rw [lines, List.forall_mem_cons]
  refine ⟨commentLine_inForm htext, fun line hline => ?_⟩
  obtain ⟨s, hs, rfl⟩ := List.mem_map.mp hline
  exact hcode s hs

theorem Program.Reached.lines_inForm {options : Options} {p : Program} (h : Reached options p) :
    ∀ line ∈ p.lines, InForm line := by
  intro line hline
  rw [p.lines_eq_groups] at hline
  obtain ⟨group, hgroup, hline⟩ := List.mem_flatMap.mp hline
  refine Group.lines_inForm ?_ ?_ line hline <;>
    rcases groups_cases hgroup with ⟨_, rfl⟩ | ⟨m, hm, block, hblock, rfl⟩
  · intro c hc
    have hnone : "bootstrap".toList.any isLineBreak = false := by decide
    exact Bool.eq_false_iff.mpr (List.any_eq_false.mp hnone c hc)
  · obtain ⟨_, _, hlisted⟩ := h.listed hm
    obtain ⟨line, hnormal⟩ := hlisted.normal block hblock
    exact normalLine?_lineBreak hnormal
  · exact bootstrap_inForm 0
  · obtain ⟨earlier, later, hblocks⟩ := List.append_of_mem hblock
    obtain ⟨_, ctx, hlisted, hread, hcode⟩ := h.split hm hblocks
    have hctx : ctx.Named := hlisted.named ⟨namespaceOf_text m.name, nofun⟩
    exact hctx.code_inForm (read_wellFormed hread).named hcode

/-- Every line of a program is a line of assembly, of one form only, whatever the modules and their
names are. So are the lines of a command that has not been read from text, provided that the names
in it and in its context are symbols; and the context behind it is again such a context. -/
theorem lines_in_form :
    (∀ (source : Source) (options : Options) (names lines : List String),
      (link source options names).value = .ok lines → ∀ line ∈ lines, InForm line) ∧
    ∀ (ctx ctx' : Context) (command : Command) (code : List Statement),
      ctx.Named → command.Named → ctx.expand command = .ok (code, ctx') →
      (∀ line ∈ code.map Statement.text, InForm line) ∧ ctx'.Named := by
  constructor
  · intro source options names lines hlink
    obtain ⟨p, hp, rfl⟩ := exists_program_of_link hlink
    exact (Program.Reached.empty.addAll hp).lines_inForm
  · intro ctx ctx' command code hctx hcommand hexpand
    obtain ⟨hcode, rfl⟩ := expand_eq_ok hexpand
    rw [List.forall_mem_map]
    exact ⟨hctx.code_inForm hcommand hcode, hctx.after hcommand⟩

/-- A module without a name, and one whose name fits no symbol. -/
def oddNames : Source :=
  .ofMemory [("", "push static 7"), ("4 µ", "function f 0 // one\npop static 32767")]

/-- An empty namespace, and a function whose name no text can give. -/
def unreadContext : Context where
  space := ""
  scope := .function
  function? := some "$f"

theorem lines_in_form_odd_names :
    (∃ lines, (link oddNames { bootstrap := true } ["", "4 µ"]).value = .ok lines ∧
      ["@.7", "// function f 0", "@_4__.32767"] ⊆ lines ∧ ∀ line ∈ lines, InForm line) ∧
    unreadContext.Named ∧ (Command.label "$CMP_0").Named ∧
      unreadContext.expand (.label "$CMP_0") =
        .ok ([.label (.within "$f" "$CMP_0")], unreadContext) ∧
      InForm "($f$$CMP_0)" := by
  have hnamed : unreadContext.Named :=
    ⟨.inl rfl, fun name hname => Option.some.inj hname ▸ .of_all (by decide) (by decide)⟩
  have hcommand : (Command.label "$CMP_0").Named :=
    fun name hname => Option.some.inj hname ▸ .of_all (by decide) (by decide)
  obtain ⟨hlink, hexpand⟩ := lines_in_form
  refine ⟨⟨_, rfl, by decide +kernel, hlink oddNames { bootstrap := true } ["", "4 µ"] _ rfl⟩,
    hnamed, hcommand, rfl, ?_⟩
  exact (hexpand _ _ _ _ hnamed hcommand rfl).1 _ List.mem_cons_self

end HackVM
