import HackVM.Machine.Loader
import HackVM.Proofs.History

/-! Loading the lines of a program.

The lines of a program that attempts have led to are read back as the statements of its code, up to
what a symbol records besides its text (`Reached.readStatements?_lines`). As the assembler looks at
nothing else, loading the lines comes to assembling the code (`Reached.load?_lines`). -/

namespace HackVM

/-! ## Lines -/

/-- A character that belongs neither to a comment nor around the code of a line. -/
def isPlain (c : Char) : Bool :=
  c ≠ '/' && !Text.isBlank c

theorem beforeComment_of_plain {cs : List Char} (h : ∀ c ∈ cs, isPlain c = true) :
    beforeComment cs = cs := by
  induction cs with
  | nil => rfl
  | cons c cs ih =>
    have hc : c ≠ '/' := by
      rintro rfl
      exact absurd (h _ List.mem_cons_self) (by decide)
    rw [beforeComment, ih fun d hd => h d (List.mem_cons_of_mem _ hd)]
    rintro _ rfl
    exact absurd rfl hc

theorem dropBlanks_of_plain {cs : List Char} (h : ∀ c ∈ cs, isPlain c = true) :
    dropBlanks cs = cs := by
  cases cs with
  | nil => rfl
  | cons c cs =>
    have hc := h c List.mem_cons_self
    simp only [isPlain, Bool.and_eq_true, Bool.not_eq_true'] at hc
    rw [dropBlanks, List.dropWhile_cons_of_neg (by simp [hc.2])]

theorem lineCode_of_plain {line : String} (h : ∀ c ∈ line.toList, isPlain c = true) :
    lineCode line = line.toList := by
  rw [lineCode, beforeComment_of_plain h, dropBlanks_of_plain h, dropBlanks_of_plain,
    List.reverse_reverse]
  exact fun c hc => h c (List.mem_reverse.mp hc)

theorem lineCode_commentLine (text : String) : lineCode (commentLine text) = [] := by
  have hchars : (commentLine text).toList = '/' :: '/' :: ' ' :: text.toList := by
    simp [commentLine]
  rw [lineCode, hchars]
  rfl

theorem isPlain_of_range (hlow : 48 ≤ c.toNat) (hhigh : c.toNat ≤ 122) : isPlain c = true := by
  have hslash : c ≠ '/' := by
    rintro rfl
    exact absurd hlow (by decide)
  have hblank : Text.isBlank c = false := by
    rw [Bool.eq_false_iff, ne_eq, Text.isBlank, Text.CharRanges.covers_iff]
    rintro ⟨range, hmem, hfirst, hlast⟩
    have hoff : ∀ range ∈ Text.blankRanges, range.2 < 48 ∨ 122 < range.1 := by decide
    have := hoff range hmem
    omega
  simp [isPlain, hslash, hblank]

theorem isPlain_of_isSymbolChar (h : isSymbolChar c = true) : isPlain c = true := by
  rw [isSymbolChar, Bool.or_eq_true] at h
  rcases h with h | h
  · have hrange : 48 ≤ c.toNat ∧ c.toNat ≤ 122 := by
      delta Char.isAlphanum Char.isAlpha Char.isUpper Char.isLower Char.isDigit at h
      simp [UInt32.le_iff_toNat_le] at h
      omega
    exact isPlain_of_range hrange.1 hrange.2
  · have hmem := List.contains_iff_mem.mp h
    fin_cases hmem <;> decide

/-! ## Statements -/

theorem isPlain_of_mem_digits (h : c ∈ (Decimal.text n).toList) : isPlain c = true :=
  isPlain_of_isSymbolChar (isSymbolChar_decimal h)

theorem isPlain_compute {dest : Dest} {comp : Comp} {condition : Jump}
    (h : c ∈ (Statement.compute dest comp condition).text.toList) : isPlain c = true := by
  have hdest : dest.text.toList.all isPlain = true := by cases dest <;> decide
  have hcomp : comp.text.toList.all isPlain = true := by
    cases comp with
    | zero | one | minusOne => decide
    | reg r | not r | neg r | succ r | pred r => cases r <;> decide
    | left op y | right op y => cases op <;> cases y <;> decide
  have hcondition : condition.text.toList.all isPlain = true := by cases condition <;> decide
  rw [Statement.text, String.toList_append, String.toList_append, List.mem_append,
    List.mem_append] at h
  rcases h with (h | h) | h
  · exact List.all_eq_true.mp hdest c h
  · exact List.all_eq_true.mp hcomp c h
  · exact List.all_eq_true.mp hcondition c h

theorem Statement.WellFormed.plain {s : Statement} (h : s.WellFormed) :
    ∀ c ∈ s.text.toList, isPlain c = true := by
  intro c hc
  cases s with
  | number w =>
    rw [toList_number] at hc
    rcases List.mem_cons.mp hc with rfl | hc
    · decide
    · exact isPlain_of_mem_digits hc
  | symbol s =>
    rw [toList_symbol] at hc
    rcases List.mem_cons.mp hc with rfl | hc
    · decide
    · exact isPlain_of_isSymbolChar (Symbol.WellFormed.symbolText h |>.chars c hc)
  | label s =>
    rw [toList_label, List.mem_cons, List.mem_append, List.mem_singleton] at hc
    rcases hc with rfl | hc | rfl
    · decide
    · exact isPlain_of_isSymbolChar (Symbol.WellFormed.symbolText h |>.chars c hc)
    · decide
  | compute => exact isPlain_compute hc

/-! ## Reading statements back -/

theorem splitAt?_append {c : Char} {before : List Char} (behind : List Char) (h : c ∉ before) :
    splitAt? c (before ++ c :: behind) = some (before, behind) := by
  have hbefore : ∀ d ∈ before, decide (d ≠ c) = true := by
    intro d hd
    exact decide_eq_true fun he => h (he ▸ hd)
  rw [splitAt?, List.dropWhile_append_of_pos hbefore, List.takeWhile_append_of_pos hbefore]
  simp

theorem splitAt?_of_notMem {c : Char} {cs : List Char} (h : c ∉ cs) : splitAt? c cs = none := by
  have hcs : ∀ d ∈ cs, decide (d ≠ c) = true := by
    intro d hd
    exact decide_eq_true fun he => h (he ▸ hd)
  rw [splitAt?, ← List.append_nil cs, List.dropWhile_append_of_pos hcs]
  rfl

theorem Comp.read?_text (comp : Comp) : read? comp.text.toList = some comp := by
  cases comp with
  | zero | one | minusOne => decide
  | reg r | not r | neg r | succ r | pred r => cases r <;> decide
  | left op y | right op y => cases op <;> cases y <;> decide

theorem Comp.notMem_text (comp : Comp) : '=' ∉ comp.text.toList ∧ ';' ∉ comp.text.toList := by
  cases comp with
  | zero | one | minusOne => decide
  | reg r | not r | neg r | succ r | pred r => cases r <;> decide
  | left op y | right op y => cases op <;> cases y <;> decide

theorem Jump.text_cases (condition : Jump) :
    condition = .never ∨
      ∃ cs, condition.text.toList = ';' :: cs ∧ '=' ∉ cs ∧ read? cs = some condition := by
  cases condition with
  | never => exact .inl rfl
  | gt | eq | ge | lt | ne | le | always => exact .inr ⟨_, rfl, by decide⟩

theorem Dest.text_cases (dest : Dest) :
    dest = .none ∨ ∃ cs, dest.text.toList = cs ++ ['='] ∧ '=' ∉ cs ∧ ofChars cs = dest := by
  cases dest with
  | none => exact .inl rfl
  | m => exact .inr ⟨['M'], by decide⟩
  | d => exact .inr ⟨['D'], by decide⟩
  | dm => exact .inr ⟨['D', 'M'], by decide⟩
  | a => exact .inr ⟨['A'], by decide⟩
  | am => exact .inr ⟨['A', 'M'], by decide⟩
  | ad => exact .inr ⟨['A', 'D'], by decide⟩
  | adm => exact .inr ⟨['A', 'D', 'M'], by decide⟩

namespace Statement

theorem readBranch?_text (dest : Dest) (comp : Comp) (condition : Jump) :
    readBranch? dest (comp.text.toList ++ condition.text.toList) =
      some (.compute dest comp condition) := by
  rcases condition.text_cases with rfl | ⟨cs, hcs, _, hread⟩
  · rw [Jump.text, show "".toList = [] from rfl, List.append_nil, readBranch?,
      splitAt?_of_notMem comp.notMem_text.2, Comp.read?_text]
    rfl
  · rw [hcs, readBranch?, splitAt?_append cs comp.notMem_text.2]
    simp [Comp.read?_text, hread]

theorem readCompute?_text (dest : Dest) (comp : Comp) (condition : Jump) :
    readCompute? (compute dest comp condition).text.toList =
      some (.compute dest comp condition) := by
  have hrest : '=' ∉ comp.text.toList ++ condition.text.toList := by
    rw [List.mem_append]
    rintro (h | h)
    · exact comp.notMem_text.1 h
    · rcases condition.text_cases with rfl | ⟨cs, hcs, hnot, _⟩
      · cases h
      · rw [hcs] at h
        rcases List.mem_cons.mp h with h | h
        · exact absurd h (by decide)
        · exact hnot h
  rw [text, String.toList_append, String.toList_append, List.append_assoc]
  rcases dest.text_cases with rfl | ⟨cs, hcs, hnot, hread⟩
  · rw [Dest.text, show "".toList = [] from rfl, List.nil_append, readCompute?,
      splitAt?_of_notMem hrest]
    exact readBranch?_text .none comp condition
  · rw [hcs, List.append_assoc, List.singleton_append, readCompute?, splitAt?_append _ hnot]
    simp only [hread]
    exact readBranch?_text dest comp condition

theorem readAddress?_eq {cs : List Char} (h : ∀ c ∈ cs, isSymbolChar c = true) :
    readAddress? cs = Word.read? (String.ofList cs) := by
  rw [readAddress?.eq_def]
  split
  · exact absurd (h '+' List.mem_cons_self) (by decide)
  · rfl

theorem readLoad_number (w : Word) : readLoad w.text.toList = .number w := by
  have hchars : ∀ c ∈ w.text.toList, isSymbolChar c = true := fun c hc => isSymbolChar_decimal hc
  rw [readLoad, readAddress?_eq hchars, String.ofList_toList, Word.read?_text]

theorem readLoad_symbol {s : Symbol} (h : s.WellFormed) :
    readLoad s.text.toList = .symbol (.name s.text) := by
  obtain ⟨hnonempty, hchars, hhead⟩ := h.symbolText
  have hnone : Word.read? s.text = none := by
    rw [Word.read?, Option.map_eq_none_iff, Decimal.read?]
    refine if_neg ?_
    rintro ⟨_, hall, _⟩
    cases hcs : s.text.toList with
    | nil => exact hnonempty hcs
    | cons c cs =>
      rw [hcs] at hall
      have hdigit := hhead c (by rw [hcs]; rfl)
      simp [hdigit] at hall
  rw [readLoad, readAddress?_eq hchars, String.ofList_toList, hnone]

/-- What a text tells about a statement: its symbol is a name. -/
def bare : Statement → Statement
  | .symbol s => .symbol (.name s.text)
  | .label s => .label (.name s.text)
  | s => s

theorem read?_text {s : Statement} (h : s.WellFormed) : read? s.text.toList = some s.bare := by
  cases s with
  | number w =>
    rw [toList_number, read?, readLoad_number]
    rfl
  | symbol s =>
    rw [toList_symbol, read?, readLoad_symbol h]
    rfl
  | label s =>
    rw [toList_label, read?]
    simp [bare]
  | compute dest comp condition =>
    obtain ⟨c, cs, hcs, hat, hparen, _⟩ := head_compute dest comp condition
    have hcompute := readCompute?_text dest comp condition
    rw [hcs] at hcompute ⊢
    rw [read?.eq_def]
    split
    · exact absurd (List.cons.inj ‹_›).1 hparen
    · exact absurd (List.cons.inj ‹_›).1 hat
    · exact hcompute

end Statement

/-! ## Programs -/

theorem lineCode_text {s : Statement} (h : s.WellFormed) : lineCode s.text = s.text.toList :=
  lineCode_of_plain h.plain

theorem Statement.WellFormed.toList_ne_nil {s : Statement} (h : s.WellFormed) :
    s.text.toList ≠ [] := by
  intro hnil
  have hread := read?_text h
  rw [hnil] at hread
  cases hread

theorem mapM_read? {code : List Statement} (h : ∀ s ∈ code, s.WellFormed) :
    (code.map (·.text.toList)).mapM Statement.read? = some (code.map Statement.bare) := by
  induction code with
  | nil => rfl
  | cons s code ih =>
    rw [List.forall_mem_cons] at h
    simp [Statement.read?_text h.1, ih h.2]

theorem readStatements?_groups {groups : List Group}
    (h : ∀ s ∈ groups.flatMap Group.code, s.WellFormed) :
    readStatements? (groups.flatMap Group.lines) =
      some ((groups.flatMap Group.code).map Statement.bare) := by
  have hlines : ((groups.flatMap Group.lines).map lineCode).filter (· ≠ []) =
      (groups.flatMap Group.code).map (·.text.toList) := by
    induction groups with
    | nil => rfl
    | cons group groups ih =>
      rw [List.flatMap_cons, List.forall_mem_append] at h
      have hcode : (group.code.map fun s => lineCode s.text) = group.code.map (·.text.toList) :=
        List.map_congr_left fun s hs => lineCode_text (h.1 s hs)
      have hkept : (group.code.map (·.text.toList)).filter (· ≠ []) =
          group.code.map (·.text.toList) := by
        refine List.filter_eq_self.mpr fun cs hcs => ?_
        obtain ⟨s, hs, rfl⟩ := List.mem_map.mp hcs
        exact decide_eq_true (h.1 s hs).toList_ne_nil
      rw [List.flatMap_cons, List.map_append, List.filter_append, ih h.2, Group.lines,
        List.map_cons, lineCode_commentLine, List.filter_cons_of_neg (by decide), List.map_map,
        List.flatMap_cons, List.map_append]
      exact congrArg (· ++ _) ((congrArg _ hcode).trans hkept)
  rw [readStatements?, hlines, mapM_read? h]

theorem labelsFrom_bare (n : Nat) (code : List Statement) :
    labelsFrom n (code.map Statement.bare) = labelsFrom n code := by
  induction code generalizing n with
  | nil => rfl
  | cons s code ih => cases s <;> simp [Statement.bare, labelsFrom, ih, Symbol.text]

theorem symbols_bare (code : List Statement) :
    ((code.map Statement.bare).filterMap Statement.symbol?).map Symbol.text =
      (code.filterMap Statement.symbol?).map Symbol.text := by
  rw [List.map_filterMap, List.map_filterMap, List.filterMap_map]
  refine List.filterMap_congr fun s _ => ?_
  cases s <;> rfl

theorem addressOf_bare (code : List Statement) :
    addressOf (code.map Statement.bare) = addressOf code := by
  funext s
  simp only [addressOf, undeclared, declared, labelsFrom_bare, symbols_bare]

/-- The assembler looks at the texts of symbols only. -/
theorem assemble?_bare (code : List Statement) :
    assemble? (code.map Statement.bare) = assemble? code := by
  have hinstructions : (code.map Statement.bare).filterMap
      (Statement.instruction? (addressOf code)) =
        code.filterMap (Statement.instruction? (addressOf code)) := by
    rw [List.filterMap_map]
    refine List.filterMap_congr fun s _ => ?_
    cases s <;> rfl
  rw [assemble?, assemble?, declared, declared, labelsFrom_bare, addressOf_bare, hinstructions]

namespace Program.Reached
variable {options : Options} {p : Program}

theorem readStatements?_lines (h : Reached options p) :
    readStatements? p.lines = some (p.code.map Statement.bare) := by
  have hwf := h.wellFormed
  rw [code_eq_groups] at hwf ⊢
  rw [lines_eq_groups, readStatements?_groups hwf]

theorem load?_lines (h : Reached options p) : load? p.lines = assemble? p.code := by
  rw [load?, h.readStatements?_lines]
  exact assemble?_bare p.code

end Program.Reached

end HackVM
