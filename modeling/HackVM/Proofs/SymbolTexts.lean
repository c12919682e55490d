import HackVM.Asm.Statement
import HackVM.Name

/-! Texts of symbols and statements.

Decimal text determines its number, and the families of symbols do not run into each other: a
generated label has a text of its own (`Symbol.text_eq_generated`), and the text of a static cell
determines its namespace and index (`Symbol.static_text_inj`). -/

namespace HackVM

/-! ## Numbers -/

namespace Decimal

theorem toList_text (n : Nat) : (text n).toList = Nat.toDigits 10 n := by
  simp [text]

theorem text_inj {a b : Nat} (h : text a = text b) : a = b := by
  have hdigits : Nat.toDigits 10 a = Nat.toDigits 10 b := by
    rw [← toList_text, ← toList_text, h]
  rw [← @Nat.ofDigitChars_ten_toDigits a, hdigits, Nat.ofDigitChars_ten_toDigits]

theorem isDigit_of_mem (h : c ∈ (text n).toList) : c.isDigit = true := by
  rw [toList_text] at h
  exact Nat.isDigit_of_mem_toDigits (by decide) (by decide) h

theorem read?_text (h : n ≤ bound) : read? bound (text n) = some n := by
  have hdigits : (Nat.toDigits 10 n).all Char.isDigit = true :=
    List.all_eq_true.mpr fun c hc => Nat.isDigit_of_mem_toDigits (by decide) (by decide) hc
  simp only [read?, toList_text, Nat.ofDigitChars_ten_toDigits]
  rw [if_pos ⟨Nat.toDigits_ne_nil, hdigits, h⟩]

end Decimal

namespace Word

theorem text_inj {v w : Word} (h : v.text = w.text) : v = w :=
  BitVec.eq_of_toNat_eq (Decimal.text_inj h)

theorem read?_text (w : Word) : read? w.text = some w := by
  have hbound : w.toNat ≤ 65535 := Nat.le_of_lt_succ w.isLt
  rw [read?, text, Decimal.read?_text hbound]
  simp

end Word

/-! ## Names -/

/-- The characters of a symbol, as an assembler takes it. -/
structure SymbolText (cs : List Char) : Prop where
  nonempty : cs ≠ []
  chars : ∀ c ∈ cs, isSymbolChar c = true
  head : ∀ c, cs.head? = some c → c.isDigit = false

theorem SymbolText.of_all (hall : (c :: cs).all isSymbolChar = true) (hc : c.isDigit = false) :
    SymbolText (c :: cs) where
  nonempty := nofun
  chars := List.all_eq_true.mp hall
  head _ hd := Option.some.inj hd ▸ hc

theorem SymbolText.append (h : SymbolText cs) (hds : ∀ d ∈ ds, isSymbolChar d = true) :
    SymbolText (cs ++ ds) where
  nonempty hnil := h.nonempty (List.append_eq_nil_iff.mp hnil).1
  chars c hc := (List.mem_append.mp hc).elim (h.chars c) (hds c)
  head c hc := by
    rw [List.head?_append, Option.or_eq_some_iff] at hc
    rcases hc with hc | ⟨hnone, _⟩
    · exact h.head c hc
    · exact absurd (List.head?_eq_none_iff.mp hnone) h.nonempty

theorem isSymbolChar_decimal (h : c ∈ (Decimal.text n).toList) : isSymbolChar c = true := by
  simp [isSymbolChar, Char.isAlphanum, Decimal.isDigit_of_mem h]

/-- An authored name fits a symbol and does not begin like a generated label. -/
theorem isSymbol_iff :
    isSymbol name = true ↔ SymbolText name.toList ∧ name.toList.head? ≠ some '$' := by
  rw [isSymbol]
  split
  · rename_i hname
    constructor
    · intro h
      cases h
    · intro h
      exact absurd hname h.1.nonempty
  · rename_i c cs hname
    simp only [Bool.and_eq_true, Bool.not_eq_true', bne_iff_ne, List.all_eq_true, hname]
    constructor
    · rintro ⟨⟨hdigit, hdollar⟩, hall⟩
      refine ⟨⟨by simp, hall, fun x hx => ?_⟩, fun h => hdollar (Option.some.inj h)⟩
      cases hx
      exact hdigit
    · rintro ⟨h, hdollar⟩
      exact ⟨⟨h.head c rfl, fun he => hdollar (congrArg some he)⟩, h.chars⟩

theorem isSymbolChar_namespaceOf (h : c ∈ (namespaceOf name).toList) : isSymbolChar c = true := by
  have hmap : ∀ x ∈ name.toList.map fun c => if isSymbolChar c then c else '_',
      isSymbolChar x = true := by
    intro x hx
    obtain ⟨c, _, rfl⟩ := List.mem_map.mp hx
    by_cases hc : isSymbolChar c = true
    · rwa [if_pos hc]
    · rw [if_neg hc]
      decide
  rw [namespaceOf] at h
  split at h
  · simp at h
  · rename_i d ds hname
    rw [hname] at hmap
    rw [String.toList_ofList] at h
    split at h
    · rcases List.mem_cons.mp h with rfl | h
      · decide
      · exact hmap c h
    · exact hmap c h

theorem head_namespaceOf (h : (namespaceOf name).toList.head? = some c) : c.isDigit = false := by
  rw [namespaceOf] at h
  split at h
  · cases h
  · rename_i d ds _
    rw [String.toList_ofList] at h
    by_cases hdigit : d.isDigit = true
    · rw [if_pos hdigit] at h
      cases h
      decide
    · rw [if_neg hdigit] at h
      cases h
      exact Bool.eq_false_iff.mpr hdigit

theorem namespaceOf_text (name : String) :
    namespaceOf name = "" ∨ SymbolText (namespaceOf name).toList := by
  by_cases hempty : namespaceOf name = ""
  · exact .inl hempty
  · refine .inr ⟨fun hnil => hempty (String.toList_inj.mp hnil), ?_, ?_⟩
    · exact fun c hc => isSymbolChar_namespaceOf hc
    · exact fun c hc => head_namespaceOf hc

/-! ## Symbols -/

/-- The names in a symbol are those of an author or a module. -/
def Symbol.WellFormed : Symbol → Prop
  | .pointer _ | .register _ | .generated _ _ => True
  | .static space _ => ∃ name, space = namespaceOf name
  | .name text => isSymbol text = true
  | .within function label => isSymbol function = true ∧ isSymbol label = true

namespace Symbol

theorem toList_static (space : String) (index : Word) :
    (static space index).text.toList = space.toList ++ '.' :: index.text.toList := by
  simp [text]

theorem dot_mem_static (space : String) (index : Word) :
    '.' ∈ (static space index).text.toList := by
  rw [toList_static]
  exact List.mem_append_right _ List.mem_cons_self

theorem toList_generated (kind : LabelKind) (serial : Nat) :
    (generated kind serial).text.toList = kind.text.toList ++ (Decimal.text serial).toList := by
  simp [text]

theorem symbolText_pointer (p : Pointer) : SymbolText (pointer p).text.toList := by
  cases p <;> exact .of_all (by decide) (by decide)

theorem symbolText_register (n : Nat) : SymbolText (register n).text.toList := by
  have hr : SymbolText "R".toList := .of_all (by decide) (by decide)
  rw [text, String.toList_append]
  exact hr.append fun c hc => isSymbolChar_decimal hc

/-- The dot of a static cell makes up for an empty namespace. -/
theorem symbolText_static (h : space = "" ∨ SymbolText space.toList) (index : Word) :
    SymbolText (static space index).text.toList := by
  have hindex : ∀ c ∈ '.' :: index.text.toList, isSymbolChar c = true := by
    intro c hc
    rcases List.mem_cons.mp hc with rfl | hc
    · decide
    · exact isSymbolChar_decimal hc
  rw [toList_static]
  rcases h with rfl | h
  · exact .of_all (List.all_eq_true.mpr hindex) (by decide)
  · exact h.append hindex

theorem symbolText_within (hfunction : SymbolText function.toList)
    (hlabel : SymbolText label.toList) : SymbolText (within function label).text.toList := by
  have hdollar : ∀ c ∈ "$".toList, isSymbolChar c = true := List.all_eq_true.mp (by decide)
  rw [text, String.toList_append, String.toList_append]
  exact (hfunction.append hdollar).append hlabel.chars

theorem symbolText_generated (kind : LabelKind) (serial : Nat) :
    SymbolText (generated kind serial).text.toList := by
  have hkind : SymbolText kind.text.toList := by
    cases kind <;> exact .of_all (by decide) (by decide)
  rw [toList_generated]
  exact hkind.append fun c hc => isSymbolChar_decimal hc

theorem WellFormed.symbolText {s : Symbol} (h : s.WellFormed) : SymbolText s.text.toList := by
  cases s with
  | pointer p => exact symbolText_pointer p
  | register n => exact symbolText_register n
  | static space index =>
    obtain ⟨name, rfl⟩ := h
    exact symbolText_static (namespaceOf_text name) index
  | name text => exact (isSymbol_iff.mp h).1
  | within function label =>
    exact symbolText_within (isSymbol_iff.mp h.1).1 (isSymbol_iff.mp h.2).1
  | generated kind serial => exact symbolText_generated kind serial

/-! ### Generated labels -/

theorem head_generated (kind : LabelKind) (serial : Nat) :
    (generated kind serial).text.toList.head? = some '$' := by
  rw [toList_generated]
  cases kind <;> rfl

theorem dot_notMem_generated (kind : LabelKind) (serial : Nat) :
    '.' ∉ (generated kind serial).text.toList := by
  rw [toList_generated, List.mem_append]
  rintro (h | h)
  · revert h
    cases kind <;> decide
  · exact absurd (Decimal.isDigit_of_mem h) (by decide)

theorem generated_inj (h : (generated kind serial).text = (generated kind' serial').text) :
    kind = kind' ∧ serial = serial' := by
  have hchars := congrArg String.toList h
  rw [toList_generated, toList_generated] at hchars
  have hkind : kind = kind' := by
    have hsecond := congrArg (fun cs => cs[1]?) hchars
    cases kind <;> cases kind' <;> first | rfl | exact absurd hsecond (by simp [LabelKind.text])
  subst hkind
  exact ⟨rfl, Decimal.text_inj (String.toList_inj.mp (List.append_cancel_left hchars))⟩

/-- No symbol of another kind has the text of a generated label. -/
theorem text_eq_generated {s : Symbol} (h : s.WellFormed) :
    s.text = (generated kind serial).text ↔ s = generated kind serial := by
  refine ⟨fun htext => ?_, fun he => congrArg text he⟩
  have hhead : s.text.toList.head? = some '$' := htext ▸ head_generated kind serial
  cases s with
  | pointer p => cases p <;> cases hhead
  | register n => simp [text] at hhead
  | static space index =>
    exact absurd (htext ▸ dot_mem_static space index) (dot_notMem_generated kind serial)
  | name text => exact absurd hhead (isSymbol_iff.mp h).2
  | within function label =>
    rw [text, String.toList_append, String.toList_append, List.append_assoc, List.head?_append,
      Option.or_eq_some_iff] at hhead
    obtain ⟨hfunction, hdollar⟩ := isSymbol_iff.mp h.1
    rcases hhead with hhead | ⟨hnone, _⟩
    · exact absurd hhead hdollar
    · exact absurd (List.head?_eq_none_iff.mp hnone) hfunction.nonempty
  | generated kind' serial' =>
    obtain ⟨rfl, rfl⟩ := generated_inj htext
    rfl

/-! ### Static cells -/

/-- A text is cut in one way at its last dot. -/
theorem append_dot_inj {xs ys ds es : List Char} (hds : '.' ∉ ds) (hes : '.' ∉ es)
    (h : xs ++ '.' :: ds = ys ++ '.' :: es) : xs = ys ∧ ds = es := by
  rcases List.append_eq_append_iff.mp h with ⟨as, rfl, has⟩ | ⟨as, rfl, has⟩
  · cases as with
    | nil => exact ⟨by simp, (List.cons.inj has).2⟩
    | cons a as => exact absurd ((List.cons.inj has).2 ▸ by simp) hds
  · cases as with
    | nil => exact ⟨by simp, (List.cons.inj has).2.symm⟩
    | cons a as => exact absurd ((List.cons.inj has).2 ▸ by simp) hes

theorem dot_notMem_word (w : Word) : '.' ∉ w.text.toList :=
  fun h => absurd (Decimal.isDigit_of_mem h) (by decide)

theorem static_text_inj (h : (static space index).text = (static space' index').text) :
    space = space' ∧ index = index' := by
  have hchars := congrArg String.toList h
  rw [toList_static, toList_static] at hchars
  obtain ⟨hspace, hindex⟩ := append_dot_inj (dot_notMem_word _) (dot_notMem_word _) hchars
  exact ⟨String.toList_inj.mp hspace, Word.text_inj (String.toList_inj.mp hindex)⟩

end Symbol

/-! ## Statements -/

namespace Statement

/-- The names in a statement's symbol are those of an author or a module. -/
def WellFormed : Statement → Prop
  | .symbol s | .label s => s.WellFormed
  | .number _ | .compute .. => True

theorem toList_symbol (s : Symbol) : (symbol s).text.toList = '@' :: s.text.toList := by
  simp [text]

theorem toList_label (s : Symbol) : (label s).text.toList = '(' :: (s.text.toList ++ [')']) := by
  simp [text]

theorem toList_number (w : Word) : (number w).text.toList = '@' :: w.text.toList := by
  simp [text]

theorem head_comp (comp : Comp) :
    ∃ c cs, comp.text.toList = c :: cs ∧ c ≠ '@' ∧ c ≠ '(' ∧ c ≠ '/' := by
  cases comp with
  | zero | one | minusOne => exact ⟨_, _, rfl, by decide⟩
  | reg r | not r | neg r | succ r | pred r => cases r <;> exact ⟨_, _, rfl, by decide⟩
  | left op y | right op y => cases op <;> cases y <;> exact ⟨_, _, rfl, by decide⟩

/-- A computation looks like no other kind of line. -/
theorem head_compute (dest : Dest) (comp : Comp) (condition : Jump) :
    ∃ c cs, (compute dest comp condition).text.toList = c :: cs ∧ c ≠ '@' ∧ c ≠ '(' ∧ c ≠ '/' := by
  obtain ⟨c, cs, hcomp, hc⟩ := head_comp comp
  rw [text, String.toList_append, String.toList_append, hcomp]
  cases dest with
  | none => exact ⟨c, _, rfl, hc⟩
  | m | d | dm | a | am | ad | adm => exact ⟨_, _, rfl, by decide⟩

/-- Only a label declaration looks like one. -/
theorem text_eq_label {s : Statement} :
    s.text = "(" ++ name ++ ")" ↔ ∃ t : Symbol, s = .label t ∧ t.text = name := by
  constructor
  · intro htext
    have hchars : s.text.toList = '(' :: (name.toList ++ [')']) := by simp [htext]
    cases s with
    | number w =>
      rw [toList_number] at hchars
      exact absurd (List.cons.inj hchars).1 (by decide)
    | symbol t =>
      rw [toList_symbol] at hchars
      exact absurd (List.cons.inj hchars).1 (by decide)
    | label t =>
      rw [toList_label] at hchars
      have hname := List.append_cancel_right (List.cons.inj hchars).2
      exact ⟨t, rfl, String.toList_inj.mp hname⟩
    | compute dest comp condition =>
      obtain ⟨c, cs, hcompute, _, hc, _⟩ := head_compute dest comp condition
      rw [hcompute] at hchars
      exact absurd (List.cons.inj hchars).1 hc
  · rintro ⟨t, rfl, rfl⟩
    rfl

theorem text_eq_label_generated {s : Statement} (h : s.WellFormed) :
    s.text = (label (.generated kind serial)).text ↔ s = .label (.generated kind serial) := by
  refine ⟨fun htext => ?_, fun he => congrArg text he⟩
  obtain ⟨t, rfl, hsymbol⟩ := text_eq_label.mp htext
  rw [(Symbol.text_eq_generated h).mp hsymbol]

theorem text_eq_symbol_generated {s : Statement} (h : s.WellFormed) :
    s.text = (symbol (.generated kind serial)).text ↔ s = .symbol (.generated kind serial) := by
  refine ⟨fun htext => ?_, fun he => congrArg text he⟩
  have hchars := congrArg String.toList htext
  rw [toList_symbol] at hchars
  cases s with
  | number w =>
    rw [toList_number] at hchars
    have hdollar := congrArg List.head? (List.cons.inj hchars).2
    rw [Symbol.head_generated] at hdollar
    exact absurd (Decimal.isDigit_of_mem (List.mem_of_head? hdollar)) (by decide)
  | symbol t =>
    rw [toList_symbol] at hchars
    rw [(Symbol.text_eq_generated h).mp (String.toList_inj.mp (List.cons.inj hchars).2)]
  | label t =>
    rw [toList_label] at hchars
    exact absurd (List.cons.inj hchars).1 (by decide)
  | compute dest comp condition =>
    obtain ⟨c, cs, hcompute, hc, _⟩ := head_compute dest comp condition
    rw [hcompute] at hchars
    exact absurd (List.cons.inj hchars).1 hc

end Statement

end HackVM
