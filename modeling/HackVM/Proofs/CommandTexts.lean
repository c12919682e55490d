import HackVM.Proofs.Grammar
import HackVM.Proofs.Loading
import HackVM.Proofs.NormalLines

/-! Commands and their texts.

The commands that a line can hold are those with names of an author and numbers inside their limits
(`Command.Expressible`). The words of such a command make it up again (`Expressible.spelled`) and
stand in its text as they do in a line in normal form (`Expressible.normalLine?_text`), so that
writing a command and reading a line undo each other (`command_text_canonical`). -/

namespace HackVM

namespace Command

/-- The names in a command. -/
def names : Command → List String
  | label name | goto name | ifGoto name | function name _ | call name _ => [name]
  | arithmetic _ | push .. | pop .. | ret => []

/-- A command that a line can hold. -/
structure Expressible (command : Command) : Prop where
  names : ∀ name ∈ command.names, IsName name
  index : ∀ segment index, command = push segment index ∨ command = pop segment index →
    index ≤ segment.maxIndex
  arguments : ∀ name count, command = call name count → count.toNat ≤ 32767

/-- The words that the text of a command consists of. -/
def words : Command → List String
  | arithmetic op => [op.text]
  | push segment index => ["push", segment.text, index.text]
  | pop segment index => ["pop", segment.text, index.text]
  | label name => ["label", name]
  | goto name => ["goto", name]
  | ifGoto name => ["if-goto", name]
  | function name locals => ["function", name, locals.text]
  | call name arguments => ["call", name, arguments.text]
  | ret => ["return"]

theorem text_eq_unwords (command : Command) : command.text = Text.unwords command.words := by
  cases command with
  | arithmetic op => simp [text, words, Text.unwords]
  | ret => rfl
  | _ => rfl

end Command

theorem Spells.refl (word : String) : Spells word word :=
  List.forall₂_same.mpr fun _ _ => .inl rfl

theorem numeral_text (word : Word) : Numeral word.text.toList word.toNat :=
  Word.read?_eq_some.mp (Word.read?_text word)

namespace Command

theorem Expressible.spelled {command : Command} (h : command.Expressible) :
    Spelled command.words command := by
  have hword (word : String) := Spells.refl word
  cases command with
  | arithmetic op => exact .operation (hword _)
  | push segment index =>
    exact .push (hword _) ⟨hword _, numeral_text index, h.index _ _ (.inl rfl)⟩
  | pop segment index =>
    exact .pop (hword _) ⟨hword _, numeral_text index, h.index _ _ (.inr rfl)⟩
  | label name => exact .label (hword _) (h.names name List.mem_cons_self)
  | goto name => exact .goto (hword _) (h.names name List.mem_cons_self)
  | ifGoto name => exact .ifGoto (hword _) (h.names name List.mem_cons_self)
  | function name locals =>
    exact .function (hword _) (h.names name List.mem_cons_self) (numeral_text locals)
  | call name arguments =>
    exact .call (hword _) (h.names name List.mem_cons_self) (numeral_text arguments)
      (h.arguments _ _ rfl)
  | ret => exact .ret (hword _)

/-- The conditions are those that reading a line guarantees. -/
theorem expressible_iff {command : Command} :
    command.Expressible ↔ command.WellFormed ∧ command.Fits := by
  constructor
  · rintro ⟨hnames, hindex, harguments⟩
    cases command with
    | label name | goto name | ifGoto name | function name locals =>
      exact ⟨isSymbol_iff_isName.mpr (hnames name List.mem_cons_self), trivial⟩
    | call name arguments =>
      exact ⟨isSymbol_iff_isName.mpr (hnames name List.mem_cons_self), harguments _ _ rfl⟩
    | push segment index => exact ⟨trivial, hindex _ _ (.inl rfl)⟩
    | pop segment index => exact ⟨trivial, hindex _ _ (.inr rfl)⟩
    | arithmetic | ret => exact ⟨trivial, trivial⟩
  · rintro ⟨hwell, hfits⟩
    refine ⟨fun name hname => ?_, ?_, ?_⟩
    · cases command with
      | label | goto | ifGoto | function | call =>
        cases List.mem_singleton.mp hname
        exact isSymbol_iff_isName.mp hwell
      | _ => cases hname
    · rintro segment index (rfl | rfl)
      · exact hfits
      · exact hfits
    · rintro name count rfl
      exact hfits

end Command

/-! ## Plain words -/

/-- A word that stays as it is in a line in normal form. -/
structure PlainWord (word : String) : Prop where
  nonempty : word ≠ ""
  chars : ∀ c ∈ word.toList, isPlain c = true

namespace PlainWord

theorem of_all (hne : word ≠ "") (hall : word.toList.all isPlain = true) : PlainWord word :=
  ⟨hne, List.all_eq_true.mp hall⟩

theorem of_isName (h : IsName name) : PlainWord name :=
  ⟨h.nonempty, fun c hc => isPlain_of_isSymbolChar (isSymbolChar_iff.mpr (h.chars c hc))⟩

theorem of_numeral (word : Word) : PlainWord word.text where
  nonempty hempty := by
    have hne := (numeral_iff.mp (numeral_text word)).1
    rw [hempty] at hne
    exact hne rfl
  chars c hc := isPlain_of_mem_digits hc

theorem isWord (h : PlainWord word) : Text.IsWord word where
  nonempty := h.nonempty
  chars c hc := by
    have hplain := h.chars c hc
    simp only [isPlain, Bool.and_eq_true, Bool.not_eq_true'] at hplain
    exact hplain.2

theorem uncommented (h : PlainWord word) : Uncommented word.toList := by
  have hslash : ∀ c ∈ word.toList, c ≠ '/' := by
    rintro c hc rfl
    exact absurd (h.chars _ hc) (by decide)
  exact (List.pairwise_of_forall_mem_list fun c hc _ _ => .inl (hslash c hc)).isChain

end PlainWord

/-- Plain words one blank apart are a line in normal form. -/
theorem normalLine?_unwords {ws : List String} (h : ∀ word ∈ ws, PlainWord word) (hne : ws ≠ []) :
    normalLine? (Text.unwords ws) = some (Text.unwords ws) := by
  have hwords : commandWords (Text.unwords ws) = ws := by
    have huncommented : Uncommented (Text.unwords ws).toList :=
      .unwords fun word hword => (h word hword).uncommented
    rw [commandWords, huncommented.beforeComment_eq, String.ofList_toList]
    exact Text.words_unwords fun word hword => (h word hword).isWord
  refine normalLine?_eq_some.mpr ⟨?_, ?_⟩
  · rwa [hwords]
  · rw [hwords]

theorem Segment.plainWord_text (segment : Segment) : PlainWord segment.text := by
  cases segment <;> exact .of_all (by decide) (by decide)

theorem Operation.plainWord_text (op : Operation) : PlainWord op.text := by
  cases op <;> exact .of_all (by decide) (by decide)

/-! ## Reading a text -/

namespace Command.Expressible
variable {command : Command}

theorem plainWord (h : command.Expressible) : ∀ word ∈ command.words, PlainWord word := by
  cases command with
  | arithmetic op =>
    simp only [words, List.forall_mem_cons]
    exact ⟨op.plainWord_text, List.forall_mem_nil _⟩
  | push segment index | pop segment index =>
    simp only [words, List.forall_mem_cons]
    exact ⟨.of_all (by decide) (by decide), segment.plainWord_text, .of_numeral index,
      List.forall_mem_nil _⟩
  | label name | goto name | ifGoto name =>
    have hname := h.names name List.mem_cons_self
    simp only [words, List.forall_mem_cons]
    exact ⟨.of_all (by decide) (by decide), .of_isName hname, List.forall_mem_nil _⟩
  | function name number | call name number =>
    have hname := h.names name List.mem_cons_self
    simp only [words, List.forall_mem_cons]
    exact ⟨.of_all (by decide) (by decide), .of_isName hname, .of_numeral number,
      List.forall_mem_nil _⟩
  | ret =>
    simp only [words, List.forall_mem_cons]
    exact ⟨.of_all (by decide) (by decide), List.forall_mem_nil _⟩

theorem read_text (h : command.Expressible) : read command.text = .ok command := by
  refine h.spelled.read_eq ?_
  rw [text_eq_unwords]
  exact Text.words_unwords fun word hword => (h.plainWord word hword).isWord

theorem normalLine?_text (h : command.Expressible) :
    normalLine? command.text = some command.text := by
  rw [text_eq_unwords]
  refine normalLine?_unwords h.plainWord ?_
  cases command <;> exact List.cons_ne_nil _ _

end Command.Expressible

theorem Command.expressible_of_read {command : Command} (h : read line = .ok command) :
    command.Expressible :=
  expressible_iff.mpr (read_inOrder h)

/-- A command that a line can hold is read from its own text, which is in normal form. A line holds
such commands only, and its command's text is the same for all lines that hold this command and for
no others. -/
theorem command_text_canonical (command : Command) :
    (command.Expressible → Command.read command.text = .ok command ∧
      normalLine? command.text = some command.text) ∧
    ∀ line, Command.read line = .ok command → command.Expressible ∧
      Command.read command.text = .ok command ∧ normalLine? command.text = some command.text ∧
      ∀ line' command', Command.read line' = .ok command' →
        (command'.text = command.text ↔ command' = command) := by
  refine ⟨fun h => ⟨h.read_text, h.normalLine?_text⟩, fun line hread => ?_⟩
  have h := Command.expressible_of_read hread
  refine ⟨h, h.read_text, h.normalLine?_text, fun line' command' hread' => ⟨fun htext => ?_, ?_⟩⟩
  · have htexts := (Command.expressible_of_read hread').read_text
    rw [htext, h.read_text] at htexts
    exact (Except.ok.inj htexts).symm
  · exact congrArg Command.text

/-- A line with capitals, odd blanks and leading zeros, and one that differs in a single letter. -/
theorem command_text_canonical_function :
    Command.read " FuncTION\tMain.f$x:1\u20030065535" = .ok (.function "Main.f$x:1" 65535) ∧
      (Command.function "Main.f$x:1" 65535).Expressible ∧
      Command.read "function Main.f$x:1 65535" = .ok (.function "Main.f$x:1" 65535) ∧
      normalLine? "function Main.f$x:1 65535" = some "function Main.f$x:1 65535" ∧
      Command.read "function main.f$x:1 65535" = .ok (.function "main.f$x:1" 65535) ∧
      (Command.function "main.f$x:1" 65535).text ≠ "function Main.f$x:1 65535" := by
  have hline : Command.read " FuncTION\tMain.f$x:1\u20030065535" =
      .ok (.function "Main.f$x:1" 65535) := by
    decide
  have hother : Command.read "function main.f$x:1 65535" = .ok (.function "main.f$x:1" 65535) := by
    decide
  have htext : (Command.function "Main.f$x:1" 65535).text = "function Main.f$x:1 65535" := by
    decide
  obtain ⟨hexpressible, _, _, hcanonical⟩ := (command_text_canonical _).2 _ hline
  obtain ⟨hread, hnormal⟩ := (command_text_canonical _).1 hexpressible
  have hne := (hcanonical _ _ hother).not.mpr (by decide)
  rw [htext] at hread hnormal hne
  exact ⟨hline, hexpressible, hread, hnormal, hother, hne⟩

end HackVM
