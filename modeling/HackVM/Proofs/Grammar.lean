import Mathlib.Data.List.Forall2
import Mathlib.Data.List.Induction
import HackVM.Proofs.WordedLines

/-! The grammar of commands.

Which words make up a command is said here without the reader: `Command.Spelled` gives the form of
every command over its words, and `Command.Misspelled` what is wrong with words that have no such
form, the earlier faults before the later ones. Each reader of a single word accepts exactly the
words of its kind (`Keyword.read?_eq_some`, `Segment.read_eq_ok`, `Word.read_eq_ok`,
`readSymbol_eq_ok_iff`), so that reading a line and the grammar come to the same
(`read_follows_grammar`). -/

namespace HackVM

/-! ## Kinds of words -/

/-- The token is the word in any mixture of cases. Words of the language have no capitals. -/
def Spells (token word : String) : Prop :=
  List.Forall₂ (fun c w => c = w ∨ c = w.toUpper) token.toList word.toList

/-- A run of digits and the number that it stands for. There may be zeros in front. -/
inductive Numeral : List Char → Nat → Prop
  | single : d < 10 → Numeral [d.digitChar] d
  | snoc : Numeral cs n → d < 10 → Numeral (cs ++ [d.digitChar]) (10 * n + d)

def letterChars : List Char :=
  "ABCDEFGHIJKLMNOPQRSTUVWXYZabcdefghijklmnopqrstuvwxyz".toList

def digitChars : List Char :=
  "0123456789".toList

/-- A name as an author may write it. -/
structure IsName (name : String) : Prop where
  nonempty : name ≠ ""
  chars : ∀ c ∈ name.toList, c ∈ letterChars ++ digitChars ++ ['_', '.', '$', ':']
  head : ∀ c, name.toList.head? = some c → c ∉ '$' :: digitChars

/-! ## Commands -/

namespace Command

/-- The words behind `push` or `pop` name a cell that the segment has. -/
structure SpellsCell (first second : String) (segment : Segment) (index : Word) : Prop where
  spells : Spells first segment.text
  numeral : Numeral second.toList index.toNat
  limit : index ≤ segment.maxIndex

/-- The words make up the command. -/
inductive Spelled : List String → Command → Prop
  | operation : Spells word op.text → Spelled [word] (.arithmetic op)
  | push {segment : Segment} : Spells word "push" → SpellsCell first second segment index →
      Spelled [word, first, second] (.push segment index)
  | pop {segment : Segment} : Spells word "pop" → SpellsCell first second segment index →
      Spelled [word, first, second] (.pop segment index)
  | label : Spells word "label" → IsName name → Spelled [word, name] (.label name)
  | goto : Spells word "goto" → IsName name → Spelled [word, name] (.goto name)
  | ifGoto : Spells word "if-goto" → IsName name → Spelled [word, name] (.ifGoto name)
  | function : Spells word "function" → IsName name → Numeral second.toList locals.toNat →
      Spelled [word, name, second] (.function name locals)
  | call : Spells word "call" → IsName name → Numeral second.toList arguments.toNat →
      arguments.toNat ≤ 32767 → Spelled [word, name, second] (.call name arguments)
  | ret : Spells word "return" → Spelled [word] .ret

/-- The words make up no command, for this reason and with this message. A reason holds only where
those before it do not. -/
inductive Misspelled : List String → Fault → String → Prop
  | empty : Misspelled [] (.malformed .empty) ("malformed command: " ++ "empty command")
  | keyword : (∀ keyword : Keyword, ¬ Spells word keyword.text) →
      Misspelled (word :: words) (.unknownCommand word) ("unknown command `" ++ word ++ "`")
  | count : Spells word (Keyword.text keyword) → words.length ≠ keyword.arity →
      Misspelled (word :: words)
        (.malformed (.argumentCount keyword.text keyword.arity words.length))
        ("malformed command: " ++ ("`" ++ keyword.text ++ "` takes " ++
          Decimal.text keyword.arity ++ " argument(s), found " ++ Decimal.text words.length))
  | segment : keyword ∈ [Keyword.push, .pop] → Spells word keyword.text →
      (∀ segment : Segment, ¬ Spells first segment.text) →
      Misspelled [word, first, second] (.unknownSegment first) ("unknown segment `" ++ first ++ "`")
  | index {segment : Segment} : keyword ∈ [Keyword.push, .pop] → Spells word keyword.text →
      Spells first segment.text → (¬ ∃ n ≤ 65535, Numeral second.toList n) →
      Misspelled [word, first, second] (.malformed (.notNumber second))
        ("malformed command: " ++ ("expected a number, found `" ++ second ++ "`"))
  | limit {segment : Segment} : keyword ∈ [Keyword.push, .pop] → Spells word keyword.text →
      Spells first segment.text → Numeral second.toList index.toNat →
      segment.maxIndex < index →
      Misspelled [word, first, second] (.indexOutOfRange segment index)
        ("index " ++ index.text ++ " is out of range for segment " ++ segment.text ++ " (max " ++
          segment.maxIndex.text ++ ")")
  | name : keyword ∈ [Keyword.label, .goto, .ifGoto, .function, .call] →
      Spells word keyword.text → words.length + 1 = keyword.arity → ¬ IsName name →
      Misspelled (word :: name :: words) (.malformed (.notSymbol name))
        ("malformed command: " ++ ("invalid symbol `" ++ name ++ "`"))
  | number : keyword ∈ [Keyword.function, .call] → Spells word keyword.text → IsName name →
      (¬ ∃ n ≤ 65535, Numeral second.toList n) →
      Misspelled [word, name, second] (.malformed (.notNumber second))
        ("malformed command: " ++ ("expected a number, found `" ++ second ++ "`"))
  | arguments : Spells word "call" → IsName name → Numeral second.toList arguments.toNat →
      32767 < arguments.toNat →
      Misspelled [word, name, second] (.malformed (.tooManyArguments arguments))
        ("malformed command: " ++ ("argument count " ++ arguments.text ++ " exceeds " ++ "32767"))

end Command

/-! ## Words in any case -/

theorem toNat_toLower (c : Char) : c.toLower.toNat =
    if 65 ≤ c.toNat ∧ c.toNat ≤ 90 then c.toNat + 32 else c.toNat := by
  unfold Char.toLower
  split
  · rename_i h
    have hrange : 65 ≤ c.toNat ∧ c.toNat ≤ 90 := h
    rw [if_pos hrange]
    change (c.toNat + 32) % 2 ^ 32 = c.toNat + 32
    omega
  · rename_i h
    exact (if_neg h).symm

theorem toNat_toUpper (c : Char) : c.toUpper.toNat =
    if 97 ≤ c.toNat ∧ c.toNat ≤ 122 then c.toNat - 32 else c.toNat := by
  unfold Char.toUpper
  split
  · rename_i h
    have hrange : 97 ≤ c.toNat ∧ c.toNat ≤ 122 := h
    have hoffset : ('A'.val - 'a'.val).toNat = 4294967264 := by decide
    have hsum := UInt32.toNat_add c.val ('A'.val - 'a'.val)
    rw [hoffset] at hsum
    rw [if_pos hrange]
    refine hsum.trans ?_
    change (c.toNat + _) % _ = _
    omega
  · rename_i h
    exact (if_neg h).symm

theorem toLower_eq_iff {c w : Char} (h : w.toLower = w) :
    c.toLower = w ↔ c = w ∨ c = w.toUpper := by
  have hw := toNat_toLower w
  rw [h] at hw
  simp only [← Char.toNat_inj, toNat_toLower, toNat_toUpper]
  split at hw <;> split <;> split <;> omega

theorem forall₂_iff_map_toLower {cs ws : List Char} (h : ws.map Char.toLower = ws) :
    List.Forall₂ (fun c w => c = w ∨ c = w.toUpper) cs ws ↔ cs.map Char.toLower = ws := by
  induction ws generalizing cs with
  | nil => simp
  | cons w ws ih =>
    rw [List.map_cons, List.cons.injEq] at h
    cases cs with
    | nil => simp
    | cons c cs =>
      rw [List.forall₂_cons, List.map_cons, List.cons.injEq, toLower_eq_iff h.1, ih h.2]

theorem spells_iff {word : String} (h : Text.lower word = word) (token : String) :
    Spells token word ↔ Text.lower token = word := by
  rw [← String.toList_inj, Text.lower, String.toList_ofList] at h ⊢
  exact forall₂_iff_map_toLower h

theorem Segment.read?_eq_some {segment : Segment} :
    read? token = some segment ↔ Spells token segment.text := by
  have hcase : Text.lower segment.text = segment.text := by cases segment <;> decide
  rw [spells_iff hcase, read?]
  constructor
  · intro h
    split at h <;> cases h <;> (rename_i htoken; exact htoken)
  · intro h
    rw [h]
    cases segment <;> rfl

theorem Operation.read?_eq_some {op : Operation} :
    read? token = some op ↔ Spells token op.text := by
  have hcase : Text.lower op.text = op.text := by cases op <;> decide
  rw [spells_iff hcase, read?]
  constructor
  · intro h
    split at h <;> cases h <;> (rename_i htoken; exact htoken)
  · intro h
    rw [h]
    cases op <;> rfl

theorem Keyword.read?_eq_some {keyword : Keyword} :
    read? word = some keyword ↔ Spells word keyword.text := by
  have hcase : Text.lower keyword.text = keyword.text := by
    cases keyword with
    | operation op => cases op <;> decide
    | _ => decide
  constructor
  · intro h
    rw [read?] at h
    split at h
    case h_9 =>
      obtain ⟨op, hread, rfl⟩ := Option.map_eq_some_iff.mp h
      exact Operation.read?_eq_some.mp hread
    all_goals
      rename_i hword
      cases h
      exact (spells_iff hcase word).mpr hword
  · intro h
    have hword := (spells_iff hcase word).mp h
    cases keyword with
    | operation op =>
      -- no operation is called like a keyword of its own
      rw [read?, hword, Operation.read?_eq_some.mpr h]
      cases op <;> rfl
    | _ =>
      rw [read?, hword]
      rfl

/-! ## Numbers -/

theorem digitChar_of_isDigit {c : Char} (h : c.isDigit = true) :
    ∃ d < 10, c = d.digitChar ∧ c.toNat - '0'.toNat = d := by
  have hrange : 48 ≤ c.toNat ∧ c.toNat ≤ 57 := Char.isDigit_iff_toNat.mp h
  have hlt : c.toNat - 48 < 10 := by omega
  refine ⟨c.toNat - 48, hlt, Char.toNat_inj.mp ?_, rfl⟩
  rw [Nat.toNat_digitChar_of_lt_ten hlt]
  omega

theorem ofDigitChars_snoc (cs : List Char) (h : d < 10) :
    Nat.ofDigitChars 10 (cs ++ [d.digitChar]) 0 = 10 * Nat.ofDigitChars 10 cs 0 + d := by
  rw [Nat.ofDigitChars_append, Nat.ofDigitChars_cons, Nat.ofDigitChars_nil]
  exact congrArg _ (Nat.toNat_digitChar_sub_48_of_lt_ten h)

/-- A numeral is a run of digits, read from the left. -/
theorem numeral_iff : Numeral cs n ↔
    cs ≠ [] ∧ cs.all Char.isDigit = true ∧ Nat.ofDigitChars 10 cs 0 = n := by
  constructor
  · intro h
    induction h with
    | @single d hd =>
      refine ⟨by simp, by simp [Nat.isDigit_digitChar, hd], ?_⟩
      simpa using ofDigitChars_snoc [] hd
    | snoc _ hd ih =>
      obtain ⟨_, hdigits, hvalue⟩ := ih
      refine ⟨by simp, ?_, ?_⟩
      · simp [List.all_append, hdigits, Nat.isDigit_digitChar, hd]
      · rw [ofDigitChars_snoc _ hd, hvalue]
  · rintro ⟨hne, hdigits, rfl⟩
    induction cs using List.reverseRecOn with
    | nil => exact absurd rfl hne
    | append_singleton cs c ih =>
      rw [List.all_append, Bool.and_eq_true] at hdigits
      obtain ⟨d, hd, rfl, _⟩ := digitChar_of_isDigit (by simpa using hdigits.2)
      rw [ofDigitChars_snoc cs hd]
      by_cases hcs : cs = []
      · subst hcs
        simpa using Numeral.single hd
      · exact .snoc (ih hcs hdigits.1) hd

theorem Decimal.read?_eq_some {text : String} :
    read? bound text = some n ↔ Numeral text.toList n ∧ n ≤ bound := by
  rw [numeral_iff]
  simp only [read?]
  split
  · grind
  · grind

theorem Word.read?_eq_some {word : Word} :
    read? token = some word ↔ Numeral token.toList word.toNat := by
  rw [read?, Option.map_eq_some_iff]
  constructor
  · rintro ⟨n, hread, rfl⟩
    obtain ⟨hnumeral, hbound⟩ := Decimal.read?_eq_some.mp hread
    rw [BitVec.toNat_ofNat, Nat.mod_eq_of_lt (by omega)]
    exact hnumeral
  · intro hnumeral
    have hbound : word.toNat ≤ 65535 := Nat.le_of_lt_succ word.isLt
    exact ⟨word.toNat, Decimal.read?_eq_some.mpr ⟨hnumeral, hbound⟩, BitVec.ofNat_toNat ..⟩

theorem exists_numeral_iff :
    (∃ n ≤ 65535, Numeral cs n) ↔ ∃ word : Word, Numeral cs word.toNat := by
  constructor
  · rintro ⟨n, hbound, hnumeral⟩
    refine ⟨BitVec.ofNat 16 n, ?_⟩
    rw [BitVec.toNat_ofNat, Nat.mod_eq_of_lt (by omega)]
    exact hnumeral
  · rintro ⟨word, hnumeral⟩
    exact ⟨word.toNat, Nat.le_of_lt_succ word.isLt, hnumeral⟩

/-! ## Names -/

theorem toNat_lt_of_isSymbolChar {c : Char} (h : isSymbolChar c = true) : c.toNat < 128 := by
  rw [isSymbolChar, Bool.or_eq_true] at h
  rcases h with h | h
  · delta Char.isAlphanum Char.isAlpha Char.isUpper Char.isLower Char.isDigit at h
    simp [UInt32.le_iff_toNat_le] at h
    omega
  · have hmem := List.contains_iff_mem.mp h
    fin_cases hmem <;> decide

theorem isSymbolChar_iff {c : Char} :
    isSymbolChar c = true ↔ c ∈ letterChars ++ digitChars ++ ['_', '.', '$', ':'] := by
  have hlisted : (letterChars ++ digitChars ++ ['_', '.', '$', ':']).all isSymbolChar = true := by
    decide
  have hascii : ∀ n < 128, isSymbolChar (Char.ofNat n) = true →
      Char.ofNat n ∈ letterChars ++ digitChars ++ ['_', '.', '$', ':'] := by
    decide +kernel
  refine ⟨fun h => ?_, List.all_eq_true.mp hlisted c⟩
  have hmem := hascii c.toNat (toNat_lt_of_isSymbolChar h)
  rw [Char.ofNat_toNat] at hmem
  exact hmem h

theorem isDigit_iff {c : Char} : c.isDigit = true ↔ c ∈ digitChars := by
  have hlisted : digitChars.all Char.isDigit = true := by decide
  have hdigits : ∀ d < 10, d.digitChar ∈ digitChars := by decide
  refine ⟨fun h => ?_, List.all_eq_true.mp hlisted c⟩
  obtain ⟨d, hd, rfl, _⟩ := digitChar_of_isDigit h
  exact hdigits d hd

theorem isSymbol_iff_isName : isSymbol name = true ↔ IsName name := by
  rw [isSymbol_iff]
  constructor
  · rintro ⟨htext, hdollar⟩
    refine ⟨fun hempty => htext.nonempty (hempty ▸ rfl), ?_, fun c hc hmem => ?_⟩
    · exact fun c hc => isSymbolChar_iff.mp (htext.chars c hc)
    · rcases List.mem_cons.mp hmem with rfl | hmem
      · exact hdollar hc
      · exact Bool.eq_false_iff.mp (htext.head c hc) (isDigit_iff.mpr hmem)
  · rintro ⟨hne, hchars, hhead⟩
    refine ⟨⟨fun hnil => hne (String.toList_eq_nil_iff.mp hnil), ?_, fun c hc => ?_⟩, ?_⟩
    · exact fun c hc => isSymbolChar_iff.mpr (hchars c hc)
    · rw [Bool.eq_false_iff, ne_eq, isDigit_iff]
      exact fun hmem => hhead c hc (List.mem_cons_of_mem _ hmem)
    · exact fun hc => hhead '$' hc List.mem_cons_self

/-! ## Readers of single words -/

theorem bind_eq_error {x : Except ε α} {f : α → Except ε β} :
    (x >>= f) = .error e ↔ x = .error e ∨ ∃ a, x = .ok a ∧ f a = .error e := by
  cases x <;> simp [bind, Except.bind]

theorem map_eq_error {x : Except ε α} {f : α → β} : x.map f = .error e ↔ x = .error e := by
  cases x <;> simp [Except.map]

theorem Segment.read_eq_ok {segment : Segment} :
    read token = .ok segment ↔ Spells token segment.text := by
  rw [← read?_eq_some, read]
  cases read? token <;> simp

theorem Segment.read_eq_error : read token = .error fault ↔
    (∀ segment : Segment, ¬ Spells token segment.text) ∧ fault = .unknownSegment token := by
  simp only [← read?_eq_some, read]
  cases read? token <;> simp [eq_comm]

theorem Word.read_eq_ok {word : Word} :
    read token = .ok word ↔ Numeral token.toList word.toNat := by
  rw [← read?_eq_some, read]
  cases read? token <;> simp

theorem Word.read_eq_error : read token = .error fault ↔
    (¬ ∃ n ≤ 65535, Numeral token.toList n) ∧ fault = .malformed (.notNumber token) := by
  simp only [exists_numeral_iff, ← read?_eq_some, read]
  cases read? token <;> simp [eq_comm]

theorem readSymbol_eq_ok_iff : readSymbol token = .ok name ↔ IsName token ∧ name = token := by
  rw [← isSymbol_iff_isName, readSymbol]
  split <;> simp [*, eq_comm]

theorem readSymbol_eq_error :
    readSymbol token = .error fault ↔ ¬ IsName token ∧ fault = .malformed (.notSymbol token) := by
  rw [← isSymbol_iff_isName, readSymbol]
  split <;> simp [*, eq_comm]

theorem Segment.checkIndex_eq_error {segment : Segment} {index : Word} :
    segment.checkIndex index = .error fault ↔
      segment.maxIndex < index ∧ fault = .indexOutOfRange segment index := by
  rw [checkIndex]
  split
  · rename_i h
    simp [BitVec.not_lt.mpr h]
  · rename_i h
    simp [BitVec.not_le.mp h, eq_comm]

theorem checkArguments_eq_error {count : Word} : checkArguments count = .error fault ↔
    32767 < count.toNat ∧ fault = .malformed (.tooManyArguments count) := by
  have hlimit : ¬ count ≤ Word.maxLiteral ↔ 32767 < count.toNat := BitVec.not_le
  rw [checkArguments, ← hlimit]
  split <;> simp [*, eq_comm]

/-! ## Readers of several words -/

theorem readCell_eq_ok_iff : readCell first second = .ok cell ↔
    Command.SpellsCell first second cell.1 cell.2 := by
  rw [readCell, bind_eq_ok]
  constructor
  · rintro ⟨segment, hsegment, h⟩
    obtain ⟨index, hindex, h⟩ := bind_eq_ok.mp h
    obtain ⟨_, hlimit, h⟩ := bind_eq_ok.mp h
    cases h
    exact ⟨Segment.read_eq_ok.mp hsegment, Word.read_eq_ok.mp hindex, checkIndex_eq_ok hlimit⟩
  · rintro ⟨hsegment, hindex, hlimit⟩
    refine ⟨cell.1, Segment.read_eq_ok.mpr hsegment, bind_eq_ok.mpr ?_⟩
    exact ⟨cell.2, Word.read_eq_ok.mpr hindex, bind_eq_ok.mpr ⟨(), if_pos hlimit, rfl⟩⟩

/-- The segment is looked at before the index, and the index before its limit. -/
theorem readCell_eq_error : readCell first second = .error fault ↔
    ((∀ segment : Segment, ¬ Spells first segment.text) ∧ fault = .unknownSegment first) ∨
    ∃ segment : Segment, Spells first segment.text ∧
      (((¬ ∃ n ≤ 65535, Numeral second.toList n) ∧ fault = .malformed (.notNumber second)) ∨
      ∃ index : Word, Numeral second.toList index.toNat ∧ segment.maxIndex < index ∧
        fault = .indexOutOfRange segment index) := by
  simp only [readCell, bind_eq_error, Segment.read_eq_error, Segment.read_eq_ok,
    Word.read_eq_error, Word.read_eq_ok, Segment.checkIndex_eq_error]
  simp [pure, Except.pure]

/-- A name, then a number, then what a command makes of them. -/
theorem numbered_eq_ok {f : String → Word → Except Fault Command} :
    (readSymbol name >>= fun name => Word.read second >>= f name) = .ok result ↔
      IsName name ∧ ∃ number : Word, Numeral second.toList number.toNat ∧
        f name number = .ok result := by
  simp only [bind_eq_ok, readSymbol_eq_ok_iff, Word.read_eq_ok]
  constructor
  · rintro ⟨_, ⟨hname, rfl⟩, hnumber⟩
    exact ⟨hname, hnumber⟩
  · rintro ⟨hname, hnumber⟩
    exact ⟨name, ⟨hname, rfl⟩, hnumber⟩

/-- The name is looked at before the number. -/
theorem numbered_eq_error {f : String → Word → Except Fault Command} :
    (readSymbol name >>= fun name => Word.read second >>= f name) = .error fault ↔
      (¬ IsName name ∧ fault = .malformed (.notSymbol name)) ∨
      IsName name ∧
        (((¬ ∃ n ≤ 65535, Numeral second.toList n) ∧ fault = .malformed (.notNumber second)) ∨
        ∃ number : Word, Numeral second.toList number.toNat ∧ f name number = .error fault) := by
  simp only [bind_eq_error, readSymbol_eq_error, readSymbol_eq_ok_iff, Word.read_eq_error,
    Word.read_eq_ok]
  constructor
  · rintro (hsymbol | ⟨_, ⟨hname, rfl⟩, hnumber⟩)
    · exact .inl hsymbol
    · exact .inr ⟨hname, hnumber⟩
  · rintro (hsymbol | ⟨hname, hnumber⟩)
    · exact .inl hsymbol
    · exact .inr ⟨name, ⟨hname, rfl⟩, hnumber⟩

/-! ## Words behind a keyword -/

namespace Keyword

theorem command_of_length_ne {keyword : Keyword} (h : words.length ≠ keyword.arity) :
    keyword.command words =
      .error (.malformed (.argumentCount keyword.text keyword.arity words.length)) := by
  unfold command
  split
  case h_10 => rfl
  all_goals exact absurd rfl h

theorem spelled_of_command {keyword : Keyword} (hword : Spells word keyword.text)
    (h : keyword.command words = .ok result) : Command.Spelled (word :: words) result := by
  unfold command at h
  split at h
  · obtain ⟨_, hcell, rfl⟩ := map_eq_ok.mp h
    exact .push hword (readCell_eq_ok_iff.mp hcell)
  · obtain ⟨_, hcell, rfl⟩ := map_eq_ok.mp h
    exact .pop hword (readCell_eq_ok_iff.mp hcell)
  · obtain ⟨_, hname, rfl⟩ := map_eq_ok.mp h
    obtain ⟨hname, rfl⟩ := readSymbol_eq_ok_iff.mp hname
    exact .label hword hname
  · obtain ⟨_, hname, rfl⟩ := map_eq_ok.mp h
    obtain ⟨hname, rfl⟩ := readSymbol_eq_ok_iff.mp hname
    exact .goto hword hname
  · obtain ⟨_, hname, rfl⟩ := map_eq_ok.mp h
    obtain ⟨hname, rfl⟩ := readSymbol_eq_ok_iff.mp hname
    exact .ifGoto hword hname
  · obtain ⟨hname, locals, hlocals, h⟩ := numbered_eq_ok.mp h
    cases h
    exact .function hword hname hlocals
  · obtain ⟨hname, arguments, harguments, h⟩ := numbered_eq_ok.mp h
    obtain ⟨_, hlimit, h⟩ := bind_eq_ok.mp h
    cases h
    exact .call hword hname harguments (checkArguments_eq_ok hlimit)
  · cases h
    exact .ret hword
  · cases h
    exact .operation hword
  · cases h

theorem misspelled_cell {keyword : Keyword} (hkeyword : keyword ∈ [Keyword.push, .pop])
    (hword : Spells word keyword.text) (h : readCell first second = .error fault) :
    Command.Misspelled [word, first, second] fault fault.message := by
  rcases readCell_eq_error.mp h with ⟨hsegment, rfl⟩ | ⟨segment, hsegment, h⟩
  · exact .segment hkeyword hword hsegment
  rcases h with ⟨hindex, rfl⟩ | ⟨index, hindex, hlimit, rfl⟩
  · exact .index hkeyword hword hsegment hindex
  · exact .limit hkeyword hword hsegment hindex hlimit

/-- Words that are rejected have a fault, and none before it. -/
theorem misspelled_of_command {keyword : Keyword} (hword : Spells word keyword.text)
    (h : keyword.command words = .error fault) :
    Command.Misspelled (word :: words) fault fault.message := by
  by_cases hlength : words.length = keyword.arity
  swap
  · rw [command_of_length_ne hlength] at h
    cases h
    exact .count hword hlength
  cases keyword with
  | push | pop =>
    obtain ⟨first, second, rfl⟩ := List.length_eq_two.mp hlength
    exact misspelled_cell (by simp) hword (map_eq_error.mp h)
  | label | goto | ifGoto =>
    obtain ⟨name, rfl⟩ := List.length_eq_one_iff.mp hlength
    obtain ⟨hname, rfl⟩ := readSymbol_eq_error.mp (map_eq_error.mp h)
    exact .name (by simp) hword rfl hname
  | function =>
    obtain ⟨name, second, rfl⟩ := List.length_eq_two.mp hlength
    rcases numbered_eq_error.mp h with ⟨hname, rfl⟩ | ⟨hname, ⟨hnumber, rfl⟩ | ⟨_, _, h⟩⟩
    · exact .name (by simp) hword rfl hname
    · exact .number (by simp) hword hname hnumber
    · cases h
  | call =>
    obtain ⟨name, second, rfl⟩ := List.length_eq_two.mp hlength
    rcases numbered_eq_error.mp h with ⟨hname, rfl⟩ | ⟨hname, ⟨hnumber, rfl⟩ | ⟨_, harguments, h⟩⟩
    · exact .name (by simp) hword rfl hname
    · exact .number (by simp) hword hname hnumber
    · rcases bind_eq_error.mp h with h | ⟨_, _, h⟩
      · obtain ⟨hlimit, rfl⟩ := checkArguments_eq_error.mp h
        exact .arguments hword hname harguments hlimit
      · cases h
  | ret | operation =>
    obtain rfl := List.length_eq_zero_iff.mp hlength
    cases h

theorem command_of_cell {keyword : Keyword} (hkeyword : keyword ∈ [Keyword.push, .pop])
    (h : readCell first second = .error fault) :
    keyword.command [first, second] = .error fault := by
  fin_cases hkeyword <;> exact map_eq_error.mpr h

theorem command_of_name {keyword : Keyword}
    (hkeyword : keyword ∈ [Keyword.label, .goto, .ifGoto, .function, .call])
    (hlength : words.length + 1 = keyword.arity) (hname : ¬ IsName name) :
    keyword.command (name :: words) = .error (.malformed (.notSymbol name)) := by
  have hread : readSymbol name = .error (.malformed (.notSymbol name)) :=
    readSymbol_eq_error.mpr ⟨hname, rfl⟩
  cases keyword with
  | label | goto | ifGoto =>
    obtain rfl := List.length_eq_zero_iff.mp (Nat.succ.inj hlength)
    exact map_eq_error.mpr hread
  | function | call =>
    obtain ⟨second, rfl⟩ := List.length_eq_one_iff.mp (Nat.succ.inj hlength)
    exact bind_eq_error.mpr (.inl hread)
  | _ => simp at hkeyword

theorem command_of_number {keyword : Keyword} (hkeyword : keyword ∈ [Keyword.function, .call])
    (hname : IsName name) (hnumber : ¬ ∃ n ≤ 65535, Numeral second.toList n) :
    keyword.command [name, second] = .error (.malformed (.notNumber second)) := by
  fin_cases hkeyword <;> exact numbered_eq_error.mpr (.inr ⟨hname, .inl ⟨hnumber, rfl⟩⟩)

end Keyword

/-! ## Lines -/

namespace Command

theorem read_of_keyword (keyword : Keyword) (hwords : Text.words line = word :: words)
    (hword : Spells word keyword.text) : read line = keyword.command words := by
  rw [read, hwords]
  simp only [Keyword.read?_eq_some.mpr hword]

theorem Spelled.read_eq (h : Spelled words command) (hwords : Text.words line = words) :
    read line = .ok command := by
  cases h with
  | operation hword => exact read_of_keyword (.operation _) hwords hword
  | push hword hcell =>
    rw [read_of_keyword .push hwords hword]
    exact map_eq_ok.mpr ⟨(_, _), readCell_eq_ok_iff.mpr hcell, rfl⟩
  | pop hword hcell =>
    rw [read_of_keyword .pop hwords hword]
    exact map_eq_ok.mpr ⟨(_, _), readCell_eq_ok_iff.mpr hcell, rfl⟩
  | label hword hname =>
    rw [read_of_keyword .label hwords hword]
    exact map_eq_ok.mpr ⟨_, readSymbol_eq_ok_iff.mpr ⟨hname, rfl⟩, rfl⟩
  | goto hword hname =>
    rw [read_of_keyword .goto hwords hword]
    exact map_eq_ok.mpr ⟨_, readSymbol_eq_ok_iff.mpr ⟨hname, rfl⟩, rfl⟩
  | ifGoto hword hname =>
    rw [read_of_keyword .ifGoto hwords hword]
    exact map_eq_ok.mpr ⟨_, readSymbol_eq_ok_iff.mpr ⟨hname, rfl⟩, rfl⟩
  | function hword hname hlocals =>
    rw [read_of_keyword .function hwords hword]
    exact numbered_eq_ok.mpr ⟨hname, _, hlocals, rfl⟩
  | call hword hname harguments hlimit =>
    rw [read_of_keyword .call hwords hword]
    refine numbered_eq_ok.mpr ⟨hname, _, harguments, ?_⟩
    exact bind_eq_ok.mpr ⟨(), if_pos hlimit, rfl⟩
  | ret hword => exact read_of_keyword .ret hwords hword

theorem read_eq_ok_iff : read line = .ok command ↔ Spelled (Text.words line) command := by
  refine ⟨fun h => ?_, fun h => h.read_eq rfl⟩
  unfold read at h
  split at h
  · cases h
  · rename_i word words hwords
    rw [hwords]
    split at h
    · rename_i keyword hkeyword
      exact Keyword.spelled_of_command (Keyword.read?_eq_some.mp hkeyword) h
    · cases h

theorem misspelled_of_read (h : read line = .error fault) :
    Misspelled (Text.words line) fault fault.message := by
  unfold read at h
  split at h
  · rename_i hwords
    cases h
    rw [hwords]
    exact .empty
  · rename_i word words hwords
    rw [hwords]
    split at h
    · rename_i keyword hkeyword
      exact Keyword.misspelled_of_command (Keyword.read?_eq_some.mp hkeyword) h
    · rename_i hkeyword
      cases h
      refine .keyword fun keyword hword => ?_
      rw [Keyword.read?_eq_some.mpr hword] at hkeyword
      cases hkeyword

theorem Misspelled.read_eq (h : Misspelled words fault message)
    (hwords : Text.words line = words) : read line = .error fault := by
  cases h with
  | empty => rw [read, hwords]
  | @keyword word _ hword =>
    have hkeyword : Keyword.read? word = none := by
      rw [Option.eq_none_iff_forall_ne_some]
      exact fun keyword h => hword keyword (Keyword.read?_eq_some.mp h)
    rw [read, hwords]
    simp only [hkeyword]
  | count hword hlength =>
    rw [read_of_keyword _ hwords hword]
    exact Keyword.command_of_length_ne hlength
  | segment hkeyword hword hsegment =>
    rw [read_of_keyword _ hwords hword]
    exact Keyword.command_of_cell hkeyword (readCell_eq_error.mpr (.inl ⟨hsegment, rfl⟩))
  | index hkeyword hword hsegment hindex =>
    rw [read_of_keyword _ hwords hword]
    exact Keyword.command_of_cell hkeyword
      (readCell_eq_error.mpr (.inr ⟨_, hsegment, .inl ⟨hindex, rfl⟩⟩))
  | limit hkeyword hword hsegment hindex hlimit =>
    rw [read_of_keyword _ hwords hword]
    exact Keyword.command_of_cell hkeyword
      (readCell_eq_error.mpr (.inr ⟨_, hsegment, .inr ⟨_, hindex, hlimit, rfl⟩⟩))
  | name hkeyword hword hlength hname =>
    rw [read_of_keyword _ hwords hword]
    exact Keyword.command_of_name hkeyword hlength hname
  | number hkeyword hword hname hnumber =>
    rw [read_of_keyword _ hwords hword]
    exact Keyword.command_of_number hkeyword hname hnumber
  | arguments hword hname harguments hlimit =>
    rw [read_of_keyword .call hwords hword]
    refine numbered_eq_error.mpr (.inr ⟨hname, .inr ⟨_, harguments, ?_⟩⟩)
    exact bind_eq_error.mpr (.inl (checkArguments_eq_error.mpr ⟨hlimit, rfl⟩))

theorem Misspelled.message_eq (h : Misspelled words fault message) : fault.message = message := by
  cases h with
  | @arguments _ _ _ arguments =>
    have hlimit : Word.maxLiteral.text = "32767" := by decide
    change "malformed command: " ++ ("argument count " ++ arguments.text ++ " exceeds " ++
      Word.maxLiteral.text) = _
    rw [hlimit]
  | _ => rfl

end Command

/-- A line has one list of words. It is read as a command exactly if these make up this command, and
rejected for a reason exactly if this is the first that they give. -/
theorem read_follows_grammar (line : String) :
    ∃ words, (∀ ws, Text.Worded line.toList ws ↔ ws = words) ∧
      (∀ command, Command.read line = .ok command ↔ Command.Spelled words command) ∧
      ∀ fault message, (Command.read line = .error fault ∧ fault.message = message) ↔
        Command.Misspelled words fault message := by
  refine ⟨Text.words line, fun ws => Text.worded_iff.trans eq_comm,
    fun command => Command.read_eq_ok_iff, fun fault message => ⟨?_, fun h => ?_⟩⟩
  · rintro ⟨hread, rfl⟩
    exact Command.misspelled_of_read hread
  · exact ⟨h.read_eq rfl, h.message_eq⟩

/-- Capitals, tabs and leading zeros do no harm, and of two faults the first counts. -/
theorem read_follows_grammar_tabs :
    (Text.Worded "\tPUSH Local\t007".toList ["PUSH", "Local", "007"] ∧
      Command.read "\tPUSH Local\t007" = .ok (.push .locals 7)) ∧
    (Text.Worded "pop\tHeap x ".toList ["pop", "Heap", "x"] ∧
      Command.read "pop\tHeap x " = .error (.unknownSegment "Heap")) := by
  have hpush : Text.Worded "\tPUSH Local\t007".toList ["PUSH", "Local", "007"] :=
    Text.worded_iff.mpr (by decide)
  have hpop : Text.Worded "pop\tHeap x ".toList ["pop", "Heap", "x"] :=
    Text.worded_iff.mpr (by decide)
  have hspelled : Command.Spelled ["PUSH", "Local", "007"] (.push .locals 7) := by
    refine .push ((spells_iff (by decide) _).mpr (by decide)) ⟨?_, ?_, by decide⟩
    · exact (spells_iff (by decide) _).mpr (by decide)
    · exact numeral_iff.mpr (by decide)
  have hheap (segment : Segment) : ¬ Spells "Heap" segment.text := by
    rw [spells_iff (by cases segment <;> decide)]
    cases segment <;> decide
  have hmisspelled : Command.Misspelled ["pop", "Heap", "x"] (.unknownSegment "Heap") _ :=
    .segment (show Keyword.pop ∈ [.push, .pop] by decide)
      ((spells_iff (by decide) _).mpr (by decide)) hheap
  obtain ⟨words, hwords, hread, _⟩ := read_follows_grammar "\tPUSH Local\t007"
  obtain ⟨words', hwords', _, hfault⟩ := read_follows_grammar "pop\tHeap x "
  obtain rfl := (hwords _).mp hpush
  obtain rfl := (hwords' _).mp hpop
  exact ⟨⟨hpush, (hread _).mpr hspelled⟩, hpop, ((hfault _ _).mpr hmisspelled).1⟩

end HackVM
