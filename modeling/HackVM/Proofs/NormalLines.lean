import Mathlib.Data.List.Chain
import HackVM.Proofs.LineForms

/-! Texts that are put together come apart again.

The words of a text stand in its normal form one blank apart, and are its words again
(`Text.words_unwords`). As no pair of slashes comes about between them, the normal form of a line
is its own normal form (`normalLine?_idem`). It has no line breaks, so that lines in normal form
survive being joined to a text (`Text.lines_joinLines`), as the lines of a program survive being
written one after another (`Text.lines_unlines`). -/

namespace HackVM

/-! ## Words -/

namespace Text

/-- What a text is cut into: not empty, and free of blanks. -/
structure IsWord (word : String) : Prop where
  nonempty : word ≠ ""
  chars : ∀ c ∈ word.toList, isBlank c = false

theorem isWord_of_mem_words (h : word ∈ words text) : IsWord word where
  nonempty := by
    obtain ⟨piece, hpiece, rfl⟩ := List.mem_map.mp h
    have hne := (List.mem_filter.mp hpiece).2
    simpa [← String.toList_inj] using hne
  chars := not_isBlank_of_mem_words h

theorem IsWord.words_eq (h : IsWord word) : words word = [word] := by
  have hne : word.toList ≠ [] := fun hnil => h.nonempty (String.toList_eq_nil_iff.mp hnil)
  rw [words, List.splitOnP_eq_singleton h.chars]
  simp [hne]

/-- No word runs across a blank. -/
theorem words_append_cons {c : Char} (hc : isBlank c = true) (front rear : List Char) :
    words (String.ofList (front ++ c :: rear)) =
      words (String.ofList front) ++ words (String.ofList rear) := by
  simp only [words, String.toList_ofList]
  rw [List.splitOnP_append_cons _ _ hc, List.filter_append, List.map_append]

theorem words_append_blank (front rear : String) :
    words (front ++ " " ++ rear) = words front ++ words rear := by
  have hchars : front ++ " " ++ rear = String.ofList (front.toList ++ ' ' :: rear.toList) := by
    simp [← String.toList_inj]
  rw [hchars, words_append_cons (by decide), String.ofList_toList, String.ofList_toList]

theorem unwords_cons_cons (word word' : String) (rest : List String) :
    unwords (word :: word' :: rest) = word ++ " " ++ unwords (word' :: rest) :=
  String.intercalate_cons_cons

/-- Words one blank apart are the words of the whole. -/
theorem words_unwords {ws : List String} (h : ∀ word ∈ ws, IsWord word) :
    words (unwords ws) = ws := by
  induction ws with
  | nil => rfl
  | cons word rest ih =>
    rw [List.forall_mem_cons] at h
    cases rest with
    | nil => simpa [unwords] using h.1.words_eq
    | cons word' rest =>
      rw [unwords_cons_cons, words_append_blank, h.1.words_eq, ih h.2]
      rfl

theorem unwords_ne_empty {ws : List String} (h : ∀ word ∈ ws, IsWord word) (hne : ws ≠ []) :
    unwords ws ≠ "" := by
  intro hempty
  apply hne
  rw [← words_unwords h, hempty]
  rfl

end Text

/-! ## Comments -/

/-- No two slashes stand side by side. -/
def Uncommented (cs : List Char) : Prop :=
  cs.IsChain fun a b => a ≠ '/' ∨ b ≠ '/'

theorem head?_beforeComment (h : c ∈ (beforeComment cs).head?) : c ∈ cs.head? := by
  unfold beforeComment at h
  split at h
  · cases h
  · cases h
  · exact h

theorem uncommented_beforeComment (cs : List Char) : Uncommented (beforeComment cs) := by
  fun_induction beforeComment cs with
  | case1 | case2 => exact .nil
  | case3 c cs hpair ih =>
    refine List.isChain_cons.mpr ⟨fun d hd => ?_, ih⟩
    by_contra hslashes
    obtain ⟨rfl, rfl⟩ : c = '/' ∧ d = '/' := by simpa using hslashes
    obtain ⟨rest, rfl⟩ := List.head?_eq_some_iff.mp (head?_beforeComment hd)
    exact hpair rest rfl rfl

theorem Uncommented.beforeComment_eq (h : Uncommented cs) : beforeComment cs = cs := by
  fun_induction beforeComment cs with
  | case1 => rfl
  | case2 rest =>
    have hslashes := (List.isChain_cons.mp h).1 '/' rfl
    simp at hslashes
  | case3 c cs _ ih => rw [ih (List.isChain_cons.mp h).2]

theorem prefix_of_splitOnP {p : α → Bool} {xs first : List α}
    (h : xs.splitOnP p = first :: others) : first <+: xs := by
  induction xs generalizing first others with
  | nil =>
    rw [List.splitOnP_nil] at h
    cases h
    exact List.prefix_rfl
  | cons x xs ih =>
    rw [List.splitOnP_cons_eq_if_modifyHead] at h
    split at h
    · cases h
      exact List.nil_prefix
    · obtain ⟨first', others', hsplit⟩ := List.exists_cons_of_ne_nil (List.splitOnP_ne_nil p xs)
      rw [hsplit] at h
      cases h
      exact List.prefix_cons_inj x |>.mpr (ih hsplit)

theorem infix_of_mem_splitOnP {p : α → Bool} {xs piece : List α} (h : piece ∈ xs.splitOnP p) :
    piece <:+: xs := by
  induction xs with
  | nil =>
    rw [List.splitOnP_nil, List.mem_singleton] at h
    exact h ▸ List.infix_rfl
  | cons x xs ih =>
    obtain ⟨first, others, hsplit⟩ := List.exists_cons_of_ne_nil (List.splitOnP_ne_nil p (x :: xs))
    rw [hsplit] at h
    rcases List.mem_cons.mp h with rfl | hothers
    · exact (prefix_of_splitOnP hsplit).isInfix
    · have hpiece : piece ∈ xs.splitOnP p := by
        rw [List.splitOnP_cons_eq_if_modifyHead] at hsplit
        split at hsplit
        · cases hsplit
          exact hothers
        · obtain ⟨_, others', htail⟩ := List.exists_cons_of_ne_nil (List.splitOnP_ne_nil p xs)
          rw [htail] at hsplit ⊢
          cases hsplit
          exact List.mem_cons_of_mem _ hothers
      exact List.infix_cons (ih hpiece)

theorem Uncommented.of_mem_words (h : Uncommented cs)
    (hword : word ∈ Text.words (String.ofList cs)) : Uncommented word.toList := by
  obtain ⟨piece, hpiece, rfl⟩ := List.mem_map.mp hword
  have hinfix := infix_of_mem_splitOnP (List.mem_filter.mp hpiece).1
  rw [String.toList_ofList] at hinfix ⊢
  exact h.infix hinfix

theorem Uncommented.unwords {ws : List String} (h : ∀ word ∈ ws, Uncommented word.toList) :
    Uncommented (Text.unwords ws).toList := by
  induction ws with
  | nil => exact .nil
  | cons word rest ih =>
    rw [List.forall_mem_cons] at h
    cases rest with
    | nil => simpa [Text.unwords] using h.1
    | cons word' rest =>
      rw [Text.unwords_cons_cons, String.toList_append, String.toList_append]
      -- the blank keeps the slashes on its sides apart
      refine List.IsChain.append (List.IsChain.append h.1 (.singleton ' ') ?_) (ih h.2) ?_
      · rintro _ _ _ hblank
        cases hblank
        exact .inr (by decide)
      · rintro c hblank _ _
        obtain rfl : ' ' = c := by simpa using hblank
        exact .inl (by decide)

/-! ## Normal lines -/

/-- The words of a line up to its comment. -/
def commandWords (line : String) : List String :=
  Text.words (String.ofList (beforeComment line.toList))

theorem isWord_of_mem_commandWords (h : word ∈ commandWords line) : Text.IsWord word :=
  Text.isWord_of_mem_words h

theorem normalLine?_eq_some : normalLine? line = some text ↔
    commandWords line ≠ [] ∧ text = Text.unwords (commandWords line) := by
  unfold normalLine? commandWords
  split
  · rename_i hnil
    rw [hnil]
    exact ⟨nofun, fun h => absurd rfl h.1⟩
  · rename_i hne
    rw [Option.some.injEq]
    exact ⟨fun h => ⟨hne, h.symm⟩, fun h => h.2.symm⟩

theorem uncommented_of_normalLine? (h : normalLine? line = some text) :
    Uncommented text.toList := by
  rw [(normalLine?_eq_some.mp h).2]
  exact .unwords fun _ hword => (uncommented_beforeComment _).of_mem_words hword

/-- The words of a line in normal form are those of the line. -/
theorem commandWords_of_normalLine? (h : normalLine? line = some text) :
    commandWords text = commandWords line := by
  rw [commandWords, (uncommented_of_normalLine? h).beforeComment_eq, String.ofList_toList,
    (normalLine?_eq_some.mp h).2]
  exact Text.words_unwords fun _ => isWord_of_mem_commandWords

/-- A line in normal form stays as it is. -/
theorem normalLine?_idem (h : normalLine? line = some text) : normalLine? text = some text := by
  have hwords := commandWords_of_normalLine? h
  obtain ⟨hne, htext⟩ := normalLine?_eq_some.mp h
  refine normalLine?_eq_some.mpr ⟨?_, ?_⟩
  · rwa [hwords]
  · rw [hwords]
    exact htext

theorem ne_empty_of_normalLine? (h : normalLine? line = some text) : text ≠ "" := by
  obtain ⟨hne, rfl⟩ := normalLine?_eq_some.mp h
  exact Text.unwords_ne_empty (fun _ => isWord_of_mem_commandWords) hne

/-! ## Lines of a text -/

/-- The line does not run into the next one: it has neither a line feed nor a carriage return. -/
def OneLine (line : String) : Prop :=
  ∀ c ∈ line.toList, c ≠ '\n' ∧ c ≠ '\r'

namespace OneLine

theorem lf (h : OneLine line) : '\n' ∉ line.toList :=
  fun hmem => (h _ hmem).1 rfl

theorem cr (h : OneLine line) : '\r' ∉ line.toList :=
  fun hmem => (h _ hmem).2 rfl

theorem of_isLineBreak (h : ∀ c ∈ line.toList, isLineBreak c = false) : OneLine line := by
  intro c hc
  have hbreak := h c hc
  constructor <;>
  · rintro rfl
    exact absurd hbreak (by decide)

end OneLine

namespace Text

theorem dropTrailing_of_not_mem [BEq α] [LawfulBEq α] {x : α} {xs : List α} (h : x ∉ xs) :
    dropTrailing x xs = xs := by
  rw [dropTrailing, if_neg]
  intro hlast
  exact h (List.mem_of_getLast? (beq_iff_eq.mp hlast))

theorem endLines_cons [BEq α] (cr : α) (piece : List α) {pieces : List (List α)}
    (h : pieces ≠ []) :
    endLines cr (piece :: pieces) = dropTrailing cr piece :: endLines cr pieces := by
  obtain ⟨first, others, rfl⟩ := List.exists_cons_of_ne_nil h
  rfl

/-- The first line ends at the first line feed. -/
theorem splitLines_append_cons [BEq α] [LawfulBEq α] {lf cr : α} {line : List α} (rest : List α)
    (h : lf ∉ line) :
    splitLines lf cr (line ++ lf :: rest) = dropTrailing cr line :: splitLines lf cr rest := by
  rw [splitLines, splitLines, List.splitOn_append_cons_self_of_not_mem h,
    endLines_cons cr line (List.splitOn_ne_nil lf rest)]

/-- The last line needs no line feed. -/
theorem splitLines_of_not_mem [BEq α] [LawfulBEq α] {lf cr : α} {line : List α} (h : lf ∉ line)
    (hne : line ≠ []) : splitLines lf cr line = [line] := by
  rw [splitLines, List.splitOn_eq_singleton h, endLines, if_neg (by simpa using hne)]

theorem lines_append_lf (h : OneLine line) (rest : String) :
    lines (line ++ "\n" ++ rest) = line :: lines rest := by
  have hchars : (line ++ "\n" ++ rest).toList = line.toList ++ '\n' :: rest.toList := by simp
  rw [lines, hchars, splitLines_append_cons _ h.lf, dropTrailing_of_not_mem h.cr, List.map_cons,
    String.ofList_toList]
  rfl

theorem lines_singleton (h : OneLine line) (hne : line ≠ "") : lines line = [line] := by
  have hchars : line.toList ≠ [] := fun hnil => hne (String.toList_eq_nil_iff.mp hnil)
  rw [lines, splitLines_of_not_mem h.lf hchars, List.map_singleton, String.ofList_toList]

/-- Lines with a line feed between any two. -/
def joinLines (lines : List String) : String :=
  "\n".intercalate lines

theorem lines_joinLines {ls : List String} (h : ∀ line ∈ ls, OneLine line ∧ line ≠ "") :
    lines (joinLines ls) = ls := by
  induction ls with
  | nil => rfl
  | cons line rest ih =>
    rw [List.forall_mem_cons] at h
    cases rest with
    | nil => simpa [joinLines] using lines_singleton h.1.1 h.1.2
    | cons line' rest =>
      rw [joinLines, String.intercalate_cons_cons, lines_append_lf h.1.1]
      exact congrArg _ (ih h.2)

theorem unlines_cons (line : String) (rest : List String) :
    unlines (line :: rest) = line ++ "\n" ++ unlines rest := by
  simp [unlines]

theorem lines_unlines {ls : List String} (h : ∀ line ∈ ls, OneLine line) :
    lines (unlines ls) = ls := by
  induction ls with
  | nil => rfl
  | cons line rest ih =>
    rw [List.forall_mem_cons] at h
    rw [unlines_cons, lines_append_lf h.1, ih h.2]

end Text

end HackVM
