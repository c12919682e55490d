import HackVM.Proofs.NormalLines

/-! The normal form of a line is made of its words.

What a line has to say is the part in front of its first pair of slashes (`CommandPart`), and of
this part the words (`Text.Worded`). Both relations are said without the functions that find the
part and the words (`commandPart_iff`, `Text.worded_iff`). The normal form of a line keeps the words
and nothing else (`normal_line_keeps_words`): there is no comment in it, every blank is a space that
stands alone between two words (`Text.SinglySpaced`), and lines with the same words have the same
normal form. -/

namespace HackVM

/-! ## Words -/

namespace Text

/-- The characters are those of the words in this order, with any blanks before and behind them and
at least one between two words. -/
inductive Worded : List Char → List String → Prop
  | nil : Worded [] []
  | blank : isBlank c = true → Worded cs ws → Worded (c :: cs) ws
  | last : IsWord word → Worded word.toList [word]
  | word : IsWord word → isBlank c = true → Worded cs ws →
      Worded (word.toList ++ c :: cs) (word :: ws)

theorem IsWord.cons {c : Char} (hc : isBlank c = false) (h : ∀ d ∈ cs, isBlank d = false) :
    IsWord (String.ofList (c :: cs)) where
  nonempty hempty := by simpa using congrArg String.toList hempty
  chars := by
    rw [String.toList_ofList]
    exact List.forall_mem_cons.mpr ⟨hc, h⟩

namespace Worded

theorem words_ofList (h : Worded cs ws) : words (String.ofList cs) = ws := by
  induction h with
  | nil => rfl
  | @blank c cs _ hc _ ih =>
    have hwords := words_append_cons hc [] cs
    rwa [ih] at hwords
  | last hword => rw [String.ofList_toList, hword.words_eq]
  | word hword hc _ ih =>
    rw [words_append_cons hc, String.ofList_toList, hword.words_eq, ih]
    rfl

/-- A character that is no blank starts a word or comes before the first letter of one. -/
theorem exists_cons (hc : isBlank c = false) (h : Worded cs ws) : ∃ ws', Worded (c :: cs) ws' := by
  have hletter := IsWord.cons hc (List.forall_mem_nil _)
  cases h with
  | nil => exact ⟨_, by simpa using last hletter⟩
  | blank hb h => exact ⟨_, by simpa using word hletter hb h⟩
  | last hword => exact ⟨_, by simpa using last (.cons hc hword.chars)⟩
  | word hword hb h => exact ⟨_, by simpa using word (.cons hc hword.chars) hb h⟩

end Worded

theorem exists_worded (cs : List Char) : ∃ ws, Worded cs ws := by
  induction cs with
  | nil => exact ⟨[], .nil⟩
  | cons c cs ih =>
    obtain ⟨ws, h⟩ := ih
    cases hc : isBlank c with
    | true => exact ⟨ws, .blank hc h⟩
    | false => exact h.exists_cons hc

/-- There is one list of words, and this is the one that `words` finds. -/
theorem worded_iff {text : String} : Worded text.toList ws ↔ words text = ws := by
  have hwords {ws : List String} (h : Worded text.toList ws) : words text = ws := by
    simpa using h.words_ofList
  constructor
  · exact hwords
  · intro h
    obtain ⟨ws', hworded⟩ := exists_worded text.toList
    rw [← h, hwords hworded]
    exact hworded

theorem worded_nil_iff : Worded cs [] ↔ ∀ c ∈ cs, isBlank c = true := by
  constructor
  · intro h
    generalize hnil : [] = ws at h
    induction h with
    | nil => exact List.forall_mem_nil _
    | blank hc _ ih => exact List.forall_mem_cons.mpr ⟨hc, ih hnil⟩
    | last | word => cases hnil
  · intro h
    induction cs with
    | nil => exact .nil
    | cons c cs ih =>
      obtain ⟨hc, hcs⟩ := List.forall_mem_cons.mp h
      exact .blank hc (ih hcs)

/-! ## Blanks -/

/-- Every blank is a space, with no blank beside it, and is neither the first character nor the
last. -/
structure SinglySpaced (cs : List Char) : Prop where
  space : ∀ c ∈ cs, isBlank c = true → c = ' '
  alone : cs.IsChain fun a b => isBlank a = false ∨ isBlank b = false
  head : ∀ c ∈ cs.head?, isBlank c = false
  last : ∀ c ∈ cs.getLast?, isBlank c = false

namespace SinglySpaced

theorem of_isWord (h : IsWord word) : SinglySpaced word.toList where
  space c hc hblank := by simp [h.chars c hc] at hblank
  alone := (List.pairwise_of_forall_mem_list fun c hc _ _ => .inl (h.chars c hc)).isChain
  head c hc := h.chars c (List.mem_of_mem_head? hc)
  last c hc := h.chars c (List.mem_of_getLast? hc)

/-- Two texts with a space between them. -/
theorem append (hfront : SinglySpaced front) (hrear : SinglySpaced rear) (hne : front ≠ [])
    (hne' : rear ≠ []) : SinglySpaced (front ++ ' ' :: rear) where
  space c hc hblank := by
    rcases List.mem_append.mp hc with hc | hc
    · exact hfront.space c hc hblank
    · rcases List.mem_cons.mp hc with rfl | hc
      · rfl
      · exact hrear.space c hc hblank
  alone := by
    refine List.IsChain.append hfront.alone ?_ fun c hc _ _ => .inl (hfront.last c hc)
    exact List.isChain_cons.mpr ⟨fun d hd => .inr (hrear.head d hd), hrear.alone⟩
  head c hc := by
    rw [List.head?_append_of_ne_nil _ hne] at hc
    exact hfront.head c hc
  last c hc := by
    rw [List.getLast?_append_cons, List.getLast?_cons_of_ne_nil hne'] at hc
    exact hrear.last c hc

theorem unwords {ws : List String} (h : ∀ word ∈ ws, IsWord word) :
    SinglySpaced (unwords ws).toList := by
  induction ws with
  | nil => exact ⟨nofun, .nil, nofun, nofun⟩
  | cons word rest ih =>
    rw [List.forall_mem_cons] at h
    cases rest with
    | nil => simpa [Text.unwords] using of_isWord h.1
    | cons word' rest =>
      have hword : word.toList ≠ [] := fun hnil => h.1.nonempty (String.toList_eq_nil_iff.mp hnil)
      have hrest : (Text.unwords (word' :: rest)).toList ≠ [] := fun hnil =>
        unwords_ne_empty h.2 (List.cons_ne_nil _ _) (String.toList_eq_nil_iff.mp hnil)
      have happend := (of_isWord h.1).append (ih h.2) hword hrest
      rw [unwords_cons_cons]
      simpa using happend

end SinglySpaced

end Text

/-! ## Comments -/

/-- A pair of slashes is somewhere in the text. -/
def HasSlashes (text : String) : Prop :=
  ∃ front rear, text = front ++ "//" ++ rear

/-- The part of a line in front of its first pair of slashes, or all of a line that has none. -/
inductive CommandPart (line : String) : String → Prop
  | whole : ¬ HasSlashes line → CommandPart line line
  | cut : line = part ++ "//" ++ rest →
      (∀ front rear, line = front ++ "//" ++ rear → part.length ≤ front.length) →
      CommandPart line part

theorem toList_slashes (front rear : String) :
    (front ++ "//" ++ rear).toList = front.toList ++ '/' :: '/' :: rear.toList := by
  simp

theorem uncommented_iff : Uncommented text.toList ↔ ¬ HasSlashes text := by
  rw [Uncommented, List.isChain_iff_forall_rel_of_append_cons_cons]
  constructor
  · rintro h ⟨front, rear, rfl⟩
    have hslashes := h (toList_slashes front rear)
    simp at hslashes
  · intro h a b front rear hchars
    by_contra hslashes
    obtain ⟨rfl, rfl⟩ : a = '/' ∧ b = '/' := by simpa using hslashes
    apply h
    refine ⟨String.ofList front, String.ofList rear, ?_⟩
    rw [← String.toList_inj, toList_slashes, String.toList_ofList, String.toList_ofList, hchars]

theorem beforeComment_cases (cs : List Char) :
    beforeComment cs = cs ∨ ∃ rest, cs = beforeComment cs ++ '/' :: '/' :: rest := by
  fun_induction beforeComment cs with
  | case1 => exact .inl rfl
  | case2 rest => exact .inr ⟨rest, rfl⟩
  | case3 c cs _ ih =>
    rcases ih with hwhole | ⟨rest, hrest⟩
    · rw [hwhole]
      exact .inl rfl
    · refine .inr ⟨rest, ?_⟩
      rw [List.cons_append, ← hrest]

/-- No pair of slashes is further in front. -/
theorem length_beforeComment_le (front rear : List Char) :
    (beforeComment (front ++ '/' :: '/' :: rear)).length ≤ front.length := by
  induction front with
  | nil => exact Nat.le_refl 0
  | cons c front ih =>
    rw [List.cons_append]
    unfold beforeComment
    split
    · exact Nat.zero_le _
    · exact Nat.zero_le _
    · rename_i heq
      cases heq
      exact Nat.succ_le_succ ih

theorem commandPart_beforeComment (line : String) :
    CommandPart line (String.ofList (beforeComment line.toList)) := by
  rcases beforeComment_cases line.toList with hwhole | ⟨rest, hrest⟩
  · have huncommented := uncommented_beforeComment line.toList
    rw [hwhole] at huncommented ⊢
    rw [String.ofList_toList]
    exact .whole (uncommented_iff.mp huncommented)
  · have hline :
        line = String.ofList (beforeComment line.toList) ++ "//" ++ String.ofList rest := by
      rw [← String.toList_inj, toList_slashes, String.toList_ofList, String.toList_ofList]
      exact hrest
    refine .cut hline ?_
    intro front rear hother
    have hle := length_beforeComment_le front.toList rear.toList
    rw [← toList_slashes, ← hother, String.length_toList] at hle
    rwa [String.length_ofList]

theorem CommandPart.unique (h : CommandPart line part) (h' : CommandPart line part') :
    part' = part := by
  cases h with
  | whole hnone =>
    cases h' with
    | whole => rfl
    | cut hline => exact absurd ⟨_, _, hline⟩ hnone
  | cut hline hfirst =>
    cases h' with
    | whole hnone => exact absurd ⟨_, _, hline⟩ hnone
    | cut hline' hfirst' =>
      -- neither pair of slashes is further in front than the other
      have hlength := Nat.le_antisymm (hfirst' _ _ hline) (hfirst _ _ hline')
      have hchars := congrArg String.toList (hline'.symm.trans hline)
      rw [toList_slashes, toList_slashes] at hchars
      rw [← String.length_toList, ← String.length_toList] at hlength
      rw [← String.toList_inj]
      exact (List.append_inj hchars hlength).1

theorem commandPart_iff :
    CommandPart line part ↔ part = String.ofList (beforeComment line.toList) := by
  constructor
  · exact (commandPart_beforeComment line).unique
  · rintro rfl
    exact commandPart_beforeComment line

/-! ## Lines -/

theorem Command.read_congr (h : Text.words line = Text.words line') :
    Command.read line = Command.read line' := by
  rw [Command.read, Command.read, h]

theorem normalLine?_eq_none : normalLine? line = none ↔ commandWords line = [] := by
  unfold normalLine? commandWords
  split
  · rename_i hnil
    exact iff_of_true rfl hnil
  · rename_i hne
    exact iff_of_false nofun hne

/-- Lines have the same normal form exactly if they have the same words. -/
theorem normalLine?_eq_iff :
    normalLine? line = normalLine? line' ↔ commandWords line = commandWords line' := by
  constructor
  · intro h
    cases hnormal : normalLine? line with
    | none =>
      rw [hnormal, eq_comm, normalLine?_eq_none] at h
      rw [h, normalLine?_eq_none.mp hnormal]
    | some text =>
      rw [hnormal, eq_comm] at h
      rw [← commandWords_of_normalLine? h, commandWords_of_normalLine? hnormal]
  · intro h
    unfold commandWords at h
    rw [normalLine?, normalLine?, h]

theorem CommandPart.commandWords_eq (h : CommandPart line part)
    (hwords : Text.Worded part.toList ws) : commandWords line = ws := by
  rw [commandWords, ← commandPart_iff.mp h]
  exact Text.worded_iff.mp hwords

/-- A line has one part in front of its comment, and a text has one list of words. The line has no
normal form exactly if there are only blanks in this part; otherwise the words of the part are those
of the normal form, which has no comment, single spaces between its words and no other blanks, is
its own normal form, and is read like the part. Two lines have the same normal form exactly if they
have the same words. -/
theorem normal_line_keeps_words (line : String) :
    (∃! part, CommandPart line part) ∧ (∀ part : String, ∃! ws, Text.Worded part.toList ws) ∧
    ∀ part ws, CommandPart line part → Text.Worded part.toList ws →
      (normalLine? line = none ↔ ∀ c ∈ part.toList, Text.isBlank c = true) ∧
      (∀ text, normalLine? line = some text →
        Text.Worded text.toList ws ∧ ¬ HasSlashes text ∧ Text.SinglySpaced text.toList ∧
        normalLine? text = some text ∧ Command.read text = Command.read part) ∧
      ∀ line' part' ws', CommandPart line' part' → Text.Worded part'.toList ws' →
        (normalLine? line = normalLine? line' ↔ ws = ws') := by
  refine ⟨?_, fun part => ?_, ?_⟩
  · have hpart := commandPart_beforeComment line
    exact ⟨_, hpart, fun _ => hpart.unique⟩
  · exact ⟨Text.words part, Text.worded_iff.mpr rfl, fun _ h => (Text.worded_iff.mp h).symm⟩
  · intro part ws hpart hwords
    have hline := hpart.commandWords_eq hwords
    refine ⟨?_, fun text hnormal => ?_, fun line' part' ws' hpart' hwords' => ?_⟩
    · rw [normalLine?_eq_none, hline, ← Text.worded_nil_iff]
      constructor
      · rintro rfl
        exact hwords
      · intro hnil
        rw [← Text.worded_iff.mp hwords, Text.worded_iff.mp hnil]
    · have huncommented := uncommented_iff.mp (uncommented_of_normalLine? hnormal)
      have htext : Text.Worded text.toList ws := by
        obtain ⟨ws', hwords'⟩ := Text.exists_worded text.toList
        have hwhole := (CommandPart.whole huncommented).commandWords_eq hwords'
        rw [commandWords_of_normalLine? hnormal, hline] at hwhole
        rwa [hwhole]
      refine ⟨htext, huncommented, ?_, normalLine?_idem hnormal, ?_⟩
      · rw [(normalLine?_eq_some.mp hnormal).2]
        exact .unwords fun _ => isWord_of_mem_commandWords
      · apply Command.read_congr
        rw [Text.worded_iff.mp htext, Text.worded_iff.mp hwords]
    · rw [normalLine?_eq_iff, hline, hpart'.commandWords_eq hwords']

/-- A line with slashes that would make a pair without the blanks between them, and one that has
the same words on two lines of text. -/
theorem normal_line_keeps_words_slashes :
    let line := " a/\u2003 /b///c//"
    let part := " a/\u2003 /b"
    CommandPart line part ∧ Text.Worded part.toList ["a/", "/b"] ∧
      normalLine? line = some "a/ /b" ∧
      CommandPart "a/\n/b" "a/\n/b" ∧ Text.Worded "a/\n/b".toList ["a/", "/b"] ∧
      ¬ HasSlashes "a/ /b" ∧ Text.SinglySpaced "a/ /b".toList ∧
      Command.read "a/ /b" = Command.read part ∧
      normalLine? line = normalLine? "a/\n/b" := by
  intro line part
  have hpart : CommandPart line part := commandPart_iff.mpr (by decide)
  have hwords : Text.Worded part.toList ["a/", "/b"] := Text.worded_iff.mpr (by decide)
  have hnormal : normalLine? line = some "a/ /b" := by decide
  have hpart' : CommandPart "a/\n/b" "a/\n/b" := commandPart_iff.mpr (by decide)
  have hwords' : Text.Worded "a/\n/b".toList ["a/", "/b"] := Text.worded_iff.mpr (by decide)
  obtain ⟨_, htext, hlines⟩ := (normal_line_keeps_words line).2.2 part _ hpart hwords
  obtain ⟨_, huncommented, hspaced, _, hread⟩ := htext _ hnormal
  exact ⟨hpart, hwords, hnormal, hpart', hwords', huncommented, hspaced, hread,
    (hlines _ _ _ hpart' hwords').mpr rfl⟩

end HackVM
