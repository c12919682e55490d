import HackVM.Proofs.LineFaults
import HackVM.Proofs.NormalLines

/-! The comments in a program carry the text it comes from.

What the lines of a module expand to depends on their normal forms only, and lines without a command
leave no trace (`listing_normal`). The comments of a program are these normal forms, one before each
command (`filter_isComment_linkText`), so that a text can be made of them which expands to the same
program. -/

namespace HackVM

/-! ## Normal forms -/

/-- The normal forms of the lines that carry a command. -/
def normalLines (text : String) : List String :=
  (Text.lines text).filterMap normalLine?

theorem Carries.of_normal (h : Carries line text command) : Carries text text command :=
  ⟨normalLine?_idem h.normal, h.read, h.expands⟩

theorem Rejects.normal (h : Rejects line text fault) : normalLine? line = some text := by
  cases h with
  | unread hnormal _ => exact hnormal
  | constant hnormal _ => exact hnormal

theorem Rejects.of_normal (h : Rejects line text fault) : Rejects text text fault := by
  have hidem := normalLine?_idem h.normal
  cases h with
  | unread _ hread => exact .unread hidem hread
  | constant _ hread => exact .constant hidem hread

/-- Blocks and success of a listing are those of the normal forms. Only an error names the number of
a line. -/
theorem listing_normal (name : String) (ctx : Context) (n n' : Nat) (given : List String) :
    (listing name ctx n (given.map .ok)).blocks =
        (listing name ctx n' ((given.filterMap normalLine?).map .ok)).blocks ∧
      ((listing name ctx n (given.map .ok)).error? = none ↔
        (listing name ctx n' ((given.filterMap normalLine?).map .ok)).error? = none) := by
  induction given generalizing ctx n n' with
  | nil => exact ⟨rfl, Iff.rfl⟩
  | cons line given ih =>
    rw [List.map_cons]
    rcases line_cases line with hblank | ⟨text, command, hcarries⟩ | ⟨text, fault, hrejects⟩
    · rw [listing_blank name ctx n _ hblank, List.filterMap_cons_none hblank]
      exact ih ctx (n + 1) n'
    · obtain ⟨code, hcode⟩ := hcarries.code_isOk ctx
      rw [List.filterMap_cons_some hcarries.normal, List.map_cons,
        listing_carries name n _ hcarries hcode, listing_carries name n' _ hcarries.of_normal hcode]
      obtain ⟨hblocks, herror⟩ := ih (ctx.after command) (n + 1) (n' + 1)
      exact ⟨congrArg (_ :: ·) hblocks, herror⟩
    · rw [List.filterMap_cons_some hrejects.normal, List.map_cons]
      obtain ⟨hblocks, herror⟩ := listing_rejects name ctx n (given.map .ok) hrejects
      obtain ⟨hblocks', herror'⟩ := listing_rejects name ctx n'
        ((given.filterMap normalLine?).map .ok) hrejects.of_normal
      rw [hblocks, hblocks', herror, herror']
      exact ⟨rfl, nofun, nofun⟩

/-- The blocks of a listing that comes to its end have the normal forms as their texts. -/
theorem listing_texts (name : String) (ctx : Context) (n : Nat) {given : List String}
    (h : ∀ line ∈ given, LineInOrder (.ok line)) :
    (listing name ctx n (given.map .ok)).blocks.map Block.text = given.filterMap normalLine? := by
  rw [listing_normalTexts name ctx n (List.forall_mem_map.mpr h), List.filterMap_map]
  simp only [Function.comp_def, normalText?]

/-! ## Linking a text -/

/-- The listing of a text that is linked alone. -/
def textListing (name text : String) (options : Options) : Listing :=
  listing name ((Program.empty options).context (namespaceOf name)) 1 ((Text.lines text).map .ok)

theorem add_alone (name text : String) (options : Options) :
    (Program.empty options).add (.ofMemory (Memory.insert [] name text)) name =
      (Program.empty options).addLines name ((Text.lines text).map .ok) := by
  have hopens : Source.ofMemory (Memory.insert [] name text) name =
      .ok ((Text.lines text).map .ok) := by
    simp [Source.ofMemory, Memory.insert]
  rw [Program.add, hopens]
  rfl

/-- A text alone is linked if its listing comes to its end, and its blocks stand behind the
bootstrap. -/
theorem linkText_eq_ok : linkText name text options = .ok lines ↔
    (textListing name text options).error? = none ∧
      lines = (if options.bootstrap then Program.bootstrapLines else []) ++
        LinkedModule.lines ⟨name, (textListing name text options).blocks⟩ := by
  simp only [linkText, link, Program.addAll, add_alone, Program.addLines]
  rw [← textListing]
  cases (textListing name text options).error? with
  | some error => exact iff_of_false (fun h => by cases h) fun h => by cases h.1
  | none =>
    simp only [Except.ok.injEq, true_and, Program.lines, Program.empty, List.nil_append,
      List.flatMap_cons, List.flatMap_nil, List.append_nil]
    exact eq_comm

theorem textListing_congr (h : normalLines text' = normalLines text) (name : String)
    (options : Options) :
    (textListing name text' options).blocks = (textListing name text options).blocks ∧
      ((textListing name text' options).error? = none ↔
        (textListing name text options).error? = none) := by
  obtain ⟨hblocks, herror⟩ := listing_normal name _ 1 1 (Text.lines text)
  obtain ⟨hblocks', herror'⟩ := listing_normal name _ 1 1 (Text.lines text')
  rw [← normalLines, ← h] at hblocks herror
  exact ⟨hblocks'.trans hblocks.symm, herror'.trans herror.symm⟩

/-- Texts with the same normal forms are linked to the same lines. -/
theorem linkText_congr (h : normalLines text' = normalLines text)
    (hlink : linkText name text options = .ok lines) : linkText name text' options = .ok lines := by
  obtain ⟨hblocks, herror⟩ := textListing_congr h name options
  rw [linkText_eq_ok] at hlink ⊢
  rw [hblocks, herror]
  exact hlink

theorem lineInOrder_of_linkText (h : linkText name text options = .ok lines) :
    ∀ line ∈ Text.lines text, LineInOrder (.ok line) := by
  have herror := (linkText_eq_ok.mp h).1
  exact fun line hline =>
    (listing_error?_eq_none name _ 1 _).mp herror _ (List.mem_map_of_mem hline)

theorem textListing_texts (h : linkText name text options = .ok lines) :
    (textListing name text options).blocks.map Block.text = normalLines text :=
  listing_texts name _ 1 (lineInOrder_of_linkText h)

theorem normalLines_joinLines {texts : List String}
    (h : ∀ text ∈ texts, normalLine? text = some text) :
    normalLines (Text.joinLines texts) = texts := by
  have hlines : Text.lines (Text.joinLines texts) = texts := by
    refine Text.lines_joinLines fun text htext => ?_
    have hnormal := h text htext
    exact ⟨.of_isLineBreak (normalLine?_lineBreak hnormal), ne_empty_of_normalLine? hnormal⟩
  rw [normalLines, hlines, List.filterMap_congr h, List.filterMap_some]

/-! ## Comments -/

/-- The line is a comment as a whole. -/
def isComment (line : String) : Bool :=
  ['/', '/'].isPrefixOf line.toList

/-- The text of a comment. -/
def uncomment (line : String) : String :=
  String.ofList (line.toList.drop 3)

theorem toList_commentLine (text : String) :
    (commentLine text).toList = '/' :: '/' :: ' ' :: text.toList := by
  simp [commentLine]

theorem isComment_commentLine (text : String) : isComment (commentLine text) = true := by
  rw [isComment, toList_commentLine]
  rfl

theorem uncomment_commentLine (text : String) : uncomment (commentLine text) = text := by
  rw [uncomment, toList_commentLine]
  exact String.ofList_toList

theorem isComment_text (s : Statement) : isComment s.text = false := by
  rw [isComment]
  cases s with
  | number w =>
    rw [Statement.toList_number]
    rfl
  | symbol t =>
    rw [Statement.toList_symbol]
    rfl
  | label t =>
    rw [Statement.toList_label]
    rfl
  | compute dest comp condition =>
    obtain ⟨c, cs, hcs, _, _, hslash⟩ := Statement.head_compute dest comp condition
    rw [hcs, List.isPrefixOf_cons_cons, beq_false_of_ne hslash.symm, Bool.false_and]

theorem filter_isComment_code (text : String) (code : List Statement) :
    (commentLine text :: code.map Statement.text).filter isComment = [commentLine text] := by
  rw [List.filter_cons_of_pos (isComment_commentLine text), List.filter_eq_nil_iff.mpr]
  rintro line hline
  obtain ⟨s, _, rfl⟩ := List.mem_map.mp hline
  simp [isComment_text s]

theorem filter_isComment_lines (m : LinkedModule) :
    m.lines.filter isComment = (m.blocks.map Block.text).map commentLine := by
  have hblock (block : Block) : block.lines.filter isComment = [commentLine block.text] :=
    filter_isComment_code block.text block.code
  simp only [LinkedModule.lines, List.filter_flatMap, hblock, List.map_map]
  exact List.map_eq_flatMap.symm

/-- The comments of a linked text: that of the bootstrap, and the normal forms of the text. -/
theorem filter_isComment_linkText (h : linkText name text options = .ok lines) :
    lines.filter isComment =
      (if options.bootstrap then [commentLine "bootstrap"] else []) ++
        (normalLines text).map commentLine := by
  rw [(linkText_eq_ok.mp h).2, List.filter_append, filter_isComment_lines, textListing_texts h]
  split
  · rw [Program.bootstrapLines, filter_isComment_code]
  · rfl

/-- No command is called `bootstrap`, so that its comment is the only one of this text. -/
theorem bootstrap_not_mem_normalLines (h : linkText name text options = .ok lines) :
    "bootstrap" ∉ normalLines text := by
  intro hmem
  obtain ⟨line, hline, hnormal⟩ := List.mem_filterMap.mp hmem
  obtain ⟨command, hread, _⟩ := (lineInOrder_iff hnormal).mp (lineInOrder_of_linkText h line hline)
  have hunknown : Command.read "bootstrap" = .error (.unknownCommand "bootstrap") := by decide
  rw [hunknown] at hread
  cases hread

theorem count_bootstrap (h : linkText name text options = .ok lines) :
    lines.count (commentLine "bootstrap") = if options.bootstrap then 1 else 0 := by
  have hnormal : ((normalLines text).map commentLine).count (commentLine "bootstrap") = 0 := by
    rw [List.count_eq_zero, List.mem_map]
    rintro ⟨text', hmem, heq⟩
    have htext : text' = "bootstrap" := by
      rw [← uncomment_commentLine text', heq, uncomment_commentLine]
    exact bootstrap_not_mem_normalLines h (htext ▸ hmem)
  rw [← List.count_filter (isComment_commentLine _), filter_isComment_linkText h,
    List.count_append, hnormal]
  split <;> simp

/-- The texts of the comments behind that of the bootstrap. -/
def echoed (options : Options) (lines : List String) : List String :=
  ((lines.filter isComment).drop (if options.bootstrap then 1 else 0)).map uncomment

theorem echoed_linkText (h : linkText name text options = .ok lines) :
    echoed options lines = normalLines text := by
  have huncomment : ((normalLines text).map commentLine).map uncomment = normalLines text := by
    simp [Function.comp_def, uncomment_commentLine]
  rw [echoed, filter_isComment_linkText h]
  split
  · exact huncomment
  · exact huncomment

/-- A program made of a text has the normal forms of its lines as comments, behind a single one for
the bootstrap. The text made of these comments is linked to the same lines, and so is every text
that has the same normal forms. -/
theorem comments_carry_text (name text : String) (options : Options) (lines : List String)
    (h : linkText name text options = .ok lines) :
    lines.filter isComment =
        (if options.bootstrap then [commentLine "bootstrap"] else []) ++
          (normalLines text).map commentLine ∧
      lines.count (commentLine "bootstrap") = (if options.bootstrap then 1 else 0) ∧
      (options.bootstrap = true → lines.head? = some (commentLine "bootstrap")) ∧
      echoed options lines = normalLines text ∧
      linkText name (Text.joinLines (echoed options lines)) options = .ok lines ∧
      ∀ text', normalLines text' = normalLines text → linkText name text' options = .ok lines := by
  refine ⟨filter_isComment_linkText h, count_bootstrap h, ?_, echoed_linkText h, ?_, ?_⟩
  · intro hbootstrap
    rw [(linkText_eq_ok.mp h).2, if_pos hbootstrap]
    rfl
  · rw [echoed_linkText h]
    refine linkText_congr (normalLines_joinLines fun text' hmem => ?_) h
    obtain ⟨line, _, hnormal⟩ := List.mem_filterMap.mp hmem
    exact normalLine?_idem hnormal
  · intro text' hnormal
    exact linkText_congr hnormal h

/-- Comments, blank lines, a carriage return and odd blanks. -/
def spacedText : String :=
  "// start\r\n  function\tf\u2003 1 // one\n\n eq//\r\nlabel L\n"

theorem comments_carry_spaced_text :
    ∃ lines, linkText "M" spacedText { bootstrap := true } = .ok lines ∧
      normalLines spacedText = ["function f 1", "eq", "label L"] ∧
      lines.filter isComment = ["// bootstrap", "// function f 1", "// eq", "// label L"] ∧
      linkText "M" "function f 1\neq\nlabel L" { bootstrap := true } = .ok lines := by
  have hnormal : normalLines spacedText = ["function f 1", "eq", "label L"] := by decide +kernel
  have hlink : ∃ lines, linkText "M" spacedText { bootstrap := true } = .ok lines := ⟨_, rfl⟩
  obtain ⟨lines, hlines⟩ := hlink
  obtain ⟨hcomments, _, _, hechoed, hagain, _⟩ := comments_carry_text _ _ _ _ hlines
  rw [hnormal] at hcomments hechoed
  rw [hechoed] at hagain
  exact ⟨lines, hlines, hnormal, hcomments, hagain⟩

end HackVM
