import HackVM.Proofs.Acceptance

/-! What a single line does to a listing.

A line is blank, carries a command that can be expanded, or is rejected, and which of them it is
does not depend on the lines before it (`line_cases`). A listing passes over the first, puts one
block in front for the second and ends at the third, so that its error is that of the first line
which is not in order (`listing_error?_append`, `listing_rejects`), and without such a line it has a
block for every command (`listing_map_blocks`). -/

namespace HackVM

/-- The line, with its normal form, carries a command that can be expanded. -/
structure Carries (line text : String) (command : Command) : Prop where
  normal : normalLine? line = some text
  read : Command.read text = .ok command
  expands : ∀ index, command ≠ .pop .constant index

/-- The line, with its normal form, carries no command or one that writes to a number. -/
inductive Rejects (line : String) : String → Fault → Prop
  | unread : normalLine? line = some text → Command.read text = .error fault →
      Rejects line text fault
  | constant : normalLine? line = some text → Command.read text = .ok (.pop .constant index) →
      Rejects line text (.unknownSegment Segment.constant.text)

theorem line_cases (line : String) : normalLine? line = none ∨
    (∃ text command, Carries line text command) ∨ ∃ text fault, Rejects line text fault := by
  cases hnormal : normalLine? line with
  | none => exact .inl rfl
  | some text =>
    refine .inr ?_
    cases hread : Command.read text with
    | error fault => exact .inr ⟨text, fault, .unread hnormal hread⟩
    | ok command =>
      by_cases hconstant : ∃ index, command = .pop .constant index
      · obtain ⟨index, rfl⟩ := hconstant
        exact .inr ⟨text, _, .constant hnormal hread⟩
      · exact .inl ⟨text, command, hnormal, hread, fun index heq => hconstant ⟨index, heq⟩⟩

theorem Carries.lineInOrder (h : Carries line text command) : LineInOrder (.ok line) :=
  (lineInOrder_iff h.normal).mpr ⟨command, h.read, h.expands⟩

theorem Rejects.not_lineInOrder (h : Rejects line text fault) : ¬ LineInOrder (.ok line) := by
  intro horder
  cases h with
  | unread hnormal hread =>
    obtain ⟨_, hread', _⟩ := (lineInOrder_iff hnormal).mp horder
    rw [hread] at hread'
    cases hread'
  | constant hnormal hread =>
    obtain ⟨_, hread', hexpands⟩ := (lineInOrder_iff hnormal).mp horder
    rw [hread] at hread'
    cases hread'
    exact hexpands _ rfl

theorem lineInOrder_iff_not_rejects (line : String) :
    LineInOrder (.ok line) ↔ ∀ text fault, ¬ Rejects line text fault := by
  constructor
  · intro horder text fault hrejects
    exact hrejects.not_lineInOrder horder
  · intro hnone
    rcases line_cases line with hblank | ⟨text, command, hcarries⟩ | ⟨text, fault, hrejects⟩
    · exact .of_blank hblank
    · exact hcarries.lineInOrder
    · exact absurd hrejects (hnone text fault)

/-! ## Steps of a listing -/

theorem listing_blank (name : String) (ctx : Context) (n : Nat) (lines : Lines)
    (h : normalLine? line = none) :
    listing name ctx n (.ok line :: lines) = listing name ctx (n + 1) lines := by
  simp only [listing, h]

theorem Carries.code_isOk (h : Carries line text command) (ctx : Context) :
    ∃ code, ctx.code command = .ok code :=
  (ctx.expands_iff h.read).mpr h.expands

theorem listing_carries (name : String) (n : Nat) (lines : Lines)
    (h : Carries line text command) {ctx : Context} (hcode : ctx.code command = .ok code) :
    listing name ctx n (.ok line :: lines) =
      { listing name (ctx.after command) (n + 1) lines with
        blocks := ⟨text, command, code⟩ :: (listing name (ctx.after command) (n + 1) lines).blocks
        log := .expanding ctx.space command ::
          (listing name (ctx.after command) (n + 1) lines).log } := by
  have hexpand : ctx.expand command = .ok (code, ctx.after command) := by
    rw [Context.expand, hcode]
    rfl
  simp only [listing, h.normal, h.read, hexpand]

theorem listing_rejects (name : String) (ctx : Context) (n : Nat) (lines : Lines)
    (h : Rejects line text fault) :
    (listing name ctx n (.ok line :: lines)).blocks = [] ∧
      (listing name ctx n (.ok line :: lines)).error? = some (.line name n text fault) := by
  cases h with
  | unread hnormal hread => simp only [listing, hnormal, hread, and_self]
  | constant hnormal hread =>
    have hexpand (index : Word) : ctx.expand (.pop .constant index) =
        .error (.unknownSegment Segment.constant.text) := rfl
    simp only [listing, hnormal, hread, hexpand, and_self]

/-- Lines in order do not matter for the error behind them, but for their number. -/
theorem listing_error?_append (name : String) (ctx : Context) (n : Nat) {front : Lines}
    (rest : Lines) (h : ∀ line ∈ front, LineInOrder line) :
    ∃ ctx', (listing name ctx n (front ++ rest)).error? =
      (listing name ctx' (n + front.length) rest).error? := by
  induction front generalizing ctx n with
  | nil => exact ⟨ctx, rfl⟩
  | cons line front ih =>
    obtain ⟨horder, hfront⟩ := List.forall_mem_cons.mp h
    have ⟨line, hline, _⟩ := horder
    subst hline
    have hlength : n + (front.length + 1) = n + 1 + front.length := by omega
    rw [List.cons_append, List.length_cons, hlength]
    rcases line_cases line with hblank | ⟨text, command, hcarries⟩ | ⟨text, fault, hrejects⟩
    · rw [listing_blank name ctx n _ hblank]
      exact ih ctx (n + 1) hfront
    · obtain ⟨code, hcode⟩ := hcarries.code_isOk ctx
      rw [listing_carries name n _ hcarries hcode]
      exact ih (ctx.after command) (n + 1) hfront
    · exact absurd horder hrejects.not_lineInOrder

/-- A listing that comes to its end has a block for every line that carries a command. -/
theorem listing_map_blocks (name : String) (ctx : Context) (n : Nat) {lines : Lines}
    (h : ∀ line ∈ lines, LineInOrder line) {f : Block → α}
    {g : Except AccessError String → Option α}
    (hblank : ∀ line, normalLine? line = none → g (.ok line) = none)
    (hcarries : ∀ line text command code, Carries line text command →
      g (.ok line) = some (f ⟨text, command, code⟩)) :
    (listing name ctx n lines).blocks.map f = lines.filterMap g := by
  induction lines generalizing ctx n with
  | nil => rfl
  | cons line lines ih =>
    obtain ⟨horder, hlines⟩ := List.forall_mem_cons.mp h
    have ⟨line, hline, _⟩ := horder
    subst hline
    rcases line_cases line with hnone | ⟨text, command, hcommand⟩ | ⟨text, fault, hrejects⟩
    · rw [listing_blank name ctx n lines hnone, List.filterMap_cons_none (hblank line hnone),
        ih ctx (n + 1) hlines]
    · obtain ⟨code, hcode⟩ := hcommand.code_isOk ctx
      rw [listing_carries name n lines hcommand hcode, List.map_cons,
        List.filterMap_cons_some (hcarries line text command code hcommand),
        ih (ctx.after command) (n + 1) hlines]
    · exact absurd horder hrejects.not_lineInOrder

def LinkedModule.commands (m : LinkedModule) : List Command :=
  m.blocks.map Block.command

/-- The command on a line. -/
def commandOn? : Except AccessError String → Option Command
  | .ok line => (normalLine? line).bind fun text => (Command.read text).toOption
  | .error _ => none

theorem listing_commands (name : String) (ctx : Context) (n : Nat) {lines : Lines}
    (h : ∀ line ∈ lines, LineInOrder line) :
    (listing name ctx n lines).blocks.map Block.command = lines.filterMap commandOn? := by
  refine listing_map_blocks name ctx n h (fun _ hblank => ?_) fun _ _ _ _ hcarries => ?_
  · rw [commandOn?, hblank, Option.bind_none]
  · rw [commandOn?, hcarries.normal, Option.bind_some, hcarries.read]
    rfl

/-- The normal form of a line that can be read. -/
def normalText? : Except AccessError String → Option String
  | .ok line => normalLine? line
  | .error _ => none

/-- The blocks have the normal forms as their texts. -/
theorem listing_normalTexts (name : String) (ctx : Context) (n : Nat) {lines : Lines}
    (h : ∀ line ∈ lines, LineInOrder line) :
    (listing name ctx n lines).blocks.map Block.text = lines.filterMap normalText? :=
  listing_map_blocks name ctx n h (fun _ hblank => hblank) fun _ _ _ _ hcarries => hcarries.normal

end HackVM
