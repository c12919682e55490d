import Mathlib.Data.Set.Card
import HackVM.Proofs.History

/-! Generated labels in the lines of a program.

The serial numbers that the code of a program declares in a family grow from block to block and stay
below the family's counter (`Reached.increasing`, `Reached.lt_counter`), whatever attempts have
failed in between. As no other statement has the text of a generated label, this carries over to the
lines (`generated_labels`). -/

namespace HackVM

namespace LabelKind

/-- The line that declares a generated label. -/
def declaration (kind : LabelKind) (n : Nat) : String :=
  "(" ++ (Symbol.generated kind n).text ++ ")"

/-- The line that loads the address of a generated label. -/
def reference (kind : LabelKind) (n : Nat) : String :=
  "@" ++ (Symbol.generated kind n).text

end LabelKind

/-- The command puts a name of its author on a place. -/
def Command.isDeclaration : Command → Bool
  | .label _ | .function _ _ => true
  | _ => false

namespace Program

def commands (p : Program) : List Command :=
  p.modules.flatMap fun m => m.blocks.map Block.command

/-- How many serial numbers of a family are in use. -/
def taken (p : Program) (kind : LabelKind) : Nat :=
  p.commands.countP kind.takenBy + if kind = .back ∧ p.options.bootstrap then 1 else 0

/-- All the modules are in order. -/
def accepts (p : Program) : List (Source × String) → Bool
  | [] => true
  | (source, name) :: attempts =>
    (p.add source name).2.value.isOk && (p.add source name).1.accepts attempts

end Program

/-- The order of generated labels in the lines of a program. -/
structure Program.LabelsInOrder (p : Program) : Prop where
  grouped : p.lines = p.groups.flatMap Group.lines
  once : ∀ (kind : LabelKind) n, p.lines.count (kind.declaration n) ≤ 1
  paired : ∀ n, LabelKind.holds.declaration n ∈ p.lines ↔ LabelKind.done.declaration n ∈ p.lines
  below : ∀ (kind : LabelKind) n, kind.declaration n ∈ p.lines → n < kind.counter p.serials
  /-- A label is referred to in its own group only. -/
  closed : ∀ group ∈ p.groups, ∀ (kind : LabelKind) n,
    kind.reference n ∈ group.lines → kind.declaration n ∈ group.lines
  /-- No author declares one. -/
  apart : ∀ m ∈ p.modules, ∀ block ∈ m.blocks, block.command.isDeclaration = true →
    ∀ (kind : LabelKind) n, kind.declaration n ∉ block.lines
  number : ∀ kind : LabelKind, {n | kind.declaration n ∈ p.lines}.ncard = p.taken kind

/-! ## Serial numbers in code -/

theorem Statement.declares?_eq_some {s : Statement} :
    s.declares? kind = some n ↔ s = .label (.generated kind n) := by
  cases s with
  | label t =>
    cases t with
    | generated kind' n' =>
      rw [declares?]
      split
      · rename_i hkind
        simp [hkind]
      · rename_i hkind
        simp [hkind]
    | _ => simp [declares?]
  | _ => simp [declares?]

theorem mem_declaredSerials {code : List Statement} :
    n ∈ declaredSerials kind code ↔ .label (.generated kind n) ∈ code := by
  simp only [declaredSerials, List.mem_filterMap, Statement.declares?_eq_some]
  constructor
  · rintro ⟨s, hs, rfl⟩
    exact hs
  · intro h
    exact ⟨_, h, rfl⟩

/-- Commands one after another take serial numbers one after another. -/
theorem Listed.declaredSerials (kind : LabelKind) (h : Listed ctx blocks ctx') :
    declaredSerials kind (blocks.flatMap Block.code) =
      List.range' (kind.counter ctx.serials) (blocks.countP (kind.takenBy ·.command)) := by
  induction h with
  | nil => rfl
  | cons _ _ hcode _ ih =>
    rw [List.flatMap_cons, declaredSerials_append, Context.declaredSerials_code kind hcode, ih,
      Context.after_counter, List.countP_cons]
    split <;> simp [List.range'_succ]

/-- A label that the code refers to is declared in it. -/
def Closed (code : List Statement) : Prop :=
  ∀ kind n, .symbol (.generated kind n) ∈ code → .label (.generated kind n) ∈ code

theorem Context.code_closed {ctx : Context} {command : Command} {code : List Statement}
    (h : ctx.code command = .ok code) : Closed code := by
  intro kind n hmem
  rw [← mem_declaredSerials, declaredSerials_code kind h]
  generalize hs : Statement.symbol (.generated kind n) = s at hmem
  cases emits_of_mem h s hmem with
  | reference htaken =>
    cases hs
    rw [if_pos htaken]
    exact List.mem_singleton_self _
  | goto | ifGoto =>
    injection hs with hs
    exact absurd hs.symm (ctx.label_ne_generated _ kind n)
  | _ => cases hs

/-! ## Serial numbers in programs -/

namespace Program

theorem code_add (p : Program) (s : Serials) (name : String) (blocks : List Block) :
    ({ p with serials := s, modules := p.modules ++ [⟨name, blocks⟩] } : Program).code =
      p.code ++ blocks.flatMap Block.code := by
  simp [code]

theorem taken_add (p : Program) (s : Serials) (name : String) (blocks : List Block)
    (kind : LabelKind) :
    ({ p with serials := s, modules := p.modules ++ [⟨name, blocks⟩] } : Program).taken kind =
      p.taken kind + blocks.countP (kind.takenBy ·.command) := by
  have hcommands : blocks.countP (kind.takenBy ·.command) =
      (blocks.map Block.command).countP kind.takenBy := by
    rw [List.countP_map]
    rfl
  simp only [taken, commands, List.flatMap_append, List.flatMap_singleton, List.countP_append,
    hcommands]
  omega

theorem declaredSerials_empty (options : Options) (kind : LabelKind) :
    declaredSerials kind (empty options).code =
      List.range (kind.counter (empty options).serials) := by
  cases options with
  | mk bootstrap scope => cases bootstrap <;> cases kind <;> rfl

theorem counter_empty (options : Options) (kind : LabelKind) :
    kind.counter (empty options).serials = (empty options).taken kind := by
  cases options with
  | mk bootstrap scope => cases bootstrap <;> cases kind <;> rfl

namespace Reached
variable {options : Options} {p : Program}

theorem lt_counter (h : Reached options p) (kind : LabelKind) :
    ∀ n ∈ declaredSerials kind p.code, n < kind.counter p.serials := by
  induction h with
  | empty =>
    intro n hn
    rw [declaredSerials_empty] at hn
    exact List.mem_range.mp hn
  | skip _ hle ih => exact fun n hn => Nat.lt_of_lt_of_le (ih n hn) (hle kind)
  | add _ _ hlisted ih =>
    intro n hn
    rw [code_add, declaredSerials_append, hlisted.declaredSerials kind, List.mem_append,
      List.mem_range'_1] at hn
    have hcounter := hlisted.counter_eq kind
    rcases hn with hn | ⟨_, hn⟩
    · exact Nat.lt_of_lt_of_le (ih n hn) (hlisted.serials_le kind)
    · exact hcounter ▸ hn

theorem increasing (h : Reached options p) (kind : LabelKind) :
    (declaredSerials kind p.code).Pairwise (· < ·) := by
  induction h with
  | empty =>
    rw [declaredSerials_empty]
    exact List.pairwise_lt_range
  | skip _ _ ih => exact ih
  | add hp _ hlisted ih =>
    rw [code_add, declaredSerials_append, hlisted.declaredSerials kind, List.pairwise_append]
    refine ⟨ih, List.pairwise_lt_range', fun a ha b hb => ?_⟩
    exact Nat.lt_of_lt_of_le (hp.lt_counter kind a ha) (List.mem_range'_1.mp hb).1

theorem length_declaredSerials (h : Reached options p) (kind : LabelKind) :
    (declaredSerials kind p.code).length = p.taken kind := by
  induction h with
  | empty => rw [declaredSerials_empty, List.length_range, counter_empty]
  | skip _ _ ih => exact ih
  | add _ _ hlisted ih =>
    rw [code_add, declaredSerials_append, hlisted.declaredSerials kind, List.length_append, ih,
      List.length_range', taken_add]

theorem holds_eq_done (h : Reached options p) :
    declaredSerials .holds p.code = declaredSerials .done p.code := by
  induction h with
  | empty =>
    rw [declaredSerials_empty, declaredSerials_empty]
    rfl
  | skip _ _ ih => exact ih
  | add _ _ hlisted ih =>
    rw [code_add, declaredSerials_append, declaredSerials_append, ih,
      hlisted.declaredSerials .holds, hlisted.declaredSerials .done]
    rfl

end Reached

/-- While no attempt fails, every serial number is in use. -/
theorem counter_addEach {p : Program} (kind : LabelKind)
    (hcounter : kind.counter p.serials = p.taken kind) (haccepts : p.accepts attempts = true) :
    kind.counter (p.addEach attempts).serials = (p.addEach attempts).taken kind := by
  induction attempts generalizing p with
  | nil => exact hcounter
  | cons attempt attempts ih =>
    obtain ⟨source, name⟩ := attempt
    simp only [accepts, Bool.and_eq_true] at haccepts
    obtain ⟨hok, haccepts⟩ := haccepts
    refine ih ?_ haccepts
    rcases p.add_cases source name with ⟨_, _, _, _, hvalue⟩ | ⟨_, _, _, hlisted, hprogram, _⟩
    · rw [hvalue] at hok
      cases hok
    · rw [hprogram, taken_add, ← hcounter]
      exact hlisted.counter_eq kind

end Program

/-! ## From code to lines -/

theorem commentLine_ne_reference (text : String) (kind : LabelKind) (n : Nat) :
    commentLine text ≠ kind.reference n := by
  intro h
  have hchars := congrArg (fun line => line.toList.head?) h
  simp [commentLine, LabelKind.reference] at hchars

theorem count_map_text {code : List Statement} (h : ∀ s ∈ code, s.WellFormed)
    (kind : LabelKind) (n : Nat) :
    (code.map Statement.text).count (kind.declaration n) = (declaredSerials kind code).count n := by
  rw [declaredSerials, List.count_filterMap, List.count, List.countP_map]
  refine List.countP_congr fun s hs => ?_
  simp only [Function.comp_apply, beq_iff_eq, Statement.declares?_eq_some]
  exact Statement.text_eq_label_generated (h s hs)

namespace Group

theorem count_lines {group : Group} (h : ∀ s ∈ group.code, s.WellFormed) (kind : LabelKind)
    (n : Nat) :
    group.lines.count (kind.declaration n) = (declaredSerials kind group.code).count n := by
  have hne : commentLine group.text ≠ kind.declaration n := commentLine_ne_label _ _
  rw [lines, List.count_cons_of_ne hne, count_map_text h]

theorem declaration_mem_lines {group : Group} (h : ∀ s ∈ group.code, s.WellFormed)
    (kind : LabelKind) (n : Nat) :
    kind.declaration n ∈ group.lines ↔ n ∈ declaredSerials kind group.code := by
  rw [← List.count_pos_iff, ← List.count_pos_iff, count_lines h]

theorem reference_mem_lines {group : Group} (h : ∀ s ∈ group.code, s.WellFormed)
    {kind : LabelKind} (hmem : kind.reference n ∈ group.lines) :
    .symbol (.generated kind n) ∈ group.code := by
  rcases List.mem_cons.mp hmem with he | hmem
  · exact absurd he.symm (commentLine_ne_reference _ _ _)
  · obtain ⟨s, hs, htext⟩ := List.mem_map.mp hmem
    exact (Statement.text_eq_symbol_generated (h s hs)).mp htext ▸ hs

theorem count_flatMap_lines {groups : List Group}
    (h : ∀ s ∈ groups.flatMap code, s.WellFormed) (kind : LabelKind) (n : Nat) :
    (groups.flatMap lines).count (kind.declaration n) =
      (declaredSerials kind (groups.flatMap code)).count n := by
  induction groups with
  | nil => rfl
  | cons group groups ih =>
    rw [List.flatMap_cons, List.forall_mem_append] at h
    rw [List.flatMap_cons, List.flatMap_cons, declaredSerials_append, List.count_append,
      List.count_append, count_lines h.1, ih h.2]

end Group

namespace Program.Reached
variable {options : Options} {p : Program}

theorem count_lines (h : Reached options p) (kind : LabelKind) (n : Nat) :
    p.lines.count (kind.declaration n) = (declaredSerials kind p.code).count n := by
  have hwf := h.wellFormed
  rw [code_eq_groups] at hwf ⊢
  rw [lines_eq_groups, Group.count_flatMap_lines hwf]

theorem declaration_mem_lines (h : Reached options p) (kind : LabelKind) (n : Nat) :
    kind.declaration n ∈ p.lines ↔ n ∈ declaredSerials kind p.code := by
  rw [← List.count_pos_iff, ← List.count_pos_iff, h.count_lines]

theorem group_closed (h : Reached options p) (hgroup : group ∈ p.groups) : Closed group.code := by
  rcases groups_cases hgroup with ⟨_, rfl⟩ | ⟨m, hm, block, hblock, rfl⟩
  · intro kind n hmem
    revert hmem
    simp +contextual [Expansion.bootstrap, Expansion.call, Expansion.pushD,
      Expansion.savedPointers]
  · obtain ⟨ctx, _, hcode⟩ := h.block_code hm hblock
    exact Context.code_closed hcode

theorem group_wellFormed (h : Reached options p) (hgroup : group ∈ p.groups) :
    ∀ s ∈ group.code, s.WellFormed := by
  intro s hs
  refine h.wellFormed s ?_
  rw [code_eq_groups]
  exact List.mem_flatMap_of_mem hgroup hs

theorem labelsInOrder (h : Reached options p) : p.LabelsInOrder where
  grouped := p.lines_eq_groups
  once kind n := by
    rw [h.count_lines]
    exact List.nodup_iff_count_le_one.mp (h.increasing kind).nodup n
  paired n := by
    rw [h.declaration_mem_lines, h.declaration_mem_lines, h.holds_eq_done]
  below kind n hmem := h.lt_counter kind n ((h.declaration_mem_lines kind n).mp hmem)
  closed group hgroup kind n hmem := by
    have hwf := h.group_wellFormed hgroup
    have hlabel := h.group_closed hgroup kind n (Group.reference_mem_lines hwf hmem)
    exact (Group.declaration_mem_lines hwf kind n).mpr (mem_declaredSerials.mpr hlabel)
  apart m hm block hblock hcommand kind n hmem := by
    obtain ⟨ctx, _, hcode⟩ := h.block_code hm hblock
    have hnone : kind.takenBy block.command = false := by
      cases hc : block.command <;> rw [hc] at hcommand <;> cases hcommand <;> cases kind <;> rfl
    have hserial := (@Group.declaration_mem_lines ⟨block.text, block.code⟩
      (h.block_wellFormed hm hblock) kind n).mp hmem
    rw [Context.declaredSerials_code kind hcode, hnone] at hserial
    cases hserial
  number kind := by
    have hset : {n | kind.declaration n ∈ p.lines} =
        ((declaredSerials kind p.code).toFinset : Set Nat) := by
      ext n
      rw [Set.mem_ofPred_eq, h.declaration_mem_lines, Finset.mem_coe, List.mem_toFinset]
    rw [hset, Set.ncard_coe_finset, List.toFinset_card_of_nodup (h.increasing kind).nodup,
      h.length_declaredSerials]

end Program.Reached

/-- The generated labels are in order after every history of attempts to add modules, and if no
attempt has failed, their serial numbers have no gaps. -/
theorem generated_labels (options : Options) (attempts : List (Source × String)) :
    ((Program.empty options).addEach attempts).LabelsInOrder ∧
      ((Program.empty options).accepts attempts = true → ∀ (kind : LabelKind) n,
        kind.declaration n ∈ ((Program.empty options).addEach attempts).lines ↔
          n < ((Program.empty options).addEach attempts).taken kind) := by
  have horder := ((.empty : Program.Reached options _).addEach attempts).labelsInOrder
  refine ⟨horder, fun haccepts kind n => ?_⟩
  generalize hp : (Program.empty options).addEach attempts = p at horder ⊢
  have hcounter : kind.counter p.serials = p.taken kind :=
    hp ▸ Program.counter_addEach kind (Program.counter_empty options kind) haccepts
  -- as many serial numbers as there are below the counter, all of them below it
  have hsubset : {n | kind.declaration n ∈ p.lines} ⊆ Finset.range (p.taken kind) :=
    fun n hn => Finset.mem_coe.mpr (Finset.mem_range.mpr (hcounter ▸ horder.below kind n hn))
  have heq := Set.eq_of_subset_of_ncard_le hsubset (by
    rw [horder.number, Set.ncard_coe_finset, Finset.card_range])
  rw [← Finset.mem_range, ← Finset.mem_coe, ← heq, Set.mem_ofPred_eq]

/-- One module twice, with a comparison and a call, behind the bootstrap. -/
def repeatedModules : List (Source × String) :=
  List.replicate 2 (.ofMemory [("Sys", "function Sys.init 0\nlt\ncall Sys.init 0")], "Sys")

theorem generated_labels_repeated :
    (Program.empty { bootstrap := true }).accepts repeatedModules = true ∧
      ((Program.empty { bootstrap := true }).addEach repeatedModules).LabelsInOrder ∧
      ∀ n, LabelKind.back.declaration n ∈
        ((Program.empty { bootstrap := true }).addEach repeatedModules).lines ↔ n < 3 := by
  have haccepts : (Program.empty { bootstrap := true }).accepts repeatedModules = true := by
    decide +kernel
  have htaken :
      ((Program.empty { bootstrap := true }).addEach repeatedModules).taken .back = 3 := by
    decide +kernel
  obtain ⟨horder, hexact⟩ := generated_labels { bootstrap := true } repeatedModules
  exact ⟨haccepts, horder, fun n => htaken ▸ hexact haccepts .back n⟩

end HackVM
