import Mathlib.Data.List.Forall2
import HackVM.Proofs.GeneratedLabels

/-! Programs up to the serial numbers of their generated labels.

A program depends on its past through the serial numbers alone: a renumbering that keeps the
distances of the numbers still to be taken commutes with the expansion of a command
(`Context.code_renumber`), with the listing of a module (`listing_renumber`) and with an attempt to
add a module (`Program.add_renumber`). Two renumberings of one piece of code have the same lines
except for those of generated labels (`LinkedModule.alike`). -/

namespace HackVM

/-- New serial numbers for old ones. The two labels of a comparison share theirs. -/
structure Renumbering where
  comparisons : Nat → Nat
  calls : Nat → Nat

/-- The one of two values that belongs to a family: comparisons have two families, calls one. -/
def LabelKind.select (kind : LabelKind) (comparisons calls : α) : α :=
  match kind with
  | holds | done => comparisons
  | back => calls

namespace Renumbering

def index (ρ : Renumbering) (kind : LabelKind) : Nat → Nat :=
  kind.select ρ.comparisons ρ.calls

protected def id : Renumbering where
  comparisons n := n
  calls n := n

/-- All numbers go up by those that are taken in `s`. -/
def shift (s : Serials) : Renumbering where
  comparisons n := n + s.comparisons
  calls n := n + s.calls

/-- The numbers that are not taken in `s` keep their distances. -/
def ShiftsFrom (ρ : Renumbering) (s : Serials) : Prop :=
  ∀ (kind : LabelKind) n, kind.counter s ≤ n → ρ.index kind (n + 1) = ρ.index kind n + 1

theorem ShiftsFrom.mono {ρ : Renumbering} {s t : Serials} (h : ρ.ShiftsFrom s) (hle : s ≤ t) :
    ρ.ShiftsFrom t := by
  intro kind n hn
  exact h kind n (Nat.le_trans (hle kind) hn)

theorem index_shift (s : Serials) (kind : LabelKind) (n : Nat) :
    (shift s).index kind n = n + kind.counter s := by
  cases kind <;> rfl

theorem shift_shiftsFrom (s t : Serials) : (shift s).ShiftsFrom t := by
  intro kind n _
  rw [index_shift, index_shift]
  omega

end Renumbering

/-! ## Renumbering -/

def Serials.renumber (s : Serials) (ρ : Renumbering) : Serials where
  comparisons := ρ.comparisons s.comparisons
  calls := ρ.calls s.calls

def Symbol.renumber (ρ : Renumbering) : Symbol → Symbol
  | .generated kind n => .generated kind (ρ.index kind n)
  | s => s

def Statement.renumber (ρ : Renumbering) : Statement → Statement
  | .symbol s => .symbol (s.renumber ρ)
  | .label s => .label (s.renumber ρ)
  | s => s

def Context.renumber (ctx : Context) (ρ : Renumbering) : Context :=
  { ctx with serials := ctx.serials.renumber ρ }

def Block.renumber (ρ : Renumbering) (block : Block) : Block :=
  { block with code := block.code.map (·.renumber ρ) }

def LinkedModule.renumber (ρ : Renumbering) (m : LinkedModule) : LinkedModule :=
  { m with blocks := m.blocks.map (·.renumber ρ) }

def Listing.renumber (l : Listing) (ρ : Renumbering) : Listing :=
  { l with blocks := l.blocks.map (·.renumber ρ), serials := l.serials.renumber ρ }

def Program.renumber (p : Program) (ρ : Renumbering) : Program :=
  { p with serials := p.serials.renumber ρ, modules := p.modules.map (·.renumber ρ) }

theorem Serials.counter_renumber (s : Serials) (ρ : Renumbering) (kind : LabelKind) :
    kind.counter (s.renumber ρ) = ρ.index kind (kind.counter s) := by
  cases kind <;> rfl

theorem Serials.renumber_shift (s : Serials) : ({} : Serials).renumber (.shift s) = s := by
  simp [renumber, Renumbering.shift]

@[simp] theorem Symbol.renumber_pointer (ρ : Renumbering) (p : Pointer) :
    (Symbol.pointer p).renumber ρ = .pointer p := rfl

@[simp] theorem Symbol.renumber_name (ρ : Renumbering) (text : String) :
    (Symbol.name text).renumber ρ = .name text := rfl

namespace Statement

/-- The statement belongs to the label: it declares the label or loads its address. -/
def Mentions (s : Statement) (kind : LabelKind) (n : Nat) : Prop :=
  s = .symbol (.generated kind n) ∨ s = .label (.generated kind n)

theorem mentions_cases (s : Statement) :
    (∃ kind n, s.Mentions kind n) ∨ ∀ kind n, ¬ s.Mentions kind n := by
  by_cases h : ∃ kind n, s.Mentions kind n
  · exact .inl h
  · exact .inr fun kind n hs => h ⟨kind, n, hs⟩

theorem renumber_of_not_mentions {s : Statement} (ρ : Renumbering)
    (h : ∀ kind n, ¬ s.Mentions kind n) : s.renumber ρ = s := by
  cases s with
  | symbol t =>
    cases t with
    | generated kind n => exact absurd (.inl rfl) (h kind n)
    | _ => rfl
  | label t =>
    cases t with
    | generated kind n => exact absurd (.inr rfl) (h kind n)
    | _ => rfl
  | _ => rfl

theorem renumber_congr {s : Statement} {ρ σ : Renumbering}
    (h : ∀ kind n, s.Mentions kind n → ρ.index kind n = σ.index kind n) :
    s.renumber ρ = s.renumber σ := by
  rcases s.mentions_cases with ⟨kind, n, hs⟩ | hnone
  · have hindex := h kind n hs
    rcases hs with rfl | rfl <;> simp only [renumber, Symbol.renumber, hindex]
  · rw [renumber_of_not_mentions ρ hnone, renumber_of_not_mentions σ hnone]

@[simp] theorem renumber_id (s : Statement) : s.renumber .id = s := by
  rcases s.mentions_cases with ⟨kind, n, rfl | rfl⟩ | hnone
  · cases kind <;> rfl
  · cases kind <;> rfl
  · exact renumber_of_not_mentions _ hnone

end Statement

/-! ## Commands -/

namespace Context
variable (ctx : Context) (ρ : Renumbering)

@[simp] theorem label_renumber (name : String) : (ctx.renumber ρ).label name = ctx.label name := rfl

@[simp] theorem renumber_label (name : String) : (ctx.label name).renumber ρ = ctx.label name := by
  rcases ctx.label_cases name with h | ⟨_, _, h⟩ <;> rw [h] <;> rfl

/-- The code of a command has the serial numbers of its context. -/
theorem code_renumber (command : Command) : (ctx.renumber ρ).code command =
    (ctx.code command).map fun code => code.map (·.renumber ρ) := by
  cases command with
  | arithmetic op => cases op <;> rfl
  | push segment index =>
    simp only [code, Expansion.push]
    cases segment.checkIndex index with
    | error fault => rfl
    | ok _ => cases segment <;> rfl
  | pop segment index =>
    simp only [code, Expansion.pop]
    cases segment.checkIndex index with
    | error fault => cases segment <;> rfl
    | ok _ => cases segment <;> rfl
  | label name | goto name | ifGoto name =>
    simp [code, Expansion.label, Expansion.goto, Expansion.ifGoto, Expansion.popD, Except.map,
      Statement.renumber]
  | function name locals =>
    simp [code, Expansion.function, Except.map, Statement.renumber]
  | call name arguments =>
    simp only [code]
    cases checkArguments arguments with
    | error fault => rfl
    | ok _ => rfl
  | ret => rfl

variable {ctx ρ}

theorem after_renumber (h : ρ.ShiftsFrom ctx.serials) (command : Command) :
    (ctx.renumber ρ).after command = (ctx.after command).renumber ρ := by
  have hcomparisons := h .holds ctx.serials.comparisons (Nat.le_refl _)
  have hcalls := h .back ctx.serials.calls (Nat.le_refl _)
  simp only [Renumbering.index, LabelKind.select] at hcomparisons hcalls
  cases command with
  | arithmetic op =>
    cases op <;> simp [after, renumber, Serials.renumber, Serials.afterOperation,
      Serials.takeComparison, hcomparisons]
  | call name arguments =>
    simp [after, renumber, Serials.renumber, Serials.takeCall, hcalls]
  | _ => rfl

theorem serials_le_after (ctx : Context) (command : Command) :
    ctx.serials ≤ (ctx.after command).serials := by
  intro kind
  rw [after_counter]
  omega

theorem expand_renumber (h : ρ.ShiftsFrom ctx.serials) (command : Command) :
    (ctx.renumber ρ).expand command = (ctx.expand command).map fun (code, ctx') =>
      (code.map (·.renumber ρ), ctx'.renumber ρ) := by
  rw [expand, expand, code_renumber, after_renumber h]
  cases ctx.code command <;> rfl

end Context

/-! ## Modules -/

@[simp] theorem LinkedModule.renumber_id (m : LinkedModule) : m.renumber .id = m := by
  have hblock (block : Block) : block.renumber .id = block := by
    rw [Block.renumber, List.map_id'' Statement.renumber_id]
  rw [renumber, List.map_id'' hblock]

theorem Block.length_lines_renumber (ρ : Renumbering) (block : Block) :
    (block.renumber ρ).lines.length = block.lines.length := by
  simp [lines, renumber]

theorem LinkedModule.length_lines_renumber (ρ : Renumbering) (m : LinkedModule) :
    (m.renumber ρ).lines.length = m.lines.length := by
  simp only [lines, renumber, List.length_flatMap, List.map_map]
  congr 1
  exact List.map_congr_left fun block _ => block.length_lines_renumber ρ

/-- The lines of a module come to the same blocks, errors and events, whatever numbers are taken
before them. -/
theorem listing_renumber {ρ : Renumbering} {ctx : Context} (h : ρ.ShiftsFrom ctx.serials)
    (name : String) (n : Nat) (lines : Lines) :
    listing name (ctx.renumber ρ) n lines = (listing name ctx n lines).renumber ρ := by
  induction lines generalizing ctx n with
  | nil => rfl
  | cons line lines ih =>
    cases line with
    | error cause => rfl
    | ok line =>
      simp only [listing]
      cases normalLine? line with
      | none => exact ih h (n + 1)
      | some text =>
        dsimp only
        cases Command.read text with
        | error fault => rfl
        | ok command =>
          dsimp only
          rw [Context.expand_renumber h command]
          cases hexpand : ctx.expand command with
          | error fault => rfl
          | ok result =>
            obtain ⟨code, ctx'⟩ := result
            obtain ⟨_, rfl⟩ := expand_eq_ok hexpand
            have hafter := h.mono (ctx.serials_le_after command)
            simp only [Except.map, ih hafter (n + 1)]
            rfl

/-! ## Programs -/

namespace Program
variable (p : Program) (ρ : Renumbering)

theorem owner?_renumber (space : String) : (p.renumber ρ).owner? space = p.owner? space := by
  simp only [owner?, renumber, List.find?_map, Option.map_map]
  rfl

variable {p ρ}

theorem addLines_renumber (h : ρ.ShiftsFrom p.serials) (name : String) (lines : Lines) :
    (p.renumber ρ).addLines name lines =
      ((p.addLines name lines).1.renumber ρ, (p.addLines name lines).2) := by
  have hlisting := @listing_renumber ρ (p.context (namespaceOf name)) h name 1 lines
  have hcontext : (p.renumber ρ).context (namespaceOf name) =
      (p.context (namespaceOf name)).renumber ρ := rfl
  simp only [addLines, hcontext, hlisting, Listing.renumber]
  cases (listing name (p.context (namespaceOf name)) 1 lines).error? with
  | some error => rfl
  | none =>
    have hlength := LinkedModule.length_lines_renumber ρ
      ⟨name, (listing name (p.context (namespaceOf name)) 1 lines).blocks⟩
    simp only [LinkedModule.renumber] at hlength
    simp [renumber, LinkedModule.renumber, hlength]

/-- The serial numbers that are taken decide nothing but the numbers of later labels. -/
theorem add_renumber (h : ρ.ShiftsFrom p.serials) (source : Source) (name : String) :
    (p.renumber ρ).add source name =
      ((p.add source name).1.renumber ρ, (p.add source name).2) := by
  unfold add
  cases source name with
  | error cause => rfl
  | ok lines =>
    simp only [owner?_renumber, addLines_renumber h]
    cases p.owner? (namespaceOf name) with
    | none => rfl
    | some owner => by_cases howner : owner = name <;> simp [howner]

end Program

/-! ## Lines -/

/-- Two lines that differ at most in a serial number: they belong to generated labels of one kind,
with numbers that are related, or they are the same and belong to none. -/
inductive Alike (related : LabelKind → Nat → Nat → Prop) : String → String → Prop
  | declaration : related kind n n' →
      Alike related (kind.declaration n) (kind.declaration n')
  | reference : related kind n n' → Alike related (kind.reference n) (kind.reference n')
  | same : (∀ kind n, line ≠ LabelKind.declaration kind n ∧ line ≠ LabelKind.reference kind n) →
      Alike related line line

theorem Alike.commentLine (related : LabelKind → Nat → Nat → Prop) (text : String) :
    Alike related (commentLine text) (commentLine text) :=
  .same fun kind n => ⟨commentLine_ne_label text _, commentLine_ne_reference text kind n⟩

theorem forall₂_flatMap {R : β → γ → Prop} {f : α → List β} {g : α → List γ} {xs : List α}
    (h : ∀ x ∈ xs, List.Forall₂ R (f x) (g x)) :
    List.Forall₂ R (xs.flatMap f) (xs.flatMap g) := by
  rw [List.flatMap_def, List.flatMap_def]
  apply List.rel_flatten
  rw [List.forall₂_map_left_iff, List.forall₂_map_right_iff]
  exact List.forall₂_same.mpr h

section
variable {related : LabelKind → Nat → Nat → Prop} {ρ σ : Renumbering}
  (hrelated : ∀ kind n, related kind (ρ.index kind n) (σ.index kind n))
include hrelated

theorem Statement.WellFormed.alike {s : Statement} (h : s.WellFormed) :
    Alike related (s.renumber ρ).text (s.renumber σ).text := by
  rcases s.mentions_cases with ⟨kind, n, rfl | rfl⟩ | hnone
  · exact .reference (hrelated kind n)
  · exact .declaration (hrelated kind n)
  · rw [renumber_of_not_mentions ρ hnone, renumber_of_not_mentions σ hnone]
    refine .same fun kind n => ⟨fun htext => ?_, fun htext => ?_⟩
    · exact hnone kind n (.inr ((text_eq_label_generated h).mp htext))
    · exact hnone kind n (.inl ((text_eq_symbol_generated h).mp htext))

/-- The comment and the lines of a piece of code, renumbered in two ways. -/
theorem alike_lines (text : String) {code : List Statement} (h : ∀ s ∈ code, s.WellFormed) :
    List.Forall₂ (Alike related)
      (commentLine text :: (code.map (·.renumber ρ)).map Statement.text)
      (commentLine text :: (code.map (·.renumber σ)).map Statement.text) := by
  refine .cons (.commentLine related text) ?_
  simp only [List.map_map, List.forall₂_map_left_iff, List.forall₂_map_right_iff]
  exact List.forall₂_same.mpr fun s hs => (h s hs).alike hrelated

theorem LinkedModule.alike {m : LinkedModule}
    (h : ∀ block ∈ m.blocks, ∀ s ∈ block.code, s.WellFormed) :
    List.Forall₂ (Alike related) (m.renumber ρ).lines (m.renumber σ).lines := by
  simp only [renumber, lines, List.flatMap_map]
  exact forall₂_flatMap fun block hblock => alike_lines hrelated block.text (h block hblock)

end

end HackVM
