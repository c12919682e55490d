import Mathlib.Tactic.FinCases
import HackVM.Command.Reader
import HackVM.Proofs.SymbolTexts
import HackVM.Semantics

/-! Facts about single commands: what reading one guarantees, which statements its code has
(`Context.emits_of_mem`), which generated labels the code declares, and how the context moves on.

A family of generated labels has a counter (`LabelKind.counter`) and commands that take a number
from it (`LabelKind.takenBy`); the three families are treated alike. -/

namespace HackVM

theorem bind_eq_ok {x : Except ε α} {f : α → Except ε β} :
    (x >>= f) = .ok b ↔ ∃ a, x = .ok a ∧ f a = .ok b := by
  cases x <;> simp [bind, Except.bind]

theorem map_eq_ok {x : Except ε α} {f : α → β} : x.map f = .ok b ↔ ∃ a, x = .ok a ∧ f a = b := by
  cases x <;> simp [Except.map]

/-! ## Commands that have been read -/

/-- The names in a command are those of an author. -/
def Command.WellFormed : Command → Prop
  | .label name | .goto name | .ifGoto name | .function name _ | .call name _ =>
    isSymbol name = true
  | .arithmetic _ | .push .. | .pop .. | .ret => True

/-- The numbers in a command are inside the limits of its expansion. -/
def Command.Fits : Command → Prop
  | .push segment index | .pop segment index => index ≤ segment.maxIndex
  | .call _ arguments => arguments ≤ Word.maxLiteral
  | _ => True

theorem readSymbol_eq_ok (h : readSymbol token = .ok name) : isSymbol name = true := by
  rw [readSymbol] at h
  split at h
  · rename_i hsymbol
    cases h
    exact hsymbol
  · cases h

theorem checkIndex_eq_ok {segment : Segment} {index : Word} (h : segment.checkIndex index = .ok u) :
    index ≤ segment.maxIndex := by
  rw [Segment.checkIndex] at h
  split at h
  · assumption
  · cases h

theorem checkArguments_eq_ok {count : Word} (h : checkArguments count = .ok u) :
    count ≤ Word.maxLiteral := by
  rw [checkArguments] at h
  split at h
  · assumption
  · cases h

theorem readCell_eq_ok {segment index : String} (h : readCell segment index = .ok cell) :
    cell.2 ≤ cell.1.maxIndex := by
  obtain ⟨_, _, h⟩ := bind_eq_ok.mp h
  obtain ⟨_, _, h⟩ := bind_eq_ok.mp h
  obtain ⟨_, hindex, h⟩ := bind_eq_ok.mp h
  cases h
  exact checkIndex_eq_ok hindex

theorem command_inOrder {result : Command} {keyword : Keyword} {words : List String}
    (h : keyword.command words = .ok result) : result.WellFormed ∧ result.Fits := by
  unfold Keyword.command at h
  split at h
  · obtain ⟨cell, hcell, rfl⟩ := map_eq_ok.mp h
    exact ⟨trivial, readCell_eq_ok hcell⟩
  · obtain ⟨cell, hcell, rfl⟩ := map_eq_ok.mp h
    exact ⟨trivial, readCell_eq_ok hcell⟩
  · obtain ⟨name, hname, rfl⟩ := map_eq_ok.mp h
    exact ⟨readSymbol_eq_ok hname, trivial⟩
  · obtain ⟨name, hname, rfl⟩ := map_eq_ok.mp h
    exact ⟨readSymbol_eq_ok hname, trivial⟩
  · obtain ⟨name, hname, rfl⟩ := map_eq_ok.mp h
    exact ⟨readSymbol_eq_ok hname, trivial⟩
  · obtain ⟨name, hname, h⟩ := bind_eq_ok.mp h
    obtain ⟨locals, _, h⟩ := bind_eq_ok.mp h
    cases h
    exact ⟨readSymbol_eq_ok hname, trivial⟩
  · obtain ⟨name, hname, h⟩ := bind_eq_ok.mp h
    obtain ⟨arguments, _, h⟩ := bind_eq_ok.mp h
    obtain ⟨_, harguments, h⟩ := bind_eq_ok.mp h
    cases h
    exact ⟨readSymbol_eq_ok hname, checkArguments_eq_ok harguments⟩
  · cases h
    exact ⟨trivial, trivial⟩
  · cases h
    exact ⟨trivial, trivial⟩
  · cases h

theorem read_inOrder {result : Command} (h : Command.read line = .ok result) :
    result.WellFormed ∧ result.Fits := by
  unfold Command.read at h
  split at h
  · cases h
  · split at h
    · exact command_inOrder h
    · cases h

theorem read_wellFormed {result : Command} (h : Command.read line = .ok result) :
    result.WellFormed :=
  (read_inOrder h).1

/-! ## Moves between a segment and the stack -/

theorem push_eq_ok {segment : Segment} (h : Expansion.push space segment index = .ok code) :
    index ≤ segment.maxIndex ∧
      code = Expansion.fetch (segment.place space index) ++ Expansion.pushD := by
  obtain ⟨_, hindex, h⟩ := bind_eq_ok.mp h
  cases h
  exact ⟨checkIndex_eq_ok hindex, rfl⟩

/-- The part of `pop` behind the address, which is in `D`. -/
def popInto : List Statement :=
  .register 13 :: .set .m (.reg .d) ::
    (Expansion.popD ++ ([.register 13, .set .a (.reg .m), .set .m (.reg .d)] : List Statement))

theorem pop_eq_ok {segment : Segment} (h : Expansion.pop space segment index = .ok code) :
    ∃ address, Expansion.locate? (segment.place space index) = some address ∧
      index ≤ segment.maxIndex ∧ code = address ++ popInto := by
  rw [Expansion.pop] at h
  split at h
  · cases h
  · rename_i address haddress
    obtain ⟨_, hindex, h⟩ := bind_eq_ok.mp h
    refine ⟨address, haddress, checkIndex_eq_ok hindex, ?_⟩
    rw [← Except.ok.inj h, List.append_assoc, List.append_assoc]
    rfl

/-! ## Serial numbers -/

def Operation.isComparison : Operation → Bool
  | .eq | .gt | .lt => true
  | _ => false

namespace Command

def isComparison : Command → Bool
  | .arithmetic op => op.isComparison
  | _ => false

def isCall : Command → Bool
  | .call _ _ => true
  | _ => false

/-- The function that a command opens. -/
def opens? : Command → Option String
  | .function name _ => some name
  | _ => none

end Command

namespace LabelKind

/-- The next serial number of a family. -/
def counter (kind : LabelKind) (s : Serials) : Nat :=
  match kind with
  | holds | done => s.comparisons
  | back => s.calls

/-- The commands that take a serial number of a family. -/
def takenBy (kind : LabelKind) (command : Command) : Bool :=
  match kind with
  | holds | done => command.isComparison
  | back => command.isCall

end LabelKind

namespace Context
variable (ctx : Context) (command : Command)

@[simp] theorem after_space : (ctx.after command).space = ctx.space := by
  cases command <;> rfl

@[simp] theorem after_scope : (ctx.after command).scope = ctx.scope := by
  cases command <;> rfl

theorem after_function? : (ctx.after command).function? = command.opens?.or ctx.function? := by
  cases command <;> rfl

theorem after_counter (kind : LabelKind) : kind.counter (ctx.after command).serials =
    kind.counter ctx.serials + if kind.takenBy command then 1 else 0 := by
  cases command with
  | arithmetic op => cases kind <;> cases op <;> rfl
  | _ => cases kind <;> rfl

end Context

/-- The serial number that a statement declares in a family. -/
def Statement.declares? (kind : LabelKind) : Statement → Option Nat
  | .label (.generated kind' serial) => if kind' = kind then some serial else none
  | _ => none

/-- The serial numbers that a piece of code declares in a family, in order. -/
def declaredSerials (kind : LabelKind) (code : List Statement) : List Nat :=
  code.filterMap (Statement.declares? kind)

@[simp] theorem declaredSerials_append (kind : LabelKind) (xs ys : List Statement) :
    declaredSerials kind (xs ++ ys) = declaredSerials kind xs ++ declaredSerials kind ys :=
  List.filterMap_append

/-! ## The code of a command -/

namespace Context

/-- A label in the code is a name, or a name inside a function. -/
theorem label_cases (ctx : Context) (name : String) :
    ctx.label name = .name name ∨
      ∃ function, ctx.function? = some function ∧ ctx.label name = .within function name := by
  rw [label]
  split
  · rename_i function _ hfunction
    exact .inr ⟨function, hfunction, rfl⟩
  · exact .inl rfl

theorem label_ne_generated (ctx : Context) (name : String) (kind : LabelKind) (serial : Nat) :
    ctx.label name ≠ .generated kind serial := by
  rcases ctx.label_cases name with h | ⟨_, _, h⟩ <;> rw [h] <;> nofun

theorem text_label (ctx : Context) (name : String) :
    (ctx.label name).text = ctx.scope.qualify ctx.function? name := by
  unfold label LabelScope.qualify
  cases ctx.scope <;> cases ctx.function? <;> rfl

end Context

theorem declares?_label {s : Symbol} (h : ∀ serial, s ≠ .generated kind serial) :
    (Statement.label s).declares? kind = none := by
  cases s with
  | generated kind' serial =>
    refine if_neg fun hkind => h serial ?_
    rw [hkind]
  | _ => rfl

theorem declaredSerials_label {s : Symbol} (h : ∀ serial, s ≠ .generated kind serial) :
    declaredSerials kind (Expansion.label s) = [] := by
  rw [declaredSerials, Expansion.label, List.filterMap_cons_none (declares?_label h)]
  rfl

theorem declaredSerials_function (kind : LabelKind) (name : String) (locals : Word) :
    declaredSerials kind (Expansion.function name locals) = [] := by
  refine List.filterMap_eq_nil_iff.mpr fun s hs => ?_
  simp only [Expansion.function, List.mem_cons, List.mem_flatten, List.mem_replicate] at hs
  rcases hs with rfl | ⟨piece, ⟨_, rfl⟩, hs⟩
  · rfl
  · fin_cases hs <;> rfl

/-- A command declares the label of a family for the serial number that it takes, and no other. -/
theorem Context.declaredSerials_code {ctx : Context} {command : Command} {code : List Statement}
    (kind : LabelKind) (h : ctx.code command = .ok code) :
    declaredSerials kind code =
      if kind.takenBy command then [kind.counter ctx.serials] else [] := by
  cases command with
  | arithmetic op =>
    cases h
    cases kind <;> cases op <;> rfl
  | push segment index =>
    rw [(push_eq_ok h).2]
    cases kind <;> cases segment <;> rfl
  | pop segment index =>
    obtain ⟨address, haddress, _, rfl⟩ := pop_eq_ok h
    cases segment <;> cases haddress <;> cases kind <;> rfl
  | label name =>
    cases h
    rw [declaredSerials_label fun serial => ctx.label_ne_generated name kind serial]
    cases kind <;> rfl
  | goto | ifGoto =>
    cases h
    cases kind <;> rfl
  | function name locals =>
    cases h
    rw [declaredSerials_function]
    cases kind <;> rfl
  | call name arguments =>
    obtain ⟨_, _, h⟩ := bind_eq_ok.mp h
    cases h
    cases kind <;> rfl
  | ret =>
    cases h
    cases kind <;> rfl

/-! ## Names in the code -/

namespace Context

/-- The names in a context are those of a module and an author. -/
structure WellFormed (ctx : Context) : Prop where
  space : ∃ name, ctx.space = namespaceOf name
  function? : ∀ name, ctx.function? = some name → isSymbol name = true

theorem WellFormed.after {ctx : Context} {command : Command} (h : ctx.WellFormed)
    (hcommand : command.WellFormed) : (ctx.after command).WellFormed where
  space := by
    rw [after_space]
    exact h.space
  function? name hname := by
    rw [after_function?] at hname
    cases command with
    | function => exact Option.some.inj hname ▸ hcommand
    | _ => exact h.function? name hname

theorem WellFormed.label {ctx : Context} (h : ctx.WellFormed) (hname : isSymbol name = true) :
    (ctx.label name).WellFormed := by
  rcases ctx.label_cases name with hlabel | ⟨function, hfunction, hlabel⟩
  · rw [hlabel]
    exact hname
  · rw [hlabel]
    exact ⟨h.function? function hfunction, hname⟩

end Context

/-- The statements that the code of a command can have. -/
inductive Context.Emits (ctx : Context) : Command → Statement → Prop
  | compute : Emits ctx command (.compute dest comp condition)
  | number : value ≤ Word.maxLiteral → Emits ctx command (.number value)
  | pointer : Emits ctx command (.pointer p)
  | register : 5 ≤ n → n ≤ 15 → Emits ctx command (.register n)
  | pushStatic : Emits ctx (.push .static index) (.symbol (.static ctx.space index))
  | popStatic : Emits ctx (.pop .static index) (.symbol (.static ctx.space index))
  | label : Emits ctx (.label name) (.label (ctx.label name))
  | goto : Emits ctx (.goto name) (.symbol (ctx.label name))
  | ifGoto : Emits ctx (.ifGoto name) (.symbol (ctx.label name))
  | function : Emits ctx (.function name locals) (.label (.name name))
  | call : Emits ctx (.call name arguments) (.symbol (.name name))
  | reference : kind.takenBy command = true →
      Emits ctx command (.symbol (.generated kind (kind.counter ctx.serials)))
  | declaration : kind.takenBy command = true →
      Emits ctx command (.label (.generated kind (kind.counter ctx.serials)))

namespace Context
variable {ctx : Context}

theorem emits_pushD (command : Command) : ∀ s ∈ Expansion.pushD, ctx.Emits command s := by
  simp only [Expansion.pushD, List.forall_mem_cons]
  exact ⟨.pointer, .compute, .compute, .compute, List.forall_mem_nil _⟩

theorem emits_popD (command : Command) : ∀ s ∈ Expansion.popD, ctx.Emits command s := by
  simp only [Expansion.popD, List.forall_mem_cons]
  exact ⟨.pointer, .compute, .compute, List.forall_mem_nil _⟩

theorem emits_popInto (command : Command) : ∀ s ∈ popInto, ctx.Emits command s := by
  simp only [popInto, List.forall_mem_cons, List.forall_mem_append]
  exact ⟨.register (by decide) (by decide), .compute, emits_popD command,
    .register (by decide) (by decide), .compute, .compute, List.forall_mem_nil _⟩

theorem emits_arithmetic (op : Operation) :
    ∀ s ∈ Expansion.arithmetic op ctx.serials.comparisons, ctx.Emits (.arithmetic op) s := by
  have hcompare (jump : Jump) (hop : op.isComparison = true) :
      ∀ s ∈ Expansion.compare jump ctx.serials.comparisons, ctx.Emits (.arithmetic op) s := by
    have hholds : LabelKind.holds.takenBy (.arithmetic op) = true := hop
    have hdone : LabelKind.done.takenBy (.arithmetic op) = true := hop
    simp only [Expansion.compare, List.forall_mem_append, List.forall_mem_cons]
    exact ⟨emits_popD _, .compute, .compute, .reference hholds, .compute, .compute,
      .reference hdone, .compute, .declaration hholds, .compute, .declaration hdone, .pointer,
      .compute, .compute, List.forall_mem_nil _⟩
  cases op with
  | eq | gt | lt => exact hcompare _ rfl
  | not | neg =>
    simp only [Expansion.arithmetic, Expansion.unary, List.forall_mem_cons]
    exact ⟨.pointer, .compute, .compute, List.forall_mem_nil _⟩
  | add | sub | and | or =>
    simp only [Expansion.arithmetic, Expansion.binary, List.forall_mem_append,
      List.forall_mem_cons]
    exact ⟨emits_popD _, .compute, .compute, List.forall_mem_nil _⟩

theorem temp_register {index : Word} (h : index ≤ Segment.temp.maxIndex) :
    5 ≤ tempBase + index.toNat ∧ tempBase + index.toNat ≤ 15 := by
  have hindex : index.toNat ≤ 7 := h
  simp only [tempBase]
  omega

theorem emits_fetch {segment : Segment} {index : Word} (h : index ≤ segment.maxIndex) :
    ∀ s ∈ Expansion.fetch (segment.place ctx.space index), ctx.Emits (.push segment index) s := by
  cases segment with
  | constant =>
    simp only [Segment.place, Expansion.fetch, List.forall_mem_cons]
    exact ⟨.number h, .compute, List.forall_mem_nil _⟩
  | locals | argument | this | that =>
    simp only [Segment.place, Expansion.fetch, List.forall_mem_cons]
    exact ⟨.pointer, .compute, .number h, .compute, .compute, List.forall_mem_nil _⟩
  | static =>
    simp only [Segment.place, Expansion.fetch, List.forall_mem_cons]
    exact ⟨.pushStatic, .compute, List.forall_mem_nil _⟩
  | pointer =>
    simp only [Segment.place, Expansion.fetch, List.forall_mem_cons]
    exact ⟨.pointer, .compute, List.forall_mem_nil _⟩
  | temp =>
    obtain ⟨hlow, hhigh⟩ := temp_register h
    simp only [Segment.place, Expansion.fetch, List.forall_mem_cons]
    exact ⟨.register hlow hhigh, .compute, List.forall_mem_nil _⟩

theorem emits_locate? {segment : Segment} {index : Word} (h : index ≤ segment.maxIndex)
    (haddress : Expansion.locate? (segment.place ctx.space index) = some address) :
    ∀ s ∈ address, ctx.Emits (.pop segment index) s := by
  cases segment with
  | constant => cases haddress
  | locals | argument | this | that =>
    cases haddress
    simp only [List.forall_mem_cons]
    exact ⟨.pointer, .compute, .number h, .compute, List.forall_mem_nil _⟩
  | static =>
    cases haddress
    simp only [List.forall_mem_cons]
    exact ⟨.popStatic, .compute, List.forall_mem_nil _⟩
  | pointer =>
    cases haddress
    simp only [List.forall_mem_cons]
    exact ⟨.pointer, .compute, List.forall_mem_nil _⟩
  | temp =>
    obtain ⟨hlow, hhigh⟩ := temp_register h
    cases haddress
    simp only [List.forall_mem_cons]
    exact ⟨.register hlow hhigh, .compute, List.forall_mem_nil _⟩

theorem emits_call {name : String} {arguments : Word} (h : arguments ≤ Word.maxLiteral) :
    ∀ s ∈ Expansion.call name arguments ctx.serials.calls, ctx.Emits (.call name arguments) s := by
  have hback : LabelKind.back.takenBy (.call name arguments) = true := rfl
  have hsaved (p : Pointer) : ∀ s ∈ [Statement.pointer p, .set .d (.reg .m)] ++ Expansion.pushD,
      ctx.Emits (.call name arguments) s := by
    simp only [List.forall_mem_append, List.forall_mem_cons]
    exact ⟨⟨.pointer, .compute, List.forall_mem_nil _⟩, emits_pushD _⟩
  simp only [Expansion.call, List.forall_mem_append, List.forall_mem_cons]
  refine ⟨⟨⟨⟨.reference hback, .compute, List.forall_mem_nil _⟩, emits_pushD _⟩, fun s hs => ?_⟩,
    .pointer, .compute, .number (by decide), .compute, .number h, .compute, .pointer, .compute,
    .pointer, .compute, .pointer, .compute, .call, .compute, .declaration hback,
    List.forall_mem_nil _⟩
  obtain ⟨p, _, hs⟩ := List.mem_flatMap.mp hs
  exact hsaved p s hs

theorem emits_ret : ∀ s ∈ Expansion.ret, ctx.Emits .ret s := by
  have hframe : ctx.Emits .ret (.register 14) := .register (by decide) (by decide)
  have haddress : ctx.Emits .ret (.register 15) := .register (by decide) (by decide)
  have hrestored (p : Pointer) : ∀ s ∈ [Statement.register 14, .set .am (.pred .m),
      .set .d (.reg .m), .pointer p, .set .m (.reg .d)], ctx.Emits .ret s := by
    simp only [List.forall_mem_cons]
    exact ⟨hframe, .compute, .compute, .pointer, .compute, List.forall_mem_nil _⟩
  simp only [Expansion.ret, List.forall_mem_append, List.forall_mem_cons]
  refine ⟨⟨⟨⟨⟨.pointer, .compute, hframe, .compute, .number (by decide), .compute, .compute,
    haddress, .compute, List.forall_mem_nil _⟩, emits_popD _⟩, .pointer, .compute, .compute,
    .pointer, .compute, .pointer, .compute, List.forall_mem_nil _⟩, fun s hs => ?_⟩, haddress,
    .compute, .compute, List.forall_mem_nil _⟩
  obtain ⟨p, _, hs⟩ := List.mem_flatMap.mp hs
  exact hrestored p s hs

/-- What the code of a command consists of. -/
theorem emits_of_mem {command : Command} {code : List Statement}
    (h : ctx.code command = .ok code) : ∀ s ∈ code, ctx.Emits command s := by
  cases command with
  | arithmetic op =>
    cases h
    exact emits_arithmetic op
  | push segment index =>
    obtain ⟨hindex, rfl⟩ := push_eq_ok h
    rw [List.forall_mem_append]
    exact ⟨emits_fetch hindex, emits_pushD _⟩
  | pop segment index =>
    obtain ⟨address, haddress, hindex, rfl⟩ := pop_eq_ok h
    rw [List.forall_mem_append]
    exact ⟨emits_locate? hindex haddress, emits_popInto _⟩
  | label name =>
    cases h
    exact List.forall_mem_singleton.mpr .label
  | goto name =>
    cases h
    simp only [Expansion.goto, List.forall_mem_cons]
    exact ⟨.goto, .compute, List.forall_mem_nil _⟩
  | ifGoto name =>
    cases h
    simp only [Expansion.ifGoto, List.forall_mem_append, List.forall_mem_cons]
    exact ⟨emits_popD _, .ifGoto, .compute, List.forall_mem_nil _⟩
  | function name locals =>
    cases h
    rw [Expansion.function, List.forall_mem_cons]
    refine ⟨.function, fun s hs => ?_⟩
    simp only [List.mem_flatten, List.mem_replicate] at hs
    obtain ⟨piece, ⟨_, rfl⟩, hs⟩ := hs
    revert s
    simp only [List.forall_mem_cons]
    exact ⟨.pointer, .compute, .compute, .compute, List.forall_mem_nil _⟩
  | call name arguments =>
    obtain ⟨_, harguments, h⟩ := bind_eq_ok.mp h
    cases h
    exact emits_call (checkArguments_eq_ok harguments)
  | ret =>
    cases h
    exact emits_ret

theorem code_wellFormed {command : Command} {code : List Statement} (hctx : ctx.WellFormed)
    (hcommand : command.WellFormed) (h : ctx.code command = .ok code) :
    ∀ s ∈ code, s.WellFormed := by
  intro s hs
  cases emits_of_mem h s hs with
  | compute | number | pointer | register | reference | declaration => trivial
  | pushStatic | popStatic => exact hctx.space
  | label | goto | ifGoto => exact hctx.label hcommand
  | function | call => exact hcommand

end Context

end HackVM
