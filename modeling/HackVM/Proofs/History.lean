import HackVM.Machine.Assembler
import HackVM.Proofs.Expansions

/-! How a program comes about.

`Listed ctx blocks ctx'` says that `blocks` are the expansions of commands one after another, from
the context `ctx` to `ctx'`; the lines of a module come to such blocks whether all of them are in
order or not (`listing_listed`). `Program.Reached` lists what an attempt to add a module can do to a
program: use up serial numbers, or put a module behind the others. Every history of attempts stays
inside it (`Reached.addEach`), so that what all programs have in common is proved by induction over
it. -/

namespace HackVM

/-! ## Listings -/

/-- Blocks that expand commands one after another, from one context to the next. -/
inductive Listed : Context → List Block → Context → Prop
  | nil : Listed ctx [] ctx
  | cons : normalLine? line = some text → Command.read text = .ok command →
      ctx.code command = .ok code →
      Listed (ctx.after command) blocks ctx' → Listed ctx (⟨text, command, code⟩ :: blocks) ctx'

theorem expand_eq_ok {ctx ctx' : Context} (h : ctx.expand command = .ok (code, ctx')) :
    ctx.code command = .ok code ∧ ctx' = ctx.after command := by
  obtain ⟨code', hcode, h⟩ := map_eq_ok.mp h
  cases h
  exact ⟨hcode, rfl⟩

/-- The lines of a module come to blocks that expand its commands, up to the first line that is not
in order. -/
theorem listing_listed (name : String) (ctx : Context) (n : Nat) (lines : Lines) :
    ∃ ctx', Listed ctx (listing name ctx n lines).blocks ctx' ∧
      (listing name ctx n lines).serials = ctx'.serials := by
  induction lines generalizing ctx n with
  | nil => exact ⟨ctx, .nil, rfl⟩
  | cons line lines ih =>
    cases line with
    | error cause => exact ⟨ctx, .nil, rfl⟩
    | ok line =>
      unfold listing
      split
      · exact ih ctx (n + 1)
      · rename_i hnormal
        split
        · exact ⟨ctx, .nil, rfl⟩
        · rename_i hread
          dsimp only
          split
          · exact ⟨ctx, .nil, rfl⟩
          · rename_i code ctx' hexpand
            obtain ⟨hcode, rfl⟩ := expand_eq_ok hexpand
            obtain ⟨ctx'', hlisted, hserials⟩ := ih (ctx.after _) (n + 1)
            exact ⟨ctx'', .cons hnormal hread hcode hlisted, hserials⟩

theorem Listed.append_inv (h : Listed ctx (xs ++ ys) ctx') :
    ∃ mid, Listed ctx xs mid ∧ Listed mid ys ctx' := by
  induction xs generalizing ctx with
  | nil => exact ⟨ctx, .nil, h⟩
  | cons block xs ih =>
    cases h with
    | cons hnormal hread hcode hrest =>
      obtain ⟨mid, hxs, hys⟩ := ih hrest
      exact ⟨mid, .cons hnormal hread hcode hxs, hys⟩

/-- A block inside a listing is expanded in the context that the blocks before it lead to. -/
theorem Listed.split (h : Listed ctx (xs ++ block :: ys) ctx') :
    ∃ mid, Listed ctx xs mid ∧ Command.read block.text = .ok block.command ∧
      mid.code block.command = .ok block.code := by
  obtain ⟨mid, hxs, hys⟩ := h.append_inv
  cases hys with
  | cons _ hread hcode _ => exact ⟨mid, hxs, hread, hcode⟩

/-- The function that the blocks leave open: that of the latest `function` command. -/
def enclosing? (blocks : List Block) : Option String :=
  (blocks.filterMap (·.command.opens?)).getLast?

instance : LE Serials where
  le s t := ∀ kind : LabelKind, kind.counter s ≤ kind.counter t

namespace Listed

theorem space_eq (h : Listed ctx blocks ctx') : ctx'.space = ctx.space := by
  induction h with
  | nil => rfl
  | cons _ _ _ _ ih => rw [ih, Context.after_space]

theorem scope_eq (h : Listed ctx blocks ctx') : ctx'.scope = ctx.scope := by
  induction h with
  | nil => rfl
  | cons _ _ _ _ ih => rw [ih, Context.after_scope]

theorem function?_eq (h : Listed ctx blocks ctx') :
    ctx'.function? = (enclosing? blocks).or ctx.function? := by
  induction h with
  | nil => rfl
  | @cons _ _ command ctx _ blocks _ _ _ _ _ ih =>
    rw [ih, Context.after_function?, enclosing?, enclosing?, List.filterMap_cons]
    cases command.opens? with
    | none => rfl
    | some name => simp [List.getLast?_cons]

theorem counter_eq (kind : LabelKind) (h : Listed ctx blocks ctx') :
    kind.counter ctx'.serials =
      kind.counter ctx.serials + blocks.countP (kind.takenBy ·.command) := by
  induction h with
  | nil => rfl
  | cons _ _ _ _ ih =>
    simp only [ih, Context.after_counter, List.countP_cons]
    omega

theorem serials_le (h : Listed ctx blocks ctx') : ctx.serials ≤ ctx'.serials := by
  intro kind
  rw [h.counter_eq kind]
  omega

/-- The text of a block is the normal form of a line. -/
theorem normal (h : Listed ctx blocks ctx') :
    ∀ block ∈ blocks, ∃ line, normalLine? line = some block.text := by
  induction h with
  | nil => simp
  | cons hnormal _ _ _ ih =>
    rw [List.forall_mem_cons]
    exact ⟨⟨_, hnormal⟩, ih⟩

theorem wellFormed (h : Listed ctx blocks ctx') (hctx : ctx.WellFormed) :
    ∀ block ∈ blocks, ∀ s ∈ block.code, s.WellFormed := by
  induction h with
  | nil => simp
  | cons _ hread hcode _ ih =>
    have hcommand := read_wellFormed hread
    intro block hblock
    rcases List.mem_cons.mp hblock with rfl | hblock
    · exact Context.code_wellFormed hctx hcommand hcode
    · exact ih (hctx.after hcommand) block hblock

end Listed

/-! ## Histories -/

namespace Program

/-- The programs that attempts to add modules can lead to. -/
inductive Reached (options : Options) : Program → Prop
  | empty : Reached options (.empty options)
  /-- An attempt that fails uses up serial numbers at most. -/
  | skip : Reached options p → p.serials ≤ s → Reached options { p with serials := s }
  | add : Reached options p → (∀ owner, p.owner? (namespaceOf name) = some owner → owner = name) →
      Listed (p.context (namespaceOf name)) blocks ctx →
      Reached options { p with serials := ctx.serials, modules := p.modules ++ [⟨name, blocks⟩] }

theorem addLines_cases (p : Program) (name : String) (lines : Lines) :
    (∃ error s, p.serials ≤ s ∧ (p.addLines name lines).1 = { p with serials := s } ∧
      (p.addLines name lines).2.value = .error error) ∨
    (∃ blocks ctx, Listed (p.context (namespaceOf name)) blocks ctx ∧
      (p.addLines name lines).1 =
        { p with serials := ctx.serials, modules := p.modules ++ [⟨name, blocks⟩] } ∧
      (p.addLines name lines).2.value = .ok blocks.length) := by
  obtain ⟨ctx, hlisted, hserials⟩ := listing_listed name (p.context (namespaceOf name)) 1 lines
  simp only [addLines]
  cases (listing name (p.context (namespaceOf name)) 1 lines).error? with
  | some error => exact .inl ⟨error, _, hserials ▸ hlisted.serials_le, rfl, rfl⟩
  | none => exact .inr ⟨_, ctx, hlisted, by rw [hserials], rfl⟩

/-- An attempt to add a module fails and leaves the modules as they are, or puts the module behind
the others, as the owner of its namespace. -/
theorem add_cases (source : Source) (p : Program) (name : String) :
    (∃ error s, p.serials ≤ s ∧ (p.add source name).1 = { p with serials := s } ∧
      (p.add source name).2.value = .error error) ∨
    (∃ blocks ctx, (∀ owner, p.owner? (namespaceOf name) = some owner → owner = name) ∧
      Listed (p.context (namespaceOf name)) blocks ctx ∧
      (p.add source name).1 =
        { p with serials := ctx.serials, modules := p.modules ++ [⟨name, blocks⟩] } ∧
      (p.add source name).2.value = .ok blocks.length) := by
  unfold add
  split
  · exact .inl ⟨_, p.serials, fun _ => Nat.le_refl _, rfl, rfl⟩
  · rename_i lines _
    split
    · rename_i howner
      rcases p.addLines_cases name lines with h | ⟨blocks, ctx, hlisted, hprogram, hvalue⟩
      · exact .inl h
      · refine .inr ⟨blocks, ctx, fun owner h => ?_, hlisted, hprogram, hvalue⟩
        rw [howner] at h
        cases h
    · rename_i owner howner
      split
      · rename_i heq
        rcases p.addLines_cases name lines with h | ⟨blocks, ctx, hlisted, hprogram, hvalue⟩
        · exact .inl h
        · refine .inr ⟨blocks, ctx, fun owner' h => ?_, hlisted, hprogram, hvalue⟩
          rw [howner] at h
          cases h
          exact heq
      · exact .inl ⟨_, p.serials, fun _ => Nat.le_refl _, rfl, rfl⟩

theorem addAll_cons_eq_ok {p : Program} :
    (p.addAll source (name :: names)).value = .ok q ↔
      ∃ count, (p.add source name).2.value = .ok count ∧
        ((p.add source name).1.addAll source names).value = .ok q := by
  simp only [addAll]
  cases (p.add source name).2.value <;> simp

/-- The program after attempts to add modules, each from a source, whatever comes of them. -/
def addEach (p : Program) : List (Source × String) → Program
  | [] => p
  | (source, name) :: attempts => (p.add source name).1.addEach attempts

namespace Reached
variable {options : Options} {p : Program}

theorem addModule (h : Reached options p) (source : Source) (name : String) :
    Reached options (p.add source name).1 := by
  rcases p.add_cases source name with ⟨_, s, hs, hprogram, _⟩ | ⟨_, _, howner, hlisted, hprogram, _⟩
  · rw [hprogram]
    exact .skip h hs
  · rw [hprogram]
    exact .add h howner hlisted

theorem addEach (h : Reached options p) (attempts : List (Source × String)) :
    Reached options (p.addEach attempts) := by
  induction attempts generalizing p with
  | nil => exact h
  | cons attempt attempts ih => exact ih (h.addModule attempt.1 attempt.2)

theorem addAll (h : Reached options p) {source : Source} {names : List String} {q : Program}
    (hlink : (p.addAll source names).value = .ok q) : Reached options q := by
  induction names generalizing p with
  | nil =>
    cases hlink
    exact h
  | cons name names ih =>
    obtain ⟨_, _, hlink⟩ := addAll_cons_eq_ok.mp hlink
    exact ih (h.addModule source name) hlink

theorem options_eq (h : Reached options p) : p.options = options := by
  induction h with
  | empty => rfl
  | skip _ _ ih | add _ _ _ ih => exact ih

/-- Every module of a program is a listing from a fresh context in its namespace. -/
theorem listed (h : Reached options p) {m : LinkedModule} (hm : m ∈ p.modules) :
    ∃ serials ctx, Listed ⟨m.space, options.scope, none, serials⟩ m.blocks ctx := by
  induction h with
  | empty => cases hm
  | skip _ _ ih => exact ih hm
  | @add p _ _ ctx hp _ hlisted ih =>
    rcases List.mem_append.mp hm with hm | hm
    · exact ih hm
    · cases List.mem_singleton.mp hm
      rw [← hp.options_eq]
      exact ⟨p.serials, ctx, hlisted⟩

/-- A block of a program is expanded in the context that the blocks before it lead to. -/
theorem split (h : Reached options p) {m : LinkedModule} (hm : m ∈ p.modules)
    (hblocks : m.blocks = earlier ++ block :: later) :
    ∃ serials ctx, Listed ⟨m.space, options.scope, none, serials⟩ earlier ctx ∧
      Command.read block.text = .ok block.command ∧ ctx.code block.command = .ok block.code := by
  obtain ⟨serials, _, hlisted⟩ := h.listed hm
  rw [hblocks] at hlisted
  obtain ⟨ctx, hsplit⟩ := hlisted.split
  exact ⟨serials, ctx, hsplit⟩

theorem block_code (h : Reached options p) {m : LinkedModule} (hm : m ∈ p.modules)
    (hblock : block ∈ m.blocks) :
    ∃ ctx : Context, ctx.space = m.space ∧ ctx.code block.command = .ok block.code := by
  obtain ⟨earlier, later, hblocks⟩ := List.append_of_mem hblock
  obtain ⟨_, ctx, hlisted, _, hcode⟩ := h.split hm hblocks
  exact ⟨ctx, hlisted.space_eq, hcode⟩

theorem block_wellFormed (h : Reached options p) {m : LinkedModule} (hm : m ∈ p.modules)
    (hblock : block ∈ m.blocks) : ∀ s ∈ block.code, s.WellFormed := by
  obtain ⟨_, _, hlisted⟩ := h.listed hm
  exact hlisted.wellFormed ⟨⟨m.name, rfl⟩, nofun⟩ block hblock

/-- The names in a program are those of authors and modules. -/
theorem wellFormed (h : Reached options p) : ∀ s ∈ p.code, s.WellFormed := by
  intro s hs
  rcases List.mem_append.mp hs with hs | hs
  · split at hs
    · fin_cases hs <;> trivial
    · cases hs
  · obtain ⟨m, hm, hs⟩ := List.mem_flatMap.mp hs
    obtain ⟨block, hblock, hs⟩ := List.mem_flatMap.mp hs
    exact h.block_wellFormed hm hblock s hs

end Reached

end Program

/-! ## Linking -/

theorem link_value {source : Source} {options : Options} {names : List String} {p : Program}
    (h : ((Program.empty options).addAll source names).value = .ok p) :
    (link source options names).value = .ok p.lines := by
  simp only [link, h]

theorem exists_program_of_link {source : Source} {options : Options} {names : List String}
    (h : (link source options names).value = .ok lines) :
    ∃ p, ((Program.empty options).addAll source names).value = .ok p ∧ lines = p.lines := by
  simp only [link] at h
  split at h
  · cases h
  · rename_i p hp
    cases h
    exact ⟨p, hp, rfl⟩

/-! ## Groups of lines -/

theorem commentLine_ne_label (text name : String) : commentLine text ≠ "(" ++ name ++ ")" := by
  intro h
  have hchars := congrArg (fun line => line.toList.head?) h
  simp [commentLine] at hchars

/-- A comment and the statements that go with it: those of a command, or of the bootstrap. -/
structure Group where
  text : String
  code : List Statement

def Group.lines (group : Group) : List String :=
  commentLine group.text :: group.code.map Statement.text

namespace Program

def groups (p : Program) : List Group :=
  (if p.options.bootstrap then [⟨"bootstrap", Expansion.bootstrap 0⟩] else []) ++
    p.modules.flatMap fun m => m.blocks.map fun block => ⟨block.text, block.code⟩

theorem lines_eq_groups (p : Program) : p.lines = p.groups.flatMap Group.lines := by
  simp only [lines, groups, List.flatMap_append, List.flatMap_assoc, List.flatMap_map]
  congr 1
  split <;> rfl

theorem code_eq_groups (p : Program) : p.code = p.groups.flatMap Group.code := by
  simp only [code, groups, List.flatMap_append, List.flatMap_assoc, List.flatMap_map]
  congr 1
  split <;> rfl

theorem groups_cases {p : Program} {group : Group} (h : group ∈ p.groups) :
    (p.options.bootstrap = true ∧ group = ⟨"bootstrap", Expansion.bootstrap 0⟩) ∨
      ∃ m ∈ p.modules, ∃ block ∈ m.blocks, group = ⟨block.text, block.code⟩ := by
  rcases List.mem_append.mp h with h | h
  · split at h
    · exact .inl ⟨‹_›, List.mem_singleton.mp h⟩
    · cases h
  · obtain ⟨m, hm, h⟩ := List.mem_flatMap.mp h
    obtain ⟨block, hblock, rfl⟩ := List.mem_map.mp h
    exact .inr ⟨m, hm, block, hblock, rfl⟩

end Program

end HackVM
