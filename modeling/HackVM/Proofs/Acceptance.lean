import HackVM.Proofs.StaticCells

/-! Which modules are in order.

The limits that expansion sets are those that reading has checked, so that of the commands that can
be read only one that writes to a number cannot be expanded (`Context.expands_iff`). Whether the
lines of a module are in order is then a matter of each line alone (`listing_error?_eq_none`), and
modules that are in order come together exactly if their namespaces do not clash
(`Reached.addAll_isOk_iff`). -/

namespace HackVM

/-! ## Commands -/

/-- A command can be expanded exactly if its numbers are inside the limits and it does not write to
a number, and in no context more or less than in another. -/
theorem Context.code_isOk_iff (ctx : Context) (command : Command) :
    (∃ code, ctx.code command = .ok code) ↔
      command.Fits ∧ ∀ index, command ≠ .pop .constant index := by
  cases command with
  | push segment index =>
    constructor
    · rintro ⟨_, hcode⟩
      exact ⟨(push_eq_ok hcode).1, fun _ heq => by cases heq⟩
    · rintro ⟨hfits, _⟩
      exact ⟨_, bind_eq_ok.mpr ⟨(), if_pos hfits, rfl⟩⟩
  | pop segment index =>
    constructor
    · rintro ⟨_, hcode⟩
      obtain ⟨_, haddress, hfits, _⟩ := pop_eq_ok hcode
      refine ⟨hfits, fun other heq => ?_⟩
      cases heq
      cases haddress
    · rintro ⟨hfits, hconstant⟩
      have hcheck : segment.checkIndex index = .ok () := if_pos hfits
      simp only [code, Expansion.pop, hcheck]
      cases segment with
      | constant => exact absurd rfl (hconstant index)
      | _ => exact ⟨_, rfl⟩
  | call name arguments =>
    constructor
    · rintro ⟨_, hcode⟩
      obtain ⟨_, harguments, _⟩ := bind_eq_ok.mp hcode
      exact ⟨checkArguments_eq_ok harguments, fun _ heq => by cases heq⟩
    · rintro ⟨hfits, _⟩
      exact ⟨_, bind_eq_ok.mpr ⟨(), if_pos hfits, rfl⟩⟩
  | _ => exact ⟨fun _ => ⟨trivial, fun _ heq => by cases heq⟩, fun _ => ⟨_, rfl⟩⟩

/-- Of the commands that can be read only one that writes to a number cannot be expanded. -/
theorem Context.expands_iff (ctx : Context) (hread : Command.read line = .ok command) :
    (∃ code, ctx.code command = .ok code) ↔ ∀ index, command ≠ .pop .constant index := by
  rw [code_isOk_iff]
  exact and_iff_right (read_inOrder hread).2

/-! ## Lines -/

/-- The line can be read, and a command that stands on it is one that can be expanded. -/
def LineInOrder (line : Except AccessError String) : Prop :=
  ∃ text, line = .ok text ∧ ∀ normal, normalLine? text = some normal →
    ∃ command, Command.read normal = .ok command ∧ ∀ index, command ≠ .pop .constant index

theorem LineInOrder.of_blank (h : normalLine? line = none) : LineInOrder (.ok line) := by
  refine ⟨line, rfl, fun normal hnormal => ?_⟩
  rw [h] at hnormal
  cases hnormal

theorem lineInOrder_iff (h : normalLine? line = some normal) : LineInOrder (.ok line) ↔
    ∃ command, Command.read normal = .ok command ∧ ∀ index, command ≠ .pop .constant index := by
  constructor
  · rintro ⟨_, heq, hcommand⟩
    cases heq
    exact hcommand normal h
  · intro hcommand
    refine ⟨line, rfl, fun normal' hnormal => ?_⟩
    rw [h] at hnormal
    cases hnormal
    exact hcommand

/-- A listing comes to its end exactly if every line is in order, each on its own. -/
theorem listing_error?_eq_none (name : String) (ctx : Context) (n : Nat) (lines : Lines) :
    (listing name ctx n lines).error? = none ↔ ∀ line ∈ lines, LineInOrder line := by
  induction lines generalizing ctx n with
  | nil => exact iff_of_true rfl (List.forall_mem_nil _)
  | cons line lines ih =>
    rw [List.forall_mem_cons]
    cases line with
    | error cause =>
      refine iff_of_false (fun h => by cases h) fun h => ?_
      obtain ⟨_, heq, _⟩ := h.1
      cases heq
    | ok line =>
      simp only [listing]
      cases hnormal : normalLine? line with
      | none => exact (ih ctx (n + 1)).trans (and_iff_right (.of_blank hnormal)).symm
      | some normal =>
        rw [lineInOrder_iff hnormal]
        dsimp only
        cases hread : Command.read normal with
        | error fault =>
          refine iff_of_false (fun h => by cases h) fun h => ?_
          obtain ⟨_, heq, _⟩ := h.1
          cases heq
        | ok command =>
          have hexpands := ctx.expands_iff hread
          dsimp only [Context.expand]
          cases hcode : ctx.code command with
          | error fault =>
            rw [hcode] at hexpands
            refine iff_of_false (fun h => by cases h) fun h => ?_
            obtain ⟨_, heq, hcommand⟩ := h.1
            cases heq
            obtain ⟨_, hcode⟩ := hexpands.mpr hcommand
            cases hcode
          | ok code =>
            have hcommand := hexpands.mp ⟨code, hcode⟩
            exact (ih _ (n + 1)).trans (and_iff_right ⟨command, rfl, hcommand⟩).symm

/-! ## Modules -/

/-- The module opens, and all its lines are in order. -/
def ModuleInOrder (source : Source) (name : String) : Prop :=
  ∃ lines, source name = .ok lines ∧ ∀ line ∈ lines, LineInOrder line

/-- Different names lead to different namespaces. -/
def NamesApart (names : List String) : Prop :=
  ∀ a ∈ names, ∀ b ∈ names, namespaceOf a = namespaceOf b → a = b

theorem NamesApart.mono (h : NamesApart names') (hsubset : names ⊆ names') : NamesApart names :=
  fun a ha b hb => h a (hsubset ha) b (hsubset hb)

namespace Program

def moduleNames (p : Program) : List String :=
  p.modules.map LinkedModule.name

theorem addLines_isOk_iff (p : Program) (name : String) (lines : Lines) :
    (∃ count, (p.addLines name lines).2.value = .ok count) ↔
      ∀ line ∈ lines, LineInOrder line := by
  rw [← listing_error?_eq_none name (p.context (namespaceOf name)) 1]
  simp only [addLines]
  cases (listing name (p.context (namespaceOf name)) 1 lines).error? with
  | some error =>
    refine iff_of_false ?_ fun h => by cases h
    rintro ⟨_, h⟩
    cases h
  | none => exact iff_of_true ⟨_, rfl⟩ rfl

theorem moduleNames_add {p : Program} (h : (p.add source name).2.value = .ok count) :
    (p.add source name).1.moduleNames = p.moduleNames ++ [name] := by
  rcases p.add_cases source name with ⟨_, _, _, _, hvalue⟩ | ⟨_, _, _, _, hprogram, _⟩
  · rw [hvalue] at h
    cases h
  · rw [hprogram, moduleNames, List.map_append]
    rfl

theorem exists_of_owner? {p : Program} (h : p.owner? space = some name) :
    ∃ m ∈ p.modules, m.space = space ∧ m.name = name := by
  obtain ⟨m, hfind, rfl⟩ := Option.map_eq_some_iff.mp h
  exact ⟨m, List.mem_of_find?_eq_some hfind, by simpa using List.find?_some hfind, rfl⟩

namespace Reached
variable {options : Options} {p : Program}

theorem namesApart (h : Reached options p) : NamesApart p.moduleNames := by
  intro a ha b hb hspace
  obtain ⟨m₁, hm₁, rfl⟩ := List.mem_map.mp ha
  obtain ⟨m₂, hm₂, rfl⟩ := List.mem_map.mp hb
  exact h.name_eq hm₁ hm₂ hspace

/-- The namespace of a module is free or its own exactly if no other name leads to it. -/
theorem owner?_iff (h : Reached options p) (name : String) :
    (∀ owner, p.owner? (namespaceOf name) = some owner → owner = name) ↔
      NamesApart (p.moduleNames ++ [name]) := by
  constructor
  · intro howner
    have hnew : ∀ a ∈ p.moduleNames, namespaceOf a = namespaceOf name → a = name := by
      intro a ha hspace
      obtain ⟨m, hm, rfl⟩ := List.mem_map.mp ha
      obtain ⟨owner, hmem, howned, hname⟩ := exists_owner hm
      rw [h.name_eq hm hmem howned.symm]
      apply howner
      rw [← hspace]
      exact hname
    intro a ha b hb hspace
    rw [List.mem_append, List.mem_singleton] at ha hb
    rcases ha with ha | rfl <;> rcases hb with hb | rfl
    · exact h.namesApart a ha b hb hspace
    · exact hnew a ha hspace
    · exact (hnew b hb hspace.symm).symm
    · rfl
  · intro hapart owner howner
    obtain ⟨m, hm, hspace, rfl⟩ := exists_of_owner? howner
    have hmem : m.name ∈ p.moduleNames ++ [name] := List.mem_append_left _ (List.mem_map_of_mem hm)
    exact hapart m.name hmem name (by simp) hspace

theorem add_isOk_iff (h : Reached options p) (source : Source) (name : String) :
    (∃ count, (p.add source name).2.value = .ok count) ↔
      ModuleInOrder source name ∧ NamesApart (p.moduleNames ++ [name]) := by
  rw [← h.owner?_iff name, ModuleInOrder]
  unfold Program.add
  cases source name with
  | error cause => exact ⟨nofun, fun ⟨⟨_, heq, _⟩, _⟩ => nomatch heq⟩
  | ok lines =>
    simp only [Except.ok.injEq, exists_eq_left', ← p.addLines_isOk_iff name lines]
    cases p.owner? (namespaceOf name) with
    | none => exact (and_iff_left nofun).symm
    | some owner =>
      dsimp only
      by_cases howner : owner = name
      · rw [if_pos howner]
        exact (and_iff_left fun _ h => Option.some.inj h ▸ howner).symm
      · rw [if_neg howner]
        exact ⟨nofun, fun hadd => absurd (hadd.2 owner rfl) howner⟩

/-- Modules can be added to a program exactly if each of them is in order and all names, with those
of the program, lead to different namespaces. -/
theorem addAll_isOk_iff (h : Reached options p) (source : Source) (names : List String) :
    (∃ q, (p.addAll source names).value = .ok q) ↔
      (∀ name ∈ names, ModuleInOrder source name) ∧ NamesApart (p.moduleNames ++ names) := by
  induction names generalizing p with
  | nil =>
    rw [List.append_nil]
    exact ⟨fun _ => ⟨nofun, h.namesApart⟩, fun _ => ⟨p, rfl⟩⟩
  | cons name names ih =>
    have hadd := h.add_isOk_iff source name
    have hrest := ih (h.addModule source name)
    have hnames {count : Nat} (hcount : (p.add source name).2.value = .ok count) :
        (p.add source name).1.moduleNames ++ names = p.moduleNames ++ name :: names := by
      rw [moduleNames_add hcount, List.append_assoc, List.singleton_append]
    rw [List.forall_mem_cons]
    constructor
    · rintro ⟨q, hq⟩
      obtain ⟨count, hcount, hq⟩ := addAll_cons_eq_ok.mp hq
      obtain ⟨hmodules, hapart⟩ := hrest.mp ⟨q, hq⟩
      rw [hnames hcount] at hapart
      exact ⟨⟨(hadd.mp ⟨count, hcount⟩).1, hmodules⟩, hapart⟩
    · rintro ⟨⟨hmodule, hmodules⟩, hapart⟩
      obtain ⟨count, hcount⟩ := hadd.mpr ⟨hmodule, hapart.mono (by simp)⟩
      rw [← hnames hcount] at hapart
      obtain ⟨q, hq⟩ := hrest.mpr ⟨hmodules, hapart⟩
      exact ⟨q, addAll_cons_eq_ok.mpr ⟨count, hcount, hq⟩⟩

end Reached

end Program

end HackVM
