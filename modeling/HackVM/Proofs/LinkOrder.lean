import HackVM.Proofs.FailedModules
import HackVM.Proofs.LineFaults

/-! Linking does not depend on the order of the modules.

Which modules can be linked is said without their order (`Linkable`). What a module contributes to
the lines is what it would be alone, with the serial numbers shifted by those that are taken before
it (`Program.lines_add`); so two contributions of one module differ by a shift. -/

namespace HackVM

/-! ## Success -/

/-- Every module is in order, and different names lead to different namespaces. -/
def Linkable (source : Source) (names : List String) : Prop :=
  (∀ name ∈ names, ModuleInOrder source name) ∧ NamesApart names

theorem link_isOk_iff (source : Source) (options : Options) (names : List String) :
    (∃ lines, (link source options names).value = .ok lines) ↔ Linkable source names := by
  have hadd := (.empty : Program.Reached options _).addAll_isOk_iff source names
  refine Iff.trans ⟨fun ⟨lines, hlines⟩ => ?_, fun ⟨p, hp⟩ => ?_⟩ hadd
  · obtain ⟨p, hp, _⟩ := exists_program_of_link hlines
    exact ⟨p, hp⟩
  · exact ⟨p.lines, link_value hp⟩

theorem Linkable.congr (hnames : ∀ name, name ∈ names₁ ↔ name ∈ names₂) :
    Linkable source names₁ ↔ Linkable source names₂ := by
  simp only [Linkable, NamesApart, hnames]

/-! ## Contributions -/

/-- The blocks of a module while no serial numbers are taken. -/
def Source.standalone (source : Source) (scope : LabelScope) (name : String) : LinkedModule where
  name := name
  blocks :=
    match source name with
    | .ok lines => (listing name ⟨namespaceOf name, scope, none, {}⟩ 1 lines).blocks
    | .error _ => []

theorem Source.standalone_wellFormed (source : Source) (scope : LabelScope) (name : String) :
    ∀ block ∈ (source.standalone scope name).blocks, ∀ s ∈ block.code, s.WellFormed := by
  rw [Source.standalone]
  cases source name with
  | error cause => nofun
  | ok lines =>
    obtain ⟨_, hlisted, _⟩ := listing_listed name ⟨namespaceOf name, scope, none, {}⟩ 1 lines
    exact hlisted.wellFormed ⟨⟨name, rfl⟩, nofun⟩

namespace Program

theorem add_eq_ok {p : Program} (h : (p.add source name).2.value = .ok count) :
    ∃ given, source name = .ok given ∧ (p.add source name).1 = (p.addLines name given).1 ∧
      (p.addLines name given).2.value = .ok count := by
  unfold add at h ⊢
  cases hsource : source name with
  | error cause =>
    rw [hsource] at h
    cases h
  | ok given =>
    rw [hsource] at h
    dsimp only at h ⊢
    cases howner : p.owner? (namespaceOf name) with
    | none =>
      rw [howner] at h
      exact ⟨given, rfl, rfl, h⟩
    | some owner =>
      rw [howner] at h
      dsimp only at h ⊢
      by_cases heq : owner = name
      · rw [if_pos heq] at h ⊢
        exact ⟨given, rfl, rfl, h⟩
      · rw [if_neg heq] at h
        cases h

/-- A module that is added has a block for each command of its lines. -/
theorem exists_module_of_add {p : Program} {source : Source} {lines : Lines}
    (hopen : source name = .ok lines) (hok : (p.add source name).2.value = .ok count) :
    ∃ (m : LinkedModule) (ctx : Context), (p.add source name).1.modules = p.modules ++ [m] ∧
      m.name = name ∧ m.commands = lines.filterMap commandOn? ∧
      Listed (p.context (namespaceOf name)) m.blocks ctx := by
  obtain ⟨given, hgiven, hprogram, hvalue⟩ := add_eq_ok hok
  rw [hopen] at hgiven
  cases hgiven
  have horder := (p.addLines_isOk_iff name lines).mp ⟨count, hvalue⟩
  have herror := (listing_error?_eq_none name (p.context (namespaceOf name)) 1 lines).mpr horder
  obtain ⟨ctx, hlisted, _⟩ := listing_listed name (p.context (namespaceOf name)) 1 lines
  refine ⟨⟨name, _⟩, ctx, ?_, rfl, listing_commands name _ 1 horder, hlisted⟩
  rw [hprogram]
  simp only [addLines, herror]

theorem lines_addLines {p : Program} (h : (p.addLines name given).2.value = .ok count) :
    (p.addLines name given).1.lines = p.lines ++
      LinkedModule.lines ⟨name, (listing name (p.context (namespaceOf name)) 1 given).blocks⟩ := by
  simp only [addLines] at h ⊢
  cases herror : (listing name (p.context (namespaceOf name)) 1 given).error? with
  | some error =>
    rw [herror] at h
    cases h
  | none => simp [lines]

/-- A module that is added puts its lines behind the others, with serial numbers behind those that
are taken. -/
theorem lines_add {p : Program} (h : (p.add source name).2.value = .ok count) :
    (p.add source name).1.lines =
      p.lines ++ ((source.standalone p.options.scope name).renumber (.shift p.serials)).lines := by
  obtain ⟨given, hsource, hprogram, hvalue⟩ := add_eq_ok h
  have hcontext : p.context (namespaceOf name) =
      (⟨namespaceOf name, p.options.scope, none, {}⟩ : Context).renumber (.shift p.serials) := by
    rw [context, Context.renumber, Serials.renumber_shift]
  rw [hprogram, lines_addLines hvalue, hcontext,
    listing_renumber (Renumbering.shift_shiftsFrom p.serials _), Source.standalone, hsource]
  rfl

theorem addAll_append (source : Source) (p : Program) (front rear : List String) :
    (p.addAll source (front ++ rear)).value = .ok q ↔
      ∃ mid, (p.addAll source front).value = .ok mid ∧ (mid.addAll source rear).value = .ok q := by
  induction front generalizing p with
  | nil => simp [addAll]
  | cons name front ih =>
    simp only [List.cons_append, addAll_cons_eq_ok, ih]
    constructor
    · rintro ⟨count, hcount, mid, hfront, hrear⟩
      exact ⟨mid, ⟨count, hcount, hfront⟩, hrear⟩
    · rintro ⟨mid, ⟨count, hcount, hfront⟩, hrear⟩
      exact ⟨count, hcount, mid, hfront, hrear⟩

theorem addAll_singleton {p : Program} (h : (p.addAll source [name]).value = .ok q) :
    (∃ count, (p.add source name).2.value = .ok count) ∧ q = (p.add source name).1 := by
  obtain ⟨count, hcount, h⟩ := addAll_cons_eq_ok.mp h
  cases h
  exact ⟨⟨count, hcount⟩, rfl⟩

theorem lines_prefix_addAll {p : Program} {names : List String}
    (h : (p.addAll source names).value = .ok q) : p.lines <+: q.lines := by
  induction names generalizing p with
  | nil =>
    cases h
    exact List.prefix_rfl
  | cons name names ih =>
    obtain ⟨count, hcount, h⟩ := addAll_cons_eq_ok.mp h
    exact ((p.attemptInOrder source name).added count hcount).trans (ih h)

end Program

/-- In the lines of a linked program, those that a module puts between the lines of the modules
before it and the lines of the modules behind it. -/
def Contributes (source : Source) (options : Options) (front : List String) (name : String)
    (rear : List String) (chunk : List String) : Prop :=
  ∃ before after, (link source options front).value = .ok before ∧
    (link source options (front ++ [name])).value = .ok (before ++ chunk) ∧
    (link source options (front ++ name :: rear)).value = .ok (before ++ chunk ++ after)

/-- A contribution is that of the module alone, shifted. -/
theorem Contributes.eq_shift (h : Contributes source options front name rear chunk) :
    ∃ s, chunk = ((source.standalone options.scope name).renumber (.shift s)).lines := by
  obtain ⟨before, _, hfront, hname, _⟩ := h
  obtain ⟨p, hp, rfl⟩ := exists_program_of_link hfront
  obtain ⟨q, hq, hlines⟩ := exists_program_of_link hname
  obtain ⟨p', hp', hq⟩ := (Program.addAll_append source _ front [name]).mp hq
  rw [hp] at hp'
  cases hp'
  obtain ⟨⟨count, hcount⟩, rfl⟩ := Program.addAll_singleton hq
  have hoptions := ((.empty : Program.Reached options _).addAll hp).options_eq
  rw [Program.lines_add hcount, hoptions] at hlines
  exact ⟨p.serials, List.append_cancel_left hlines⟩

theorem exists_contribution
    (h : (link source options (front ++ name :: rear)).value = .ok lines) :
    ∃ chunk, Contributes source options front name rear chunk := by
  obtain ⟨q, hq, rfl⟩ := exists_program_of_link h
  rw [← List.singleton_append, ← List.append_assoc] at hq
  obtain ⟨p', hp', hrear⟩ := (Program.addAll_append source _ (front ++ [name]) rear).mp hq
  obtain ⟨p, hp, hname⟩ := (Program.addAll_append source _ front [name]).mp hp'
  obtain ⟨⟨count, hcount⟩, rfl⟩ := Program.addAll_singleton hname
  obtain ⟨after, hafter⟩ := Program.lines_prefix_addAll hrear
  have hname' := link_value hp'
  rw [Program.lines_add hcount] at hname' hafter
  refine ⟨_, p.lines, after, link_value hp, hname', ?_⟩
  rw [hafter]
  exact h

/-- The number of a label goes up by one constant for comparisons and by another for calls. -/
def ShiftedBy (comparisons calls : Int) (kind : LabelKind) (n n' : Nat) : Prop :=
  (n' : Int) = n + kind.select comparisons calls

theorem Contributes.alike (h₁ : Contributes source options₁ front₁ name rear₁ chunk₁)
    (h₂ : Contributes source options₂ front₂ name rear₂ chunk₂)
    (hscope : options₁.scope = options₂.scope) :
    ∃ comparisons calls, List.Forall₂ (Alike (ShiftedBy comparisons calls)) chunk₁ chunk₂ := by
  obtain ⟨s₁, rfl⟩ := h₁.eq_shift
  obtain ⟨s₂, rfl⟩ := h₂.eq_shift
  rw [hscope]
  refine ⟨s₂.comparisons - s₁.comparisons, s₂.calls - s₁.calls, ?_⟩
  apply LinkedModule.alike ?_ (source.standalone_wellFormed _ name)
  intro kind n
  rw [ShiftedBy, Renumbering.index_shift, Renumbering.index_shift]
  cases kind <;> simp only [LabelKind.select, LabelKind.counter] <;> omega

/-! ## Order -/

/-- Whether modules can be linked depends only on which modules they are, and what each of them
contributes to the lines is fixed up to shifts of the serial numbers, whatever comes before and
behind it. -/
theorem link_order_independent (source : Source) :
    (∀ options names,
      (∃ lines, (link source options names).value = .ok lines) ↔ Linkable source names) ∧
    (∀ options₁ options₂ names₁ names₂, (∀ name, name ∈ names₁ ↔ name ∈ names₂) →
      ((∃ lines, (link source options₁ names₁).value = .ok lines) ↔
        ∃ lines, (link source options₂ names₂).value = .ok lines)) ∧
    (∀ options front name rear lines,
      (link source options (front ++ name :: rear)).value = .ok lines →
        ∃ chunk, Contributes source options front name rear chunk) ∧
    ∀ options₁ front₁ rear₁ chunk₁ options₂ front₂ rear₂ chunk₂ name,
      options₁.scope = options₂.scope → Contributes source options₁ front₁ name rear₁ chunk₁ →
      Contributes source options₂ front₂ name rear₂ chunk₂ →
      ∃ comparisons calls, List.Forall₂ (Alike (ShiftedBy comparisons calls)) chunk₁ chunk₂ := by
  refine ⟨link_isOk_iff source, ?_, ?_, ?_⟩
  · intro options₁ options₂ names₁ names₂ hnames
    rw [link_isOk_iff, link_isOk_iff]
    exact Linkable.congr hnames
  · intro options front name rear lines hlines
    exact exists_contribution hlines
  · intro _ _ _ _ _ _ _ _ _ hscope h₁ h₂
    exact h₁.alike h₂ hscope

/-- Two modules that use up numbers of both families. -/
def twoModules : Source :=
  .ofMemory [("A", "eq\ncall B.g 0"), ("B", "lt\ncall A.f 1\npush static 0")]

theorem link_order_two_modules :
    Linkable twoModules ["A", "B"] ∧
      (∃ lines, (link twoModules { bootstrap := true } ["B", "A", "B"]).value = .ok lines) ∧
      ∃ chunk₁ chunk₂, Contributes twoModules {} ["A"] "B" [] chunk₁ ∧
        Contributes twoModules { bootstrap := true } [] "B" ["A", "B"] chunk₂ ∧
        ∃ comparisons calls, List.Forall₂ (Alike (ShiftedBy comparisons calls)) chunk₁ chunk₂ := by
  obtain ⟨hlinkable, hsame, hexists, halike⟩ := link_order_independent twoModules
  have hlink : ∃ lines, (link twoModules {} ["A", "B"]).value = .ok lines := ⟨_, rfl⟩
  have hnames : ∀ name, name ∈ ["A", "B"] ↔ name ∈ ["B", "A", "B"] := by simp [or_comm]
  have hlink' := (hsame {} { bootstrap := true } _ _ hnames).mp hlink
  obtain ⟨_, hlines₁⟩ := hlink
  obtain ⟨_, hlines₂⟩ := hlink'
  obtain ⟨chunk₁, h₁⟩ := hexists {} ["A"] "B" [] _ hlines₁
  obtain ⟨chunk₂, h₂⟩ := hexists { bootstrap := true } [] "B" ["A", "B"] _ hlines₂
  have hshift := halike {} _ _ _ { bootstrap := true } _ _ _ _ rfl h₁ h₂
  exact ⟨(hlinkable {} _).mp ⟨_, hlines₁⟩, ⟨_, hlines₂⟩, chunk₁, chunk₂, h₁, h₂, hshift⟩

end HackVM
