import HackVM.Proofs.LineFaults

/-! A module is reported for its first fault.

What a line is reported for is a matter of this line and its number alone (`LineFault`). A listing
comes to the first line with a fault and no further (`listing_error?_iff`), and a listing without
one has a block for every line that is not blank (`listing_length`). Before the lines come the
module that does not open and the namespace that another module holds
(`Reached.add_namespaceTaken`). -/

namespace HackVM

/-! ## Lines -/

/-- What line number `n` of a module is reported for. -/
inductive LineFault (name : String) (n : Nat) : Except AccessError String → RunError → Prop
  | unread : LineFault name n (.error cause) (.notRead name cause)
  | rejected : Rejects line text fault → LineFault name n (.ok line) (.line name n text fault)

/-- The error is that of the first line with a fault, where the lines are counted from 1. -/
def FirstFault (name : String) (lines : Lines) (error : RunError) : Prop :=
  ∃ front line rest, lines = front ++ line :: rest ∧
    (∀ earlier ∈ front, ∀ n other, ¬ LineFault name n earlier other) ∧
    LineFault name (front.length + 1) line error

/-- The line can be read and has something on it besides a comment. -/
def isFilled (line : Except AccessError String) : Bool :=
  (normalText? line).isSome

theorem lineInOrder_iff_not_lineFault (name : String) (line : Except AccessError String) :
    LineInOrder line ↔ ∀ n error, ¬ LineFault name n line error := by
  cases line with
  | error cause =>
    refine iff_of_false ?_ fun h => h 0 _ .unread
    rintro ⟨_, hline, _⟩
    cases hline
  | ok line =>
    rw [lineInOrder_iff_not_rejects]
    constructor
    · rintro h n _ (_ | hrejects)
      exact h _ _ hrejects
    · exact fun h text fault hrejects => h 0 _ (.rejected hrejects)

theorem exists_lineFault (name : String) (n : Nat) (h : ¬ LineInOrder line) :
    ∃ error, LineFault name n line error := by
  cases line with
  | error cause => exact ⟨_, .unread⟩
  | ok line =>
    by_contra hnone
    refine h ((lineInOrder_iff_not_rejects line).mpr fun text fault hrejects => ?_)
    exact hnone ⟨_, .rejected hrejects⟩

/-! ## Listings -/

theorem LineFault.listing_error? (h : LineFault name n line error) (ctx : Context) (rest : Lines) :
    (listing name ctx n (line :: rest)).error? = some error := by
  cases h with
  | unread => rw [listing]
  | rejected hrejects => exact (listing_rejects name ctx n rest hrejects).2

/-- A listing ends at the first line that has a fault. -/
theorem listing_error?_eq_some (name : String) (ctx : Context) (n : Nat) (lines : Lines) :
    (listing name ctx n lines).error? = some error ↔
      ∃ front line rest, lines = front ++ line :: rest ∧ (∀ earlier ∈ front, LineInOrder earlier) ∧
        LineFault name (n + front.length) line error := by
  constructor
  · intro herror
    induction lines generalizing ctx n with
    | nil => cases herror
    | cons line lines ih =>
      by_cases horder : LineInOrder line
      · obtain ⟨ctx', hrest⟩ := listing_error?_append name ctx n lines
          (List.forall_mem_singleton.mpr horder)
        rw [List.singleton_append, List.length_singleton] at hrest
        obtain ⟨front, faulty, rest, rfl, hfront, hfault⟩ := ih ctx' (n + 1) (hrest ▸ herror)
        refine ⟨line :: front, faulty, rest, rfl, List.forall_mem_cons.mpr ⟨horder, hfront⟩, ?_⟩
        rwa [List.length_cons, Nat.add_comm front.length, ← Nat.add_assoc]
      · obtain ⟨error', hfault⟩ := exists_lineFault name n horder
        rw [hfault.listing_error? ctx lines] at herror
        cases herror
        exact ⟨[], line, lines, rfl, List.forall_mem_nil _, hfault⟩
  · rintro ⟨front, line, rest, rfl, hfront, hfault⟩
    obtain ⟨ctx', hrest⟩ := listing_error?_append name ctx n (line :: rest) hfront
    rw [hrest, hfault.listing_error?]

theorem listing_error?_iff (name : String) (ctx : Context) (lines : Lines) :
    (listing name ctx 1 lines).error? = some error ↔ FirstFault name lines error := by
  simp only [listing_error?_eq_some, FirstFault, lineInOrder_iff_not_lineFault name, Nat.add_comm 1]

theorem listing_length (name : String) (ctx : Context) (n : Nat) {lines : Lines}
    (h : ∀ line ∈ lines, LineInOrder line) :
    (listing name ctx n lines).blocks.length = lines.countP isFilled := by
  rw [← List.length_map Block.text, listing_normalTexts name ctx n h,
    List.length_filterMap_eq_countP]
  rfl

/-! ## Modules -/

namespace Program

theorem addLines_eq_error {p : Program} {lines : Lines} :
    (p.addLines name lines).2.value = .error error ↔ FirstFault name lines error := by
  rw [← listing_error?_iff name (p.context (namespaceOf name)), addLines]
  cases (listing name (p.context (namespaceOf name)) 1 lines).error? <;> simp

theorem addLines_eq_ok {p : Program} {lines : Lines} :
    (p.addLines name lines).2.value = .ok count ↔
      (∀ error, ¬ FirstFault name lines error) ∧ count = lines.countP isFilled := by
  simp only [← listing_error?_iff name (p.context (namespaceOf name)),
    ← ne_eq, ← Option.eq_none_iff_forall_ne_some]
  rw [addLines]
  cases herror : (listing name (p.context (namespaceOf name)) 1 lines).error? with
  | some error => simp
  | none =>
    have horder := (listing_error?_eq_none name _ 1 lines).mp herror
    simp [listing_length name (p.context (namespaceOf name)) 1 horder, eq_comm]

/-- What comes of the lines of a module does not depend on the program. -/
theorem addLines_value_congr (p q : Program) (name : String) (lines : Lines) :
    (p.addLines name lines).2.value = (q.addLines name lines).2.value := by
  cases hvalue : (q.addLines name lines).2.value with
  | error error => exact addLines_eq_error.mpr (addLines_eq_error.mp hvalue)
  | ok count => exact addLines_eq_ok.mpr (addLines_eq_ok.mp hvalue)

theorem add_notOpened (p : Program) {source : Source} (h : source name = .error cause) :
    p.add source name = (p, ⟨[], .error (.notOpened name cause)⟩) := by
  rw [add, h]

/-- The program has no module of another name in the namespace. -/
def Free (p : Program) (name : String) : Prop :=
  ∀ m ∈ p.modules, m.space = namespaceOf name → m.name = name

instance (p : Program) (name : String) : Decidable (p.Free name) :=
  inferInstanceAs (Decidable (∀ m ∈ p.modules, m.space = namespaceOf name → m.name = name))

/-- The lines are looked at once the module has opened in a namespace that is free for it. -/
theorem add_value {p : Program} {source : Source} {lines : Lines}
    (hopen : source name = .ok lines) (hfree : p.Free name) :
    (p.add source name).2.value = (p.addLines name lines).2.value := by
  rw [add, hopen]
  dsimp only
  split
  · rfl
  · rename_i owner howner
    obtain ⟨m, hm, hspace, rfl⟩ := exists_of_owner? howner
    rw [if_pos (hfree m hm hspace)]

/-- A namespace that belongs to another module is found out before the lines are looked at. -/
theorem Reached.add_namespaceTaken {options : Options} {p : Program} {source : Source}
    {lines : Lines} {m : LinkedModule} (h : Reached options p) (hopen : source name = .ok lines)
    (hm : m ∈ p.modules) (hspace : m.space = namespaceOf name) (hname : m.name ≠ name) :
    p.add source name = (p, ⟨[], .error (.namespaceTaken name m.name (namespaceOf name))⟩) := by
  obtain ⟨owner, howner, hshared, howned⟩ := exists_owner hm
  rw [hspace, h.name_eq howner hm hshared] at howned
  rw [Program.add, hopen]
  simp only [howned, if_neg hname]

/-- Attempts to add modules lead to the program. -/
def Reachable (p : Program) : Prop :=
  ∃ options attempts, p = (empty options).addEach attempts

end Program

/-- A module that does not open is reported for that, then one whose namespace belongs to another
module, with its lines untouched, then the first line with a fault; if there is none, the lines that
are not blank are counted. What comes of the lines is the same in all programs. -/
theorem first_fault_reported {p : Program} (hp : p.Reachable) (source : Source) (name : String) :
    (∀ cause, source name = .error cause →
      p.add source name = (p, ⟨[], .error (.notOpened name cause)⟩)) ∧
    ∀ lines, source name = .ok lines →
      (∀ m ∈ p.modules, m.space = namespaceOf name → m.name ≠ name → p.add source name =
        (p, ⟨[], .error (.namespaceTaken name m.name (namespaceOf name))⟩)) ∧
      (p.Free name →
        (∀ error, (p.add source name).2.value = .error error ↔ FirstFault name lines error) ∧
        (∀ count, (p.add source name).2.value = .ok count ↔
          (∀ error, ¬ FirstFault name lines error) ∧ count = lines.countP isFilled) ∧
        ∀ q : Program, q.Free name →
          (q.add source name).2.value = (p.add source name).2.value) := by
  obtain ⟨options, attempts, rfl⟩ := hp
  have hreached := (.empty : Program.Reached options _).addEach attempts
  refine ⟨fun _ hopen => Program.add_notOpened _ hopen, fun lines hopen => ⟨?_, fun hfree => ?_⟩⟩
  · exact fun m hm hspace hname => hreached.add_namespaceTaken hopen hm hspace hname
  · rw [Program.add_value hopen hfree]
    refine ⟨fun _ => Program.addLines_eq_error, fun _ => Program.addLines_eq_ok, fun q hq => ?_⟩
    rw [Program.add_value hopen hq]
    exact Program.addLines_value_congr _ _ name lines

/-- Lines without a fault, and with two of them. -/
def goodLines : Lines :=
  [.ok " label L // c", .ok "// c", .ok "lt"]

def faultyLines : Lines :=
  [.ok "// c", .ok "", .ok "eq", .ok " pop Constant 3", .ok "frob"]

/-- The second module has the namespace of the first. -/
def mixedSource : Source
  | "A b" => .ok goodLines
  | "A_b" => .ok [.error .notText]
  | "B" => .ok faultyLines
  | name => .error (.noModule name)

def oneLabel : Program where
  options := {}
  serials := {}
  modules := [⟨"A b", [⟨"label L", .label "L", Expansion.label (.name "L")⟩]⟩]

theorem first_fault_reported_mixed :
    oneLabel.Reachable ∧ oneLabel.Free "A b" ∧ oneLabel.Free "B" ∧
      oneLabel.add mixedSource "C" = (oneLabel, ⟨[], .error (.notOpened "C" (.noModule "C"))⟩) ∧
      oneLabel.add mixedSource "A_b" =
        (oneLabel, ⟨[], .error (.namespaceTaken "A_b" "A b" "A_b")⟩) ∧
      (oneLabel.add mixedSource "A b").2.value = .ok 2 ∧
      (∀ error, ¬ FirstFault "A b" goodLines error) ∧
      FirstFault "B" faultyLines (.line "B" 4 "pop Constant 3" (.unknownSegment "constant")) := by
  have hreached : oneLabel.Reachable :=
    ⟨{}, [(.ofMemory [("A b", "label L")], "A b")], by decide +kernel⟩
  have hgood : oneLabel.Free "A b" := by decide
  have hfaulty : oneLabel.Free "B" := by decide
  have hcount : (oneLabel.add mixedSource "A b").2.value = .ok 2 := by decide +kernel
  refine ⟨hreached, hgood, hfaulty, ?_, ?_, hcount, ?_, ?_⟩
  · exact (first_fault_reported hreached mixedSource "C").1 _ rfl
  · have htaken := ((first_fault_reported hreached mixedSource "A_b").2 _ rfl).1
    exact htaken _ List.mem_cons_self (by decide) (by decide)
  · have hlines := ((first_fault_reported hreached mixedSource "A b").2 _ rfl).2 hgood
    exact ((hlines.2.1 2).mp hcount).1
  · have hlines := ((first_fault_reported hreached mixedSource "B").2 _ rfl).2 hfaulty
    exact (hlines.1 _).mp (by decide +kernel)

end HackVM
