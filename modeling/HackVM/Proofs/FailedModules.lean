import HackVM.Proofs.Renumbering

/-! A module that fails leaves nothing behind but the serial numbers it has used.

The program after a history of attempts is the one after the attempts that succeed, up to a
renumbering (`Replays.addEach`). An attempt that succeeds keeps the renumbering, as adding a module
commutes with it; after one that fails it goes on from the numbers that are used up
(`Renumbering.resume`), which no label of the program has. -/

namespace HackVM

/-! ## Renumberings with gaps -/

namespace Renumbering

/-- The order of serial numbers is kept. -/
def Increasing (ρ : Renumbering) : Prop :=
  ∀ kind, StrictMono (ρ.index kind)

/-- Numbers that are taken in `s` stay as they are in `ρ`; those behind go on from `t`. -/
def resume (ρ : Renumbering) (s t : Serials) : Renumbering where
  comparisons n := if n < s.comparisons then ρ.comparisons n else n - s.comparisons + t.comparisons
  calls n := if n < s.calls then ρ.calls n else n - s.calls + t.calls

/-- The new number of a label and the old one. -/
def Relates (ρ : Renumbering) (kind : LabelKind) (n n' : Nat) : Prop :=
  n' = ρ.index kind n

variable {ρ : Renumbering} {s t : Serials}

theorem index_resume (kind : LabelKind) (n : Nat) : (ρ.resume s t).index kind n =
    if n < kind.counter s then ρ.index kind n else n - kind.counter s + kind.counter t := by
  cases kind <;> rfl

theorem Increasing.resume (h : ρ.Increasing) (hle : s.renumber ρ ≤ t) :
    (ρ.resume s t).Increasing := by
  intro kind a b hab
  have hbound := hle kind
  rw [Serials.counter_renumber] at hbound
  rw [index_resume, index_resume]
  by_cases hb : b < kind.counter s
  · rw [if_pos (Nat.lt_trans hab hb), if_pos hb]
    exact h kind hab
  · rw [if_neg hb]
    split
    · rename_i ha
      have := h kind ha
      omega
    · omega

theorem resume_shiftsFrom : (ρ.resume s t).ShiftsFrom s := by
  intro kind n hn
  rw [index_resume, index_resume, if_neg (by omega), if_neg (by omega)]
  omega

theorem renumber_resume : s.renumber (ρ.resume s t) = t := by
  simp [Serials.renumber, resume]

end Renumbering

namespace Program

/-- A label that the code of a program belongs to has a number that is taken. -/
theorem Reached.lt_of_mentions {options : Options} {p : Program} (h : Reached options p)
    {s : Statement} (hs : s ∈ p.code) (hmentions : s.Mentions kind n) :
    n < kind.counter p.serials := by
  apply h.lt_counter kind n
  rw [mem_declaredSerials]
  rcases hmentions with rfl | rfl
  · rw [code_eq_groups] at hs ⊢
    obtain ⟨group, hgroup, hs⟩ := List.mem_flatMap.mp hs
    exact List.mem_flatMap_of_mem hgroup (h.group_closed hgroup kind n hs)
  · exact hs

theorem mem_code_of_block {p : Program} {m : LinkedModule} (hm : m ∈ p.modules)
    (hblock : block ∈ m.blocks) (hs : s ∈ block.code) : s ∈ p.code := by
  apply List.mem_append_right
  exact List.mem_flatMap_of_mem hm (List.mem_flatMap_of_mem hblock hs)

theorem modules_renumber_congr {p : Program} {ρ σ : Renumbering}
    (h : ∀ s ∈ p.code, ∀ kind n, s.Mentions kind n → ρ.index kind n = σ.index kind n) :
    p.modules.map (·.renumber ρ) = p.modules.map (·.renumber σ) := by
  refine List.map_congr_left fun m hm => ?_
  rw [LinkedModule.renumber, LinkedModule.renumber]
  congr 1
  refine List.map_congr_left fun block hblock => ?_
  rw [Block.renumber, Block.renumber]
  congr 1
  exact List.map_congr_left fun s hs =>
    Statement.renumber_congr (h s (mem_code_of_block hm hblock hs))

/-! ## Replaying a history -/

/-- What comes of attempts to add modules. -/
def outcomes (p : Program) : List (Source × String) → List (Except RunError Nat)
  | [] => []
  | (source, name) :: attempts =>
    (p.add source name).2.value :: (p.add source name).1.outcomes attempts

/-- The attempts that succeed. -/
def kept (p : Program) : List (Source × String) → List (Source × String)
  | [] => []
  | (source, name) :: attempts =>
    let rest := (p.add source name).1.kept attempts
    if (p.add source name).2.value.isOk then (source, name) :: rest else rest

/-- The program `q` is `r` with other serial numbers, between which there are gaps. -/
structure Replays (options : Options) (ρ : Renumbering) (r q : Program) : Prop where
  reached : Reached options r
  eq : q = r.renumber ρ
  increasing : ρ.Increasing
  shifts : ρ.ShiftsFrom r.serials
  /-- The number of the call in the bootstrap. -/
  bootstrap : options.bootstrap = true → ρ.calls 0 = 0

theorem serials_le_add (source : Source) (p : Program) (name : String) :
    p.serials ≤ (p.add source name).1.serials := by
  rcases p.add_cases source name with ⟨_, s, hs, hprogram, _⟩ | ⟨_, _, _, hlisted, hprogram, _⟩
  · rw [hprogram]
    exact hs
  · rw [hprogram]
    exact hlisted.serials_le

theorem Reached.bootstrap_taken {options : Options} {p : Program} (h : Reached options p)
    (hbootstrap : options.bootstrap = true) : 0 < p.serials.calls := by
  have hmem : Statement.label (.generated .back 0) ∈ p.code := by
    apply List.mem_append_left
    rw [h.options_eq, if_pos hbootstrap]
    simp [Expansion.bootstrap, Expansion.call]
  exact h.lt_of_mentions hmem (.inr rfl)

namespace Replays
variable {options : Options} {ρ : Renumbering} {r q : Program}

theorem empty (options : Options) :
    Replays options .id (Program.empty options) (Program.empty options) where
  reached := .empty
  eq := rfl
  increasing kind a b hab := by cases kind <;> exact hab
  shifts kind n _ := by cases kind <;> rfl
  bootstrap _ := rfl

/-- An attempt comes to the same in both programs, and if it succeeds, they stay alike. -/
theorem add (h : Replays options ρ r q) (source : Source) (name : String) :
    (r.add source name).2 = (q.add source name).2 ∧
      Replays options ρ (r.add source name).1 (q.add source name).1 := by
  have hadd := add_renumber h.shifts source name
  rw [← h.eq] at hadd
  rw [hadd]
  refine ⟨rfl, h.reached.addModule source name, rfl, h.increasing, ?_, h.bootstrap⟩
  exact h.shifts.mono (serials_le_add source r name)

/-- An attempt that fails may be left out. -/
theorem skip (h : Replays options ρ r q) (hs : q.serials ≤ s) :
    ∃ σ, Replays options σ r { q with serials := s } := by
  have hle : r.serials.renumber ρ ≤ s := by
    have heq : q.serials = r.serials.renumber ρ := by rw [h.eq]; rfl
    rwa [← heq]
  refine ⟨ρ.resume r.serials s, h.reached, ?_, h.increasing.resume hle, ρ.resume_shiftsFrom, ?_⟩
  · -- the labels of `r` have numbers below those that the renumbering changes
    have hmodules : r.modules.map (·.renumber ρ) =
        r.modules.map (·.renumber (ρ.resume r.serials s)) := by
      apply modules_renumber_congr
      intro statement hstatement kind n hmentions
      rw [Renumbering.index_resume, if_pos (h.reached.lt_of_mentions hstatement hmentions)]
    rw [h.eq, renumber, renumber, hmodules, Renumbering.renumber_resume]
  · intro hbootstrap
    have htaken := h.reached.bootstrap_taken hbootstrap
    simp only [Renumbering.resume, if_pos htaken, h.bootstrap hbootstrap]

theorem addEach (h : Replays options ρ r q) (attempts : List (Source × String)) :
    r.outcomes (q.kept attempts) = (q.outcomes attempts).filter Except.isOk ∧
      ∃ σ, Replays options σ (r.addEach (q.kept attempts)) (q.addEach attempts) := by
  induction attempts generalizing ρ r q with
  | nil => exact ⟨rfl, ρ, h⟩
  | cons attempt attempts ih =>
    obtain ⟨source, name⟩ := attempt
    rcases q.add_cases source name with
      ⟨error, s, hs, hprogram, hvalue⟩ | ⟨blocks, _, _, _, _, hvalue⟩
    · have hfails : ¬ (q.add source name).2.value.isOk = true := by
        rw [hvalue]
        exact Bool.false_ne_true
      obtain ⟨_, hskip⟩ := h.skip hs
      rw [← hprogram] at hskip
      obtain ⟨houtcomes, hreplays⟩ := ih hskip
      simp only [kept, outcomes, Program.addEach, if_neg hfails]
      rw [List.filter_cons_of_neg hfails]
      exact ⟨houtcomes, hreplays⟩
    · have hsucceeds : (q.add source name).2.value.isOk = true := by
        rw [hvalue]
        rfl
      obtain ⟨hresult, hadd⟩ := h.add source name
      obtain ⟨houtcomes, hreplays⟩ := ih hadd
      simp only [kept, outcomes, Program.addEach, if_pos hsucceeds, hresult]
      rw [List.filter_cons_of_pos hsucceeds, houtcomes]
      exact ⟨rfl, hreplays⟩

/-- The lines differ in the serial numbers alone. -/
theorem alike (h : Replays options ρ r q) : List.Forall₂ (Alike ρ.Relates) r.lines q.lines := by
  have hrelated (kind : LabelKind) (n : Nat) :
      ρ.Relates kind (Renumbering.id.index kind n) (ρ.index kind n) := by
    cases kind <;> rfl
  have hoptions : q.options = r.options := by rw [h.eq]; rfl
  have hmodules : q.modules = r.modules.map (·.renumber ρ) := by rw [h.eq]; rfl
  rw [lines, lines, hoptions, hmodules, h.reached.options_eq, List.flatMap_map]
  refine List.rel_append ?_ (forall₂_flatMap fun m hm => ?_)
  · split
    · rename_i hbootstrap
      have hcode : ∀ s ∈ Expansion.bootstrap 0, s.WellFormed := by
        intro s hs
        fin_cases hs <;> trivial
      have hlines := alike_lines hrelated "bootstrap" hcode
      have hzero : (Expansion.bootstrap 0).map (·.renumber ρ) =
          Expansion.bootstrap (ρ.calls 0) := rfl
      rwa [hzero, h.bootstrap hbootstrap, List.map_id'' Statement.renumber_id] at hlines
    · exact .nil
  · have halike := LinkedModule.alike hrelated fun block hblock =>
      h.reached.block_wellFormed hm hblock
    rwa [LinkedModule.renumber_id] at halike

end Replays

end Program

/-! ## Attempts that fail -/

/-- An attempt that fails keeps the lines and the owners of namespaces, one that succeeds puts lines
behind the others, and neither gives a serial number back. -/
structure Program.AttemptInOrder (p : Program) (source : Source) (name : String) : Prop where
  failed : ∀ error, (p.add source name).2.value = .error error →
    (p.add source name).1.lines = p.lines ∧ (p.add source name).1.owner? = p.owner?
  added : ∀ count, (p.add source name).2.value = .ok count → p.lines <+: (p.add source name).1.lines
  serials : p.serials ≤ (p.add source name).1.serials

theorem Program.attemptInOrder (p : Program) (source : Source) (name : String) :
    p.AttemptInOrder source name := by
  refine ⟨fun error herror => ?_, fun count hcount => ?_, serials_le_add source p name⟩
  · rcases p.add_cases source name with ⟨_, _, _, hprogram, _⟩ | ⟨_, _, _, _, _, hvalue⟩
    · rw [hprogram]
      exact ⟨rfl, rfl⟩
    · rw [hvalue] at herror
      cases herror
  · rcases p.add_cases source name with ⟨_, _, _, _, hvalue⟩ | ⟨blocks, _, _, _, hprogram, _⟩
    · rw [hvalue] at hcount
      cases hcount
    · rw [hprogram]
      simp only [lines, List.flatMap_append, ← List.append_assoc]
      exact List.prefix_append _ _

/-- After every history of attempts to add modules, the next one is in order; and if the attempts
that fail are left out of the history, those that remain come to the same as before, and the lines
are the same up to serial numbers, whose order is kept. -/
theorem failed_modules_leave_no_trace (options : Options) (attempts : List (Source × String)) :
    (∀ source name, ((Program.empty options).addEach attempts).AttemptInOrder source name) ∧
      (Program.empty options).outcomes ((Program.empty options).kept attempts) =
        ((Program.empty options).outcomes attempts).filter Except.isOk ∧
      ∃ ρ : Renumbering, ρ.Increasing ∧ List.Forall₂ (Alike ρ.Relates)
        ((Program.empty options).addEach ((Program.empty options).kept attempts)).lines
        ((Program.empty options).addEach attempts).lines := by
  obtain ⟨houtcomes, ρ, hreplays⟩ := (Program.Replays.empty options).addEach attempts
  exact ⟨Program.attemptInOrder _, houtcomes, ρ, hreplays.increasing, hreplays.alike⟩

/-- Three attempts: the second fails after it has taken the numbers of a comparison and a call. -/
def brokenSecond : List (Source × String) :=
  [("A", "eq\ncall A.f 0"), ("B", "lt\ncall A.f 0\nfrobnicate"), ("C", "gt\ncall A.f 0")].map
    fun (name, text) => (.ofMemory [(name, text)], name)

theorem failed_modules_broken_second :
    ((Program.empty {}).addEach (brokenSecond.take 2)).lines =
        ((Program.empty {}).addEach (brokenSecond.take 1)).lines ∧
      (Program.empty {}).outcomes ((Program.empty {}).kept brokenSecond) = [.ok 2, .ok 2] ∧
      LabelKind.back.declaration 2 ∈ ((Program.empty {}).addEach brokenSecond).lines ∧
      ∃ ρ : Renumbering, ρ.Increasing ∧ List.Forall₂ (Alike ρ.Relates)
        ((Program.empty {}).addEach ((Program.empty {}).kept brokenSecond)).lines
        ((Program.empty {}).addEach brokenSecond).lines := by
  obtain ⟨hattempt, _⟩ := failed_modules_leave_no_trace {} (brokenSecond.take 1)
  obtain ⟨_, houtcomes, hreplay⟩ := failed_modules_leave_no_trace {} brokenSecond
  have hfault : ((Program.empty {}).addEach (brokenSecond.take 1)).add
      (.ofMemory [("B", "lt\ncall A.f 0\nfrobnicate")]) "B" |>.2.value =
        .error (.line "B" 3 "frobnicate" (.unknownCommand "frobnicate")) := by
    decide +kernel
  refine ⟨((hattempt _ _).failed _ hfault).1, ?_, ?_, hreplay⟩
  · rw [houtcomes]
    decide +kernel
  · decide +kernel

end HackVM
