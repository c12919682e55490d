import HackVM.Proofs.Sites
import HackVM.Proofs.StackCode

/-! What comparisons answer.

A comparison looks at the sign of the difference of two words, and the difference wraps around. Its
sign is that of the true difference where this fits a word, and the other one where it does not
(`Word.toInt_sub_of_fits`, `Word.sign_sub_of_not_fits`). A comparison in a program that can be
loaded puts the truth value of this sign in the place of the two words and touches nothing else
(`comparison_answers`). -/

namespace HackVM
open Machine

/-! ## Wrapped differences -/

/-- The number is one that a signed word can be. -/
def FitsWord (n : Int) : Prop :=
  -32768 ≤ n ∧ n ≤ 32767

instance : Decidable (FitsWord n) :=
  inferInstanceAs (Decidable (-32768 ≤ n ∧ n ≤ 32767))

namespace Word

theorem fitsWord_toInt (x : Word) : FitsWord x.toInt := by
  have hlow := BitVec.le_toInt x
  have hhigh := BitVec.toInt_lt (x := x)
  rw [FitsWord]
  omega

theorem toInt_sub_of_fits {x y : Word} (h : FitsWord (x.toInt - y.toInt)) :
    (x - y).toInt = x.toInt - y.toInt := by
  rw [FitsWord] at h
  rw [BitVec.toInt_sub]
  apply Int.bmod_eq_of_le <;> omega

/-- A difference that does not fit goes once around, to the other side of zero. -/
theorem sign_sub_of_not_fits {x y : Word} (h : ¬ FitsWord (x.toInt - y.toInt)) :
    (0 < (x - y).toInt ↔ ¬ y.toInt < x.toInt) ∧ ((x - y).toInt < 0 ↔ ¬ x.toInt < y.toInt) := by
  have hx := fitsWord_toInt x
  have hy := fitsWord_toInt y
  rw [FitsWord] at h hx hy
  rw [BitVec.toInt_sub, Int.bmod_def]
  omega

/-! ## Truth values -/

/-- The word is the truth value of a statement: all ones if it holds, and zero if not. -/
def IsTruth (w : Word) (holds : Prop) : Prop :=
  (w = 0xFFFF ∧ holds) ∨ (w = 0 ∧ ¬ holds)

/-- The word is the truth value of a statement exactly under a condition, and that of the contrary
without it. -/
def IsTruthWhere (condition : Prop) (w : Word) (holds : Prop) : Prop :=
  (w.IsTruth holds ↔ condition) ∧ (¬ condition → w.IsTruth (¬ holds))

theorem isTruth_ofBool {holds : Prop} (h : b = true ↔ holds) : (ofBool b).IsTruth holds := by
  cases b with
  | true => exact .inl ⟨rfl, h.mp rfl⟩
  | false => exact .inr ⟨rfl, fun hholds => absurd (h.mpr hholds) (by simp)⟩

theorem IsTruth.eq_or {w : Word} {holds : Prop} (h : w.IsTruth holds) : w = 0xFFFF ∨ w = 0 :=
  h.imp And.left And.left

/-- A word is not the truth value of a statement and of its contrary. -/
theorem IsTruth.not_contrary {w : Word} {holds : Prop} (h : w.IsTruth (¬ holds)) :
    ¬ w.IsTruth holds := by
  intro h'
  rcases h with ⟨hones, hnot⟩ | ⟨hzero, hnot⟩ <;> rcases h' with ⟨hones', hholds⟩ | ⟨hzero', hnot'⟩
  · exact hnot hholds
  · exact absurd (hones.symm.trans hzero') (by decide)
  · exact absurd (hones'.symm.trans hzero) (by decide)
  · exact hnot hnot'

theorem isTruthWhere_ofBool {condition holds : Prop} (h : condition → (b = true ↔ holds))
    (hnot : ¬ condition → (b = true ↔ ¬ holds)) : IsTruthWhere condition (ofBool b) holds := by
  by_cases hcondition : condition
  · have htruth := isTruth_ofBool (h hcondition)
    exact ⟨iff_of_true htruth hcondition, fun hfalse => absurd hcondition hfalse⟩
  · have hcontrary := isTruth_ofBool (hnot hcondition)
    exact ⟨iff_of_false hcontrary.not_contrary hcondition, fun _ => hcontrary⟩

end Word

/-! ## The three comparisons -/

namespace Operation
variable (x y : Word)

theorem eval_eq_isTruth : (eq.eval x y).IsTruth (x = y) := by
  apply Word.isTruth_ofBool
  rw [decide_eq_true_eq]
  bv_omega

theorem eval_gt_isTruthWhere :
    Word.IsTruthWhere (FitsWord (x.toInt - y.toInt)) (gt.eval x y) (y.toInt < x.toInt) := by
  apply Word.isTruthWhere_ofBool
  · intro h
    rw [decide_eq_true_eq, Word.toInt_sub_of_fits h]
    omega
  · intro h
    rw [decide_eq_true_eq]
    exact (Word.sign_sub_of_not_fits h).1

theorem eval_lt_isTruthWhere :
    Word.IsTruthWhere (FitsWord (x.toInt - y.toInt)) (lt.eval x y) (x.toInt < y.toInt) := by
  apply Word.isTruthWhere_ofBool
  · intro h
    rw [decide_eq_true_eq, Word.toInt_sub_of_fits h]
    omega
  · intro h
    rw [decide_eq_true_eq]
    exact (Word.sign_sub_of_not_fits h).2

end Operation

/-! ## Comparisons in a program -/

/-- The memory in which one word has taken the place of the two topmost ones. -/
structure Ram.Replaced (ram : Ram) (result : Word) (ram' : Ram) : Prop where
  sp : (ram'.pointer .sp).toNat + 1 = (ram.pointer .sp).toNat
  result : ram' (ram.pointer .sp - 2) = result
  rest : ∀ x, x ≠ Pointer.sp.address → x ≠ ram.pointer .sp - 2 → ram' x = ram x

theorem Ram.replaced_of_binary (ram : Ram) {op : Operation} (hop : op.isUnary = false)
    (h : 18 ≤ (ram.pointer .sp).toNat) :
    ram.Replaced (op.eval ram.second ram.top) (op.effect ram) := by
  have hhigh : High (ram.pointer .sp - 2#16) := by
    rw [High]
    bv_omega
  have heffect : op.effect ram =
      ram.drop.set (ram.pointer .sp - 2#16) (op.eval ram.second ram.top) := by
    simp only [Operation.effect, hop, Bool.false_eq_true, if_false]
    exact ram.replaceTop_drop _
  rw [heffect]
  refine ⟨?_, set_self _ _ _, fun x hsp hx => ?_⟩
  · rw [pointer_set _ hhigh, pointer_drop]
    bv_omega
  · exact (set_of_ne hx).trans (set_of_ne hsp)

/-- A comparison takes the machine behind its code, with its result in the place of the two words
and nothing else changed. The result of `eq` says whether the words are the same. That of `gt` and
`lt` says how they compare as signed numbers exactly if their difference fits a word, and the
contrary if it does not. -/
theorem comparison_answers {source : Source} {options : Options} {names : List String} {p : Program}
    {instructions : List Instruction}
    (hlink : ((Program.empty options).addAll source names).value = .ok p)
    (hload : load? p.lines = some instructions) (site : Site p)
    (hcommand : site.command = .arithmetic op) (hop : op ∈ [.eq, .gt, .lt]) (m : Machine)
    (hpc : m.pc = site.start) (hsp : 18 ≤ (m.ram.pointer .sp).toNat) :
    ∃ m' result, Reaches instructions m m' ∧ m'.pc = site.stop ∧ m.ram.Replaced result m'.ram ∧
      (result = 0xFFFF ∨ result = 0) ∧
      (op = .eq → result.IsTruth (m.ram.second = m.ram.top)) ∧
      (op = .gt → Word.IsTruthWhere (FitsWord (m.ram.second.toInt - m.ram.top.toInt)) result
        (m.ram.top.toInt < m.ram.second.toInt)) ∧
      (op = .lt → Word.IsTruthWhere (FitsWord (m.ram.second.toInt - m.ram.top.toInt)) result
        (m.ram.second.toInt < m.ram.top.toInt)) := by
  have hreached := (.empty : Program.Reached options _).addAll hlink
  obtain ⟨hcell, rfl⟩ := hreached.resolves_of_load hload
  obtain ⟨serials, _, hcode⟩ := site.code_eq hreached
  rw [hcommand] at hcode
  have hpiece := Except.ok.inj hcode
  have hplaced := site.placed
  rw [← hpiece, ← hpc] at hplaced
  have hunary : op.isUnary = false := by
    fin_cases hop <;> rfl
  have htop : High (m.ram.pointer .sp - 1#16) := by
    rw [High]
    bv_omega
  have hsecond : High (m.ram.pointer .sp - 2#16) := by
    rw [High]
    bv_omega
  obtain ⟨m', hreaches, hm'pc, hm'ram⟩ := arithmetic_arrives hcell hplaced htop fun _ => hsecond
  refine ⟨m', op.eval m.ram.second m.ram.top, hreaches, ?_, ?_, ?_, ?_, ?_, ?_⟩
  · rw [hm'pc, hpiece, hpc, Site.stop]
  · rw [hm'ram.eq]
    exact m.ram.replaced_of_binary hunary hsp
  · fin_cases hop <;> exact (Word.isTruth_ofBool Iff.rfl).eq_or
  · rintro rfl
    exact Operation.eval_eq_isTruth _ _
  · rintro rfl
    exact Operation.eval_gt_isTruthWhere _ _
  · rintro rfl
    exact Operation.eval_lt_isTruthWhere _ _

/-! ## A difference that wraps around -/

def gtBlock : Block where
  text := "gt"
  command := .arithmetic .gt
  code := Expansion.arithmetic .gt 0

def gtProgram : Program where
  options := {}
  serials := { comparisons := 1 }
  modules := [⟨"Main", [gtBlock]⟩]

def gtSite : Site gtProgram where
  front := []
  linked := ⟨"Main", [gtBlock]⟩
  rear := []
  modules_eq := rfl
  earlier := []
  block := gtBlock
  later := []
  blocks_eq := rfl

/-- The largest word on the stack, and above it minus one. -/
def wideOperands : Ram :=
  ((Ram.set (fun _ => 0xFFFF) 16 32767).setPointer .sp 18)

/-- The largest word is not found to be greater than minus one. -/
theorem comparison_answers_wide :
    ∃ instructions m', load? gtProgram.lines = some instructions ∧
      Reaches instructions ⟨wideOperands, 0, 0, 0⟩ m' ∧ m'.pc = gtSite.stop ∧
      wideOperands.top.toInt < wideOperands.second.toInt ∧ m'.ram 16 = 0 ∧
      m'.ram.pointer .sp = 17 := by
  have hlink : ((Program.empty {}).addAll (.ofMemory [("Main", "gt")]) ["Main"]).value =
      .ok gtProgram := by rfl
  obtain ⟨instructions, hload⟩ : ∃ instructions, load? gtProgram.lines = some instructions :=
    Option.isSome_iff_exists.mp (by decide +kernel)
  obtain ⟨m', result, hreaches, hpc, hreplaced, _, _, hgt, _⟩ :=
    comparison_answers hlink hload gtSite rfl (by simp) ⟨wideOperands, 0, 0, 0⟩ rfl (by decide)
  have hgreater : wideOperands.top.toInt < wideOperands.second.toInt := by decide
  have hwide : ¬ FitsWord (wideOperands.second.toInt - wideOperands.top.toInt) := by decide
  refine ⟨instructions, m', hload, hreaches, hpc, hgreater, ?_, ?_⟩
  · rcases (hgt rfl).2 hwide with ⟨_, hnot⟩ | ⟨hzero, _⟩
    · exact absurd hgreater hnot
    · exact hreplaced.result.trans hzero
  · have hsp : (m'.ram.pointer .sp).toNat + 1 = 18 := hreplaced.sp
    bv_omega

end HackVM
