import Mathlib.Data.List.Basic
import HackVM.Proofs.Execution

/-! The addresses that the assembler gives to symbols.

The predefined symbols keep their cells (`Fixed`). In a program that can be assembled a declared
symbol stands for the place of its declaration (`addressOf_label`), and the symbols without a
declaration get cells from 16 on, a different one for every text (`le_addressOf`,
`addressOf_inj`). -/

namespace HackVM

section
variable {code xs ys : List Statement} {s t : Symbol}

/-! ## Predefined symbols -/

/-- The symbols of the pointers and registers stand for their cells. -/
structure Fixed (cell : Symbol → Word) : Prop where
  pointer : ∀ p, cell (.pointer p) = p.address
  register : ∀ n < 16, cell (.register n) = BitVec.ofNat 16 n

theorem lookup_pointer (p : Pointer) :
    predefined.lookup (Symbol.pointer p).text = some p.address.toNat := by
  cases p <;> decide

theorem lookup_register :
    ∀ n < 16, predefined.lookup (Symbol.register n).text = some n := by
  decide

theorem addressOf_of_predefined (h : predefined.lookup s.text = some n) :
    addressOf code s = BitVec.ofNat 16 n := by
  simp [addressOf, declared, List.lookup_append, h]

theorem fixed_addressOf (code : List Statement) : Fixed (addressOf code) where
  pointer p := by
    rw [addressOf_of_predefined (lookup_pointer p), BitVec.ofNat_toNat, BitVec.setWidth_eq]
  register n hn := addressOf_of_predefined (lookup_register n hn)

/-! ## Declared symbols -/

theorem labelsFrom_append (n : Nat) :
    labelsFrom n (xs ++ ys) = labelsFrom n xs ++ labelsFrom (n + size xs) ys := by
  induction xs generalizing n with
  | nil => simp [labelsFrom]
  | cons s xs ih =>
    cases s <;> simp [labelsFrom, ih] <;> congr 1 <;> omega

theorem Placed.mem_labelsFrom (h : Placed code (.label s :: xs) place) :
    (s.text, place) ∈ labelsFrom 0 code := by
  obtain ⟨before, behind, rfl, rfl⟩ := h
  rw [List.append_assoc, labelsFrom_append]
  simp [labelsFrom]

theorem lookup_of_mem [BEq α] [LawfulBEq α] {table : List (α × β)}
    (hnodup : (table.map Prod.fst).Nodup) (hmem : (key, value) ∈ table) :
    table.lookup key = some value := by
  obtain ⟨before, behind, rfl⟩ := List.append_of_mem hmem
  refine List.lookup_eq_some_iff.mpr ⟨before, behind, rfl, fun p hp => ?_⟩
  rw [List.map_append, List.nodup_append] at hnodup
  have := hnodup.2.2 p.1 (List.mem_map_of_mem hp) key (by simp)
  simpa using this.symm

/-- What it takes to assemble a program, and what comes out. -/
theorem assemble?_eq_some :
    assemble? code = some instructions ↔
      ((declared code).map Prod.fst).Nodup ∧ size code ≤ maxInstructions ∧
        instructions = resolve (addressOf code) code := by
  have hlength : (code.filterMap (Statement.instruction? (addressOf code))).length = size code :=
    length_resolve
  simp only [assemble?, hlength, resolve]
  split
  · rename_i h
    simp [h, eq_comm]
  · rename_i h
    constructor
    · intro h'
      cases h'
    · intro h'
      exact absurd ⟨h'.1, h'.2.1⟩ h

theorem addressOf_label (hnodup : ((declared code).map Prod.fst).Nodup)
    (h : Placed code (.label s :: xs) place) (htext : t.text = s.text) :
    addressOf code t = BitVec.ofNat 16 place := by
  have hlookup := lookup_of_mem hnodup (List.mem_append_right predefined h.mem_labelsFrom)
  rw [addressOf, htext, hlookup]

/-- What an address for every symbol has to satisfy for the jumps and the fixed cells of a program
to come out right. -/
structure Resolves (code : List Statement) (cell : Symbol → Word) : Prop extends Fixed cell where
  text : ∀ {s t}, s.text = t.text → cell s = cell t
  label : ∀ {s xs place}, Placed code (.label s :: xs) place → (cell s).toNat = place

theorem resolves_addressOf (hnodup : ((declared code).map Prod.fst).Nodup)
    (hsize : size code ≤ maxInstructions) : Resolves code (addressOf code) where
  toFixed := fixed_addressOf code
  text h := by rw [addressOf, h, ← addressOf]
  label h := by
    have hplace := h.le_size
    simp only [addressOf_label hnodup h rfl, BitVec.toNat_ofNat, maxInstructions] at *
    omega

/-! ## Symbols without a declaration -/

theorem mem_undeclared (hmem : .symbol s ∈ code) (hfree : (declared code).lookup s.text = none) :
    s.text ∈ undeclared code := by
  simp only [undeclared, List.mem_eraseDups, List.mem_filter, List.mem_map, List.mem_filterMap]
  exact ⟨⟨s, ⟨_, hmem, rfl⟩, rfl⟩, by simp [hfree]⟩

theorem length_eraseDups_le (texts : List String) : texts.eraseDups.length ≤ texts.length := by
  match texts with
  | [] => exact Nat.le_refl _
  | text :: texts =>
    have hfilter := List.length_filter_le (fun b => !b == text) texts
    have hrest := length_eraseDups_le (texts.filter fun b => !b == text)
    rw [List.eraseDups_cons, List.length_cons, List.length_cons]
    exact Nat.succ_le_succ (Nat.le_trans hrest hfilter)
termination_by texts.length
decreasing_by exact Nat.lt_succ_of_le hfilter

theorem length_symbols_le (code : List Statement) :
    (code.filterMap Statement.symbol?).length ≤ size code := by
  induction code with
  | nil => exact Nat.le_refl _
  | cons s code ih =>
    cases s with
    | number | compute => exact Nat.le_succ_of_le ih
    | symbol => exact Nat.succ_le_succ ih
    | label => exact ih

theorem length_undeclared_le (code : List Statement) : (undeclared code).length ≤ size code := by
  refine Nat.le_trans (length_eraseDups_le _) (Nat.le_trans (List.length_filter_le _ _) ?_)
  rw [List.length_map]
  exact length_symbols_le code

theorem addressOf_undeclared (hsize : size code ≤ maxInstructions) (hmem : .symbol s ∈ code)
    (hfree : (declared code).lookup s.text = none) :
    (addressOf code s).toNat = firstVariable + (undeclared code).idxOf s.text := by
  have hindex := List.idxOf_lt_length_of_mem (mem_undeclared hmem hfree)
  have hlength := length_undeclared_le code
  simp only [addressOf, hfree, BitVec.toNat_ofNat, firstVariable, maxInstructions] at *
  omega

/-- The assembler never gives a cell below 16 away. -/
theorem le_addressOf (hsize : size code ≤ maxInstructions) (hmem : .symbol s ∈ code)
    (hfree : (declared code).lookup s.text = none) :
    firstVariable ≤ (addressOf code s).toNat := by
  rw [addressOf_undeclared hsize hmem hfree]
  omega

/-- Different texts get different cells. -/
theorem addressOf_inj (hsize : size code ≤ maxInstructions)
    (hs : .symbol s ∈ code) (hsfree : (declared code).lookup s.text = none)
    (ht : .symbol t ∈ code) (htfree : (declared code).lookup t.text = none)
    (h : addressOf code s = addressOf code t) : s.text = t.text := by
  have haddress := congrArg BitVec.toNat h
  rw [addressOf_undeclared hsize hs hsfree, addressOf_undeclared hsize ht htfree] at haddress
  exact (List.idxOf_inj (mem_undeclared hs hsfree)).mp (Nat.add_left_cancel haddress)

end

end HackVM
