import HackVM.Machine.Assembler

/-! Pieces of code inside a program, and what the machine does on them.

`Placed code piece n` says that `piece` stands in `code` with `n` instructions before it. A piece
without jumps takes the machine to `Machine.executeAll` of its instructions (`Placed.reaches`), and
so does a piece that ends in a jump (`Placed.reaches_jump`). -/

namespace HackVM

/-- Control goes on to the next statement. -/
def Statement.goesOn : Statement → Bool
  | .compute _ _ condition => condition = .never
  | _ => true

/-- The instructions of a piece of code, its labels left out. -/
def resolve (cell : Symbol → Word) (piece : List Statement) : List Instruction :=
  piece.filterMap (Statement.instruction? cell)

/-- The number of instructions of a piece of code. -/
def size (piece : List Statement) : Nat :=
  (resolve (fun _ => 0) piece).length

section
variable {cell : Symbol → Word} {s : Statement} {code piece xs ys : List Statement}

@[simp] theorem resolve_nil : resolve cell [] = [] := rfl

@[simp] theorem resolve_append : resolve cell (xs ++ ys) = resolve cell xs ++ resolve cell ys :=
  List.filterMap_append

theorem resolve_cons (hs : s.instruction? cell = some i) :
    resolve cell (s :: xs) = i :: resolve cell xs := by
  simp [resolve, hs]

@[simp] theorem resolve_number :
    resolve cell (.number value :: xs) = .load value :: resolve cell xs := rfl

@[simp] theorem resolve_symbol :
    resolve cell (.symbol t :: xs) = .load (cell t) :: resolve cell xs := rfl

@[simp] theorem resolve_label : resolve cell (.label t :: xs) = resolve cell xs := rfl

@[simp] theorem resolve_compute :
    resolve cell (.compute dest comp condition :: xs) =
      .compute dest comp condition :: resolve cell xs := rfl

@[simp] theorem size_nil : size [] = 0 := rfl

@[simp] theorem size_append : size (xs ++ ys) = size xs + size ys := by
  simp [size]

@[simp] theorem size_number : size (.number value :: xs) = size xs + 1 := rfl

@[simp] theorem size_symbol : size (.symbol t :: xs) = size xs + 1 := rfl

@[simp] theorem size_label : size (.label t :: xs) = size xs := rfl

@[simp] theorem size_compute : size (.compute dest comp condition :: xs) = size xs + 1 := rfl

@[simp] theorem length_resolve : (resolve cell piece).length = size piece := by
  induction piece with
  | nil => rfl
  | cons s piece ih => cases s <;> simp [ih]

/-! ## Placement -/

/-- `piece` stands in `code` with `place` instructions before it. -/
def Placed (code piece : List Statement) (place : Nat) : Prop :=
  ∃ before behind, code = before ++ piece ++ behind ∧ size before = place

namespace Placed

theorem left (h : Placed code (xs ++ ys) place) : Placed code xs place := by
  obtain ⟨before, behind, rfl, hsize⟩ := h
  exact ⟨before, ys ++ behind, by simp, hsize⟩

theorem right (h : Placed code (xs ++ ys) place) : Placed code ys (place + size xs) := by
  obtain ⟨before, behind, rfl, rfl⟩ := h
  exact ⟨before ++ xs, behind, by simp, by simp⟩

theorem tail (h : Placed code (s :: xs) place) : Placed code xs (place + size [s]) :=
  (show Placed code ([s] ++ xs) place from h).right

theorem le_size (h : Placed code piece place) : place + size piece ≤ size code := by
  obtain ⟨before, behind, rfl, rfl⟩ := h
  simp

theorem getElem?_resolve (h : Placed code (s :: xs) place)
    (hs : s.instruction? cell = some i) : (resolve cell code)[place]? = some i := by
  obtain ⟨before, behind, rfl, rfl⟩ := h
  rw [resolve_append, resolve_append, resolve_cons hs]
  simp

end Placed

/-! ## Execution -/

namespace Machine

/-- The state after a list of instructions. -/
def executeAll (m : Machine) (instructions : List Instruction) : Machine :=
  instructions.foldl execute m

@[simp] theorem executeAll_nil (m : Machine) : m.executeAll [] = m := rfl

@[simp] theorem executeAll_cons (m : Machine) (i : Instruction) (is : List Instruction) :
    m.executeAll (i :: is) = (m.execute i).executeAll is := rfl

@[simp] theorem executeAll_append (m : Machine) (is js : List Instruction) :
    m.executeAll (is ++ js) = (m.executeAll is).executeAll js :=
  List.foldl_append

@[simp] theorem execute_load (m : Machine) (value : Word) :
    m.execute (.load value) = ⟨m.ram, value, m.d, m.pc + 1⟩ := rfl

@[simp] theorem execute_m (m : Machine) (comp : Comp) :
    m.execute (.compute .m comp .never) = ⟨m.ram.set m.a (m.eval comp), m.a, m.d, m.pc + 1⟩ := rfl

@[simp] theorem execute_a (m : Machine) (comp : Comp) :
    m.execute (.compute .a comp .never) = ⟨m.ram, m.eval comp, m.d, m.pc + 1⟩ := rfl

@[simp] theorem execute_d (m : Machine) (comp : Comp) :
    m.execute (.compute .d comp .never) = ⟨m.ram, m.a, m.eval comp, m.pc + 1⟩ := rfl

@[simp] theorem execute_am (m : Machine) (comp : Comp) :
    m.execute (.compute .am comp .never) =
      ⟨m.ram.set m.a (m.eval comp), m.eval comp, m.d, m.pc + 1⟩ := rfl

@[simp] theorem execute_branch (m : Machine) (comp : Comp) (condition : Jump) :
    m.execute (.compute .none comp condition) =
      ⟨m.ram, m.a, m.d, if condition.taken (m.eval comp) then m.a.toNat else m.pc + 1⟩ := rfl

theorem Reaches.single {code : List Instruction} {m : Machine} {i : Instruction}
    (h : code[m.pc]? = some i) : Reaches code m (m.execute i) :=
  .head (by simp [step, h]) (.refl _ _)

/-- An instruction of a statement without a jump leads to the next place. -/
theorem execute_pc (m : Machine) (hs : s.instruction? cell = some i) (hgo : s.goesOn = true) :
    (m.execute i).pc = m.pc + 1 := by
  cases s with
  | number | symbol => cases hs; rfl
  | label => cases hs
  | compute dest comp condition =>
    cases hs
    simp only [Statement.goesOn, decide_eq_true_eq] at hgo
    subst hgo
    rfl

theorem executeAll_pc {m : Machine} (hgo : piece.all Statement.goesOn = true) :
    (m.executeAll (resolve cell piece)).pc = m.pc + size piece := by
  induction piece generalizing m with
  | nil => rfl
  | cons s piece ih =>
    simp only [List.all_cons, Bool.and_eq_true] at hgo
    cases s with
    | label t => exact ih hgo.2
    | number | symbol | compute =>
      rw [resolve_cons rfl, executeAll_cons, ih hgo.2, @execute_pc cell _ _ m rfl hgo.1]
      simp only [size_number, size_symbol, size_compute]
      omega

end Machine

open Machine

namespace Placed

/-- The machine runs through a piece of code without jumps. -/
theorem reaches {m : Machine} (cell : Symbol → Word) (h : Placed code piece place)
    (hpc : m.pc = place) (hgo : piece.all Statement.goesOn = true) :
    Reaches (resolve cell code) m (m.executeAll (resolve cell piece)) := by
  induction piece generalizing m place with
  | nil => exact .refl _ _
  | cons s piece ih =>
    subst hpc
    simp only [List.all_cons, Bool.and_eq_true] at hgo
    cases s with
    | label t => exact ih h.tail rfl hgo.2
    | number | symbol | compute =>
      rw [resolve_cons rfl, executeAll_cons]
      exact (Reaches.single (h.getElem?_resolve rfl)).trans
        (ih h.tail (@execute_pc cell _ _ m rfl hgo.1) hgo.2)

/-- The machine runs through a piece of code up to and including a jump at its end. -/
theorem reaches_jump {m : Machine} (cell : Symbol → Word)
    (h : Placed code (piece ++ [.compute dest comp condition]) place) (hpc : m.pc = place)
    (hgo : piece.all Statement.goesOn = true) :
    Reaches (resolve cell code) m
      ((m.executeAll (resolve cell piece)).execute (.compute dest comp condition)) := by
  have hlast : (resolve cell code)[(m.executeAll (resolve cell piece)).pc]? =
      some (.compute dest comp condition) := by
    rw [executeAll_pc hgo, hpc]
    exact h.right.getElem?_resolve rfl
  exact (h.left.reaches cell hpc hgo).trans (.single hlast)

end Placed

/-! ## Arrival -/

/-- Two memories hold the same words, cells in `off` aside. -/
def Ram.AgreeOff (off : List Word) (ram ram' : Ram) : Prop :=
  ∀ x, x ∉ off → ram x = ram' x

namespace Ram.AgreeOff
variable {off : List Word} {ram ram' : Ram}

theorem refl (off : List Word) (ram : Ram) : ram.AgreeOff off ram := fun _ _ => rfl

theorem eq (h : ram.AgreeOff [] ram') : ram = ram' :=
  funext fun x => h x List.not_mem_nil

/-- A write to a cell that does not count. -/
theorem set_left (h : ram.AgreeOff off ram') (hx : x ∈ off) (value : Word) :
    (ram.set x value).AgreeOff off ram' := by
  intro y hy
  have hne : y ≠ x := fun he => hy (he ▸ hx)
  rw [set_of_ne hne, h y hy]

theorem set (h : ram.AgreeOff off ram') (x value : Word) :
    (ram.set x value).AgreeOff off (ram'.set x value) := by
  intro y hy
  by_cases hx : y = x
  · rw [hx, set_self, set_self]
  · rw [set_of_ne hx, set_of_ne hx, h y hy]

/-- A write to the only cell that may differ. -/
theorem set_eq (h : ram.AgreeOff [x] ram') (value : Word) : ram.set x value = ram'.set x value := by
  funext y
  by_cases hx : y = x
  · rw [hx, set_self, set_self]
  · rw [set_of_ne hx, set_of_ne hx, h y (by simpa using hx)]

end Ram.AgreeOff

/-- The machine gets to a place with the given memory, cells in `off` aside. -/
def Arrives (code : List Instruction) (m : Machine) (off : List Word) (ram : Ram)
    (place : Nat) : Prop :=
  ∃ m', Reaches code m m' ∧ m'.pc = place ∧ m'.ram.AgreeOff off ram

namespace Arrives
variable {instructions : List Instruction} {m m₁ : Machine} {off : List Word} {ram ram' : Ram}

theorem head (h : Reaches instructions m m₁) (h' : Arrives instructions m₁ off ram place) :
    Arrives instructions m off ram place := by
  obtain ⟨m₂, hreaches, hpc, hram⟩ := h'
  exact ⟨m₂, h.trans hreaches, hpc, hram⟩

theorem mono (h : Arrives instructions m off ram place) (hoff : off ⊆ off')
    (hram : ram.AgreeOff off' ram') : Arrives instructions m off' ram' place := by
  obtain ⟨m', hreaches, hpc, hm'⟩ := h
  exact ⟨m', hreaches, hpc, fun x hx => (hm' x fun hmem => hx (hoff hmem)).trans (hram x hx)⟩

end Arrives

/-- The machine arrives behind a piece of code without jumps. -/
theorem Placed.arrives {m : Machine} {ram : Ram} (h : Placed code piece place) (hpc : m.pc = place)
    (hgo : piece.all Statement.goesOn = true)
    (hram : (m.executeAll (resolve cell piece)).ram.AgreeOff off ram) :
    Arrives (resolve cell code) m off ram (place + size piece) :=
  ⟨_, h.reaches cell hpc hgo, hpc ▸ executeAll_pc hgo, hram⟩

end

end HackVM
