import HackVM.Proofs.StackCode

/-! What the machine does on the code of calls: the entry of a function, a call, and a return.

A call and an entry leave exactly the memory that `Ram.enter` and the pushed zeros describe: the
code saves one pointer after another, and what it has pushed at the end is the frame
(`Ram.frameWords_eq`). A return works through two scratch cells, and leaves the memory of
`Ram.leave` outside them (`Ram.leave_eq_restore`). -/

namespace HackVM
open Machine Expansion

section
variable {cell : Symbol → Word} {code : List Statement} {m : Machine}

/-! ## Entry of a function -/

/-- The code that puts a zero on the stack. -/
def pushZero : List Statement :=
  [.pointer .sp, .set .m (.succ .m), .set .a (.pred .m), .set .m .zero]

theorem executeAll_pushZero (hcell : Fixed cell) (m : Machine) :
    m.executeAll (resolve cell pushZero) =
      ⟨m.ram.push 0, m.ram.pointer .sp, m.d, m.pc + 4⟩ := by
  simp [pushZero, eval, reg, hcell.pointer, Ram.push, Ram.pointer, Ram.setPointer]

theorem executeAll_pushZeros (hcell : Fixed cell) (n : Nat) (m : Machine) :
    (m.executeAll (resolve cell (List.replicate n pushZero).flatten)).ram =
      m.ram.pushAll (List.replicate n 0) := by
  induction n generalizing m with
  | zero => rfl
  | succ n ih =>
    rw [List.replicate_succ, List.flatten_cons, resolve_append, executeAll_append,
      executeAll_pushZero hcell, ih]
    rfl

theorem goesOn_pushZeros (n : Nat) :
    ((List.replicate n pushZero).flatten).all Statement.goesOn = true := by
  induction n with
  | zero => rfl
  | succ n ih =>
    rw [List.replicate_succ, List.flatten_cons, List.all_append, ih]
    rfl

theorem function_arrives (hcell : Fixed cell) (h : Placed code (function name locals) m.pc) :
    Arrives (resolve cell code) m [] (m.ram.pushAll (List.replicate locals.toNat 0))
      (m.pc + size (function name locals)) := by
  refine h.arrives rfl (goesOn_pushZeros _) fun x _ => ?_
  exact congrFun (executeAll_pushZeros hcell _ m) x

/-! ## Call -/

namespace Ram
variable {ram : Ram}

/-- The next cells of the stack are above the pointers and registers. -/
def Room (ram : Ram) (n : Nat) : Prop :=
  ∀ i < n, High (ram.pointer .sp + BitVec.ofNat 16 i)

theorem room_of_le (hlow : 16 ≤ (ram.pointer .sp).toNat)
    (hhigh : (ram.pointer .sp).toNat + n ≤ 65536) : ram.Room n := by
  intro i hi
  rw [High, BitVec.toNat_add, BitVec.toNat_ofNat]
  omega

theorem Room.high (h : ram.Room (n + 1)) : High (ram.pointer .sp) := by
  simpa using h 0 n.succ_pos

theorem Room.push (h : ram.Room (n + 1)) (value : Word) : (ram.push value).Room n := by
  intro i hi
  have hnext : ram.pointer .sp + 1#16 + BitVec.ofNat 16 i =
      ram.pointer .sp + BitVec.ofNat 16 (i + 1) := by
    rw [BitVec.add_assoc, Nat.add_comm i, BitVec.ofNat_add]
  rw [pointer_push _ _ h.high, hnext]
  exact h (i + 1) (Nat.succ_lt_succ hi)

theorem pushAll_cons (ram : Ram) (word : Word) (words : List Word) :
    ram.pushAll (word :: words) = (ram.push word).pushAll words := rfl

theorem pointer_pushAll {words : List Word} (h : ram.Room words.length) :
    (ram.pushAll words).pointer .sp = ram.pointer .sp + BitVec.ofNat 16 words.length := by
  induction words generalizing ram with
  | nil => exact (BitVec.add_zero _).symm
  | cons word words ih =>
    rw [List.length_cons] at h
    rw [pushAll_cons, ih (h.push word), pointer_push _ _ h.high, BitVec.add_assoc, List.length_cons,
      Nat.add_comm words.length, BitVec.ofNat_add]

/-- Pointers that are pushed in a row are the same as before. -/
theorem foldl_push_pointer {ps : List Pointer} (h : ram.Room ps.length) (hps : .sp ∉ ps) :
    ps.foldl (fun r p => r.push (r.pointer p)) ram = ram.pushAll (ps.map ram.pointer) := by
  induction ps generalizing ram with
  | nil => rfl
  | cons p ps ih =>
    rw [List.mem_cons, not_or] at hps
    rw [List.length_cons] at h
    have hkept : ps.map (ram.push (ram.pointer p)).pointer = ps.map ram.pointer :=
      List.map_congr_left fun q hq =>
        pointer_push_of_ne _ _ h.high fun he => hps.2 (he ▸ hq)
    rw [List.foldl_cons, ih (h.push _) hps.2, hkept, List.map_cons, pushAll_cons]

/-- The saved pointers are those of the frame. -/
theorem frameWords_eq (ram : Ram) (back : Word) :
    ram.frameWords back = back :: savedPointers.map ram.pointer := rfl

end Ram

/-- The code that puts a pointer of the caller on the stack. -/
def savePointer (p : Pointer) : List Statement :=
  .pointer p :: .set .d (.reg .m) :: pushD

theorem executeAll_savePointer (hcell : Fixed cell) (p : Pointer) (m : Machine) :
    m.executeAll (resolve cell (savePointer p)) =
      ⟨m.ram.push (m.ram.pointer p), m.ram.pointer .sp, m.ram.pointer p, m.pc + 6⟩ := by
  simp [savePointer, executeAll_pushD hcell, eval, reg, hcell.pointer, Ram.pointer]

theorem executeAll_saveAll (hcell : Fixed cell) (ps : List Pointer) (m : Machine) :
    (m.executeAll (resolve cell (ps.flatMap savePointer))).ram =
      ps.foldl (fun r p => r.push (r.pointer p)) m.ram := by
  induction ps generalizing m with
  | nil => rfl
  | cons p ps ih =>
    rw [List.flatMap_cons, resolve_append, executeAll_append, executeAll_savePointer hcell, ih]
    rfl

/-- The code that puts the return address on the stack. -/
def pushBack (serial : Nat) : List Statement :=
  [Statement.symbol (.generated .back serial), .set .d (.reg .a)] ++ pushD

theorem executeAll_pushBack (hcell : Fixed cell) (serial : Nat) (m : Machine) :
    (m.executeAll (resolve cell (pushBack serial))).ram =
      m.ram.push (cell (.generated .back serial)) := by
  rw [pushBack, resolve_append, executeAll_append, executeAll_pushD hcell]
  rfl

theorem executeAll_pushFrame (hcell : Fixed cell) (serial : Nat) {m : Machine} (h : m.ram.Room 5) :
    (m.executeAll (resolve cell (pushBack serial ++ savedPointers.flatMap savePointer))).ram =
      m.ram.pushAll (m.ram.frameWords (cell (.generated .back serial))) := by
  rw [resolve_append, executeAll_append, executeAll_saveAll hcell, executeAll_pushBack hcell]
  generalize cell (.generated .back serial) = back
  have hpointers : savedPointers.map (m.ram.push back).pointer = savedPointers.map m.ram.pointer :=
    List.map_congr_left fun p hp =>
      Ram.pointer_push_of_ne _ _ h.high fun he => absurd (he ▸ hp) (by decide)
  rw [Ram.foldl_push_pointer (h.push back) (by decide), hpointers, Ram.frameWords_eq,
    Ram.pushAll_cons]

/-- The code that aims the bases of the callee. -/
def aimBases (arguments : Word) : List Statement :=
  [.pointer .sp, .set .d (.reg .m), .number frameSize, .set .d (.left .sub .a),
    .number arguments, .set .d (.left .sub .a), .pointer .arg, .set .m (.reg .d),
    .pointer .sp, .set .d (.reg .m), .pointer .lcl, .set .m (.reg .d)]

theorem executeAll_aimBases (hcell : Fixed cell) (arguments : Word) (m : Machine) :
    (m.executeAll (resolve cell (aimBases arguments))).ram =
      (m.ram.setPointer .arg (m.ram.pointer .sp - frameSize - arguments)).setPointer .lcl
        (m.ram.pointer .sp) := by
  have hsp (value : Word) : m.ram.set Pointer.arg.address value Pointer.sp.address =
      m.ram Pointer.sp.address := Ram.set_of_ne (by decide)
  simp [aimBases, eval, reg, hcell.pointer, Operand.reg, Binary.eval, Ram.pointer, Ram.setPointer,
    hsp]

/-- The part of a call that builds the frame. -/
def buildFrame (arguments : Word) (serial : Nat) : List Statement :=
  pushBack serial ++ savedPointers.flatMap savePointer ++ aimBases arguments

theorem executeAll_buildFrame (hcell : Fixed cell) (arguments : Word) (serial : Nat) {m : Machine}
    (h : m.ram.Room 5) :
    (m.executeAll (resolve cell (buildFrame arguments serial))).ram =
      m.ram.enter (cell (.generated .back serial)) arguments := by
  have hsp : (m.ram.pushAll (m.ram.frameWords (cell (.generated .back serial)))).pointer .sp =
      m.ram.pointer .sp + frameSize := Ram.pointer_pushAll h
  rw [buildFrame, resolve_append, executeAll_append, executeAll_aimBases hcell,
    executeAll_pushFrame hcell serial h, hsp, BitVec.add_sub_cancel]
  rfl

theorem goesOn_buildFrame (arguments : Word) (serial : Nat) :
    (buildFrame arguments serial).all Statement.goesOn = true := rfl

theorem call_eq (name : String) (arguments : Word) (serial : Nat) :
    call name arguments serial =
      buildFrame arguments serial ++ goto (.name name) ++
        [Statement.label (.generated .back serial)] := rfl

theorem call_arrives (hcell : Resolves code cell)
    (h : Placed code (call name arguments serial) m.pc) (hroom : m.ram.Room 5) :
    Arrives (resolve cell code) m []
      (m.ram.enter (BitVec.ofNat 16 (m.pc + size (call name arguments serial))) arguments)
      (cell (.name name)).toNat := by
  rw [call_eq] at h ⊢
  have hback : BitVec.ofNat 16 (m.pc + size (buildFrame arguments serial ++ goto (.name name) ++
      [Statement.label (.generated .back serial)])) = cell (.generated .back serial) := by
    rw [size_append, size_label, size_nil, Nat.add_zero, ← hcell.label h.right, BitVec.ofNat_toNat,
      BitVec.setWidth_eq]
  have hframe := h.left.left.reaches cell rfl (goesOn_buildFrame arguments serial)
  have hgoto := h.left.right
  rw [← executeAll_pc (goesOn_buildFrame arguments serial)] at hgoto
  rw [hback, ← executeAll_buildFrame hcell.toFixed arguments serial hroom]
  exact .head hframe (goto_arrives hgoto)

/-! ## Return -/

namespace Ram

/-- The pointers come back one after another from the cells below `frame`. -/
def restore (ram : Ram) (frame : Word) : List Pointer → Ram
  | [] => ram
  | p :: ps => (ram.setPointer p (ram (frame - 1))).restore (frame - 1) ps

/-- The saved pointers are those of the frame, from its end on. -/
theorem leave_eq_restore (ram : Ram) (h : 20 ≤ (ram.pointer .lcl).toNat) :
    ram.leave = ram.withResult.restore (ram.pointer .lcl) savedPointers.reverse := by
  have hread {k : Word} (hk : k ≤ 4) (r : Ram) (p : Pointer) (value : Word) :
      r.setPointer p value (ram.pointer .lcl - k) = r (ram.pointer .lcl - k) := by
    refine setPointer_apply _ _ _ ?_
    rw [High]
    bv_omega
  have hsum (k : Word) : ram.pointer .lcl - k - 1 = ram.pointer .lcl - (k + 1) :=
    BitVec.sub_sub _ _ _
  change _ = ram.withResult.restore (ram.pointer .lcl) [.that, .this, .arg, .lcl]
  simp (disch := decide) only [leave, restore, hsum, hread, BitVec.reduceAdd]
  rfl

theorem withResult_arg (ram : Ram) (h : High (ram.pointer .arg)) :
    ram.withResult (ram.pointer .arg) = ram.top := by
  rw [withResult, setPointer_apply _ _ _ h, set_self]

theorem withResult_apply (ram : Ram) (hsp : x ≠ Pointer.sp.address) (hx : x ≠ ram.pointer .arg) :
    ram.withResult x = ram x := by
  rw [withResult, setPointer_of_ne _ _ hsp, set_of_ne hx]

/-- Memories that agree outside the scratch cells still do so with the result in its place. -/
theorem AgreeOff.withResult {ram ram' : Ram} (h : ram.AgreeOff [14#16, 15#16] ram')
    (htop : High (ram'.pointer .sp - 1#16)) :
    ram.withResult.AgreeOff [14#16, 15#16] ram'.withResult := by
  have hpointer (p : Pointer) : ram.pointer p = ram'.pointer p := h _ (by cases p <;> decide)
  have htopEq : ram.top = ram'.top := by
    rw [top, hpointer]
    exact h _ fun hmem => htop.ne_scratch (List.mem_cons_of_mem _ hmem)
  rw [Ram.withResult, Ram.withResult, hpointer, htopEq]
  exact (h.set _ _).set _ _

end Ram

/-- The code that keeps the frame and the return address in the scratch cells. -/
def keepFrame : List Statement :=
  [.pointer .lcl, .set .d (.reg .m), .register 14, .set .m (.reg .d),
    .number frameSize, .set .a (.left .sub .a), .set .d (.reg .m), .register 15, .set .m (.reg .d)]

theorem executeAll_keepFrame (hcell : Fixed cell) (m : Machine)
    (h : High (m.ram.pointer .lcl - 5#16)) :
    m.executeAll (resolve cell keepFrame) =
      ⟨(m.ram.set 14#16 (m.ram.pointer .lcl)).set 15#16 (m.ram (m.ram.pointer .lcl - 5#16)), 15#16,
        m.ram (m.ram.pointer .lcl - 5#16), m.pc + 9⟩ := by
  have hframe : cell (.register 14) = 14#16 := hcell.register 14 (by decide)
  have hback : cell (.register 15) = 15#16 := hcell.register 15 (by decide)
  have hread : m.ram.set 14#16 (m.ram.pointer .lcl) (m.ram.pointer .lcl - 5#16) =
      m.ram (m.ram.pointer .lcl - 5#16) :=
    Ram.set_of_ne fun he => h.ne_scratch (by simp [he])
  simp only [Ram.pointer] at hread
  simp [keepFrame, eval, reg, hcell.pointer, hframe, hback, Operand.reg, Binary.eval, frameSize,
    Ram.pointer, hread]

/-- The code that puts the result in the place of the first argument. -/
def placeResult : List Statement :=
  [.pointer .arg, .set .a (.reg .m), .set .m (.reg .d),
    .pointer .arg, .set .d (.succ .m), .pointer .sp, .set .m (.reg .d)]

theorem executeAll_placeResult (hcell : Fixed cell) (m : Machine) :
    (m.executeAll (resolve cell placeResult)).ram =
      (m.ram.set (m.ram.pointer .arg) m.d).setPointer .sp
        ((m.ram.set (m.ram.pointer .arg) m.d).pointer .arg + 1) := by
  simp [placeResult, eval, reg, hcell.pointer, Ram.pointer, Ram.setPointer]

theorem executeAll_takeResult (hcell : Fixed cell) (m : Machine)
    (htop : High (m.ram.pointer .sp - 1#16)) (harg : High (m.ram.pointer .arg)) :
    (m.executeAll (resolve cell (popD ++ placeResult))).ram = m.ram.withResult := by
  have hdropTop : m.ram.drop (m.ram.pointer .sp - 1#16) = m.ram.top := Ram.drop_apply _ htop
  have hdropArg : m.ram.drop.pointer .arg = m.ram.pointer .arg :=
    Ram.pointer_setPointer_of_ne _ _ (by decide)
  rw [resolve_append, executeAll_append, executeAll_popD hcell, executeAll_placeResult hcell]
  simp only [hdropTop, hdropArg, Ram.withResult, Ram.pointer_set _ harg]
  -- the stack pointer that the drop has moved is written once more
  have hdrop : m.ram.drop.AgreeOff [Pointer.sp.address] m.ram :=
    (Ram.AgreeOff.refl _ _).set_left (List.mem_singleton_self _) _
  exact (hdrop.set _ _).set_eq _

/-- The code that brings one pointer of the caller back. -/
def restorePointer (p : Pointer) : List Statement :=
  [.register 14, .set .am (.pred .m), .set .d (.reg .m), .pointer p, .set .m (.reg .d)]

theorem executeAll_restorePointer (hcell : Fixed cell) (p : Pointer) (m : Machine)
    (h : High (m.ram 14#16 - 1#16)) :
    (m.executeAll (resolve cell (restorePointer p))).ram =
      (m.ram.set 14#16 (m.ram 14#16 - 1#16)).setPointer p (m.ram (m.ram 14#16 - 1#16)) := by
  have hframe : cell (.register 14) = 14#16 := hcell.register 14 (by decide)
  have hread : m.ram.set 14#16 (m.ram 14#16 - 1#16) (m.ram 14#16 - 1#16) =
      m.ram (m.ram 14#16 - 1#16) :=
    Ram.set_of_ne fun he => h.ne_scratch (by simp [he])
  simp [restorePointer, eval, reg, hcell.pointer, hframe, hread, Ram.setPointer]

/-- While the frame is walked down, the return address stays and the pointers come back. -/
theorem executeAll_restore (hcell : Fixed cell) (ps : List Pointer) {ram : Ram}
    (hagree : m.ram.AgreeOff [14#16, 15#16] ram) (hhigh : 16 + ps.length ≤ (m.ram 14#16).toNat) :
    (m.executeAll (resolve cell (ps.flatMap restorePointer))).ram 15#16 = m.ram 15#16 ∧
      (m.executeAll (resolve cell (ps.flatMap restorePointer))).ram.AgreeOff [14#16, 15#16]
        (ram.restore (m.ram 14#16) ps) := by
  induction ps generalizing m ram with
  | nil => exact ⟨rfl, hagree⟩
  | cons p ps ih =>
    have htoNat : (m.ram 14#16 - 1#16).toNat = (m.ram 14#16).toNat - 1 := by
      simp only [List.length_cons] at hhigh
      bv_omega
    have hcellHigh : High (m.ram 14#16 - 1#16) := by
      rw [High, htoNat]
      simp only [List.length_cons] at hhigh
      omega
    have hstep := executeAll_restorePointer hcell p m hcellHigh
    rw [List.flatMap_cons, resolve_append, executeAll_append]
    have h14 : (14#16 : Word) ≠ p.address := by cases p <;> decide
    have h15 : (15#16 : Word) ≠ p.address := by cases p <;> decide
    generalize m.executeAll (resolve cell (restorePointer p)) = m₁ at hstep ⊢
    have hm₁frame : m₁.ram 14#16 = m.ram 14#16 - 1#16 := by
      rw [hstep, Ram.setPointer_of_ne _ _ h14, Ram.set_self]
    have hm₁back : m₁.ram 15#16 = m.ram 15#16 := by
      rw [hstep, Ram.setPointer_of_ne _ _ h15, Ram.set_of_ne (by decide)]
    have hm₁ : m₁.ram.AgreeOff [14#16, 15#16] (ram.setPointer p (ram (m.ram 14#16 - 1#16))) := by
      have hread := hagree _ fun hmem => hcellHigh.ne_scratch (List.mem_cons_of_mem _ hmem)
      rw [hstep, hread]
      exact (hagree.set_left (by simp) _).set _ _
    have hrest := ih hm₁ (by
      rw [hm₁frame, htoNat]
      simp only [List.length_cons] at hhigh
      omega)
    rw [hm₁back, hm₁frame] at hrest
    exact hrest

/-- Before the pointers come back, the result is in its place and the scratch cells hold the frame
and the return address. -/
theorem executeAll_result (hcell : Fixed cell) (htop : High (m.ram.pointer .sp - 1#16))
    (harg : High (m.ram.pointer .arg)) (hback : High (m.ram.pointer .lcl - 5#16)) :
    (m.executeAll (resolve cell (keepFrame ++ (popD ++ placeResult)))).ram 14#16 =
        m.ram.pointer .lcl ∧
      (m.executeAll (resolve cell (keepFrame ++ (popD ++ placeResult)))).ram 15#16 =
        m.ram (m.ram.pointer .lcl - 5#16) ∧
      (m.executeAll (resolve cell (keepFrame ++ (popD ++ placeResult)))).ram.AgreeOff [14#16, 15#16]
        m.ram.withResult := by
  rw [resolve_append, executeAll_append, executeAll_keepFrame hcell m hback]
  generalize hkept : (m.ram.set 14#16 (m.ram.pointer .lcl)).set 15#16
    (m.ram (m.ram.pointer .lcl - 5#16)) = kept
  have hagree : kept.AgreeOff [14#16, 15#16] m.ram := by
    rw [← hkept]
    exact ((Ram.AgreeOff.refl _ _).set_left (by simp) _).set_left (by simp) _
  have hpointer (p : Pointer) : kept.pointer p = m.ram.pointer p :=
    hagree _ (by cases p <;> decide)
  have hscratch {x : Word} (hx : x ∈ [14#16, 15#16]) : kept.withResult x = kept x := by
    refine kept.withResult_apply (by fin_cases hx <;> decide) fun he => ?_
    rw [hpointer] at he
    exact harg.ne_scratch (he ▸ List.mem_cons_of_mem _ hx)
  rw [executeAll_takeResult hcell _ (hpointer .sp ▸ htop) (hpointer .arg ▸ harg)]
  refine ⟨?_, ?_, hagree.withResult htop⟩
  · rw [hscratch (by simp), ← hkept, Ram.set_of_ne (by decide), Ram.set_self]
  · rw [hscratch (by simp), ← hkept, Ram.set_self]

/-- The code that goes to the return address. -/
def jumpBack : List Statement :=
  [.register 15, .set .a (.reg .m), .jump]

theorem jumpBack_arrives (hcell : Fixed cell) (h : Placed code jumpBack place)
    (hpc : m.pc = place) :
    Arrives (resolve cell code) m [] m.ram (m.ram 15#16).toNat := by
  have hregister : cell (.register 15) = 15#16 := hcell.register 15 (by decide)
  have hpiece : jumpBack =
      [Statement.register 15, .set .a (.reg .m)] ++ [Statement.jump] := rfl
  rw [hpiece] at h
  refine ⟨_, h.reaches_jump cell hpc rfl, ?_, fun _ _ => rfl⟩
  simp [eval, reg, hregister, Jump.taken]

theorem ret_eq : ret = keepFrame ++ (popD ++ placeResult) ++
    savedPointers.reverse.flatMap restorePointer ++ jumpBack := rfl

theorem ret_arrives (hcell : Fixed cell) (h : Placed code ret m.pc)
    (htop : High (m.ram.pointer .sp - 1#16)) (harg : High (m.ram.pointer .arg))
    (hframe : 21 ≤ (m.ram.pointer .lcl).toNat) :
    Arrives (resolve cell code) m [14#16, 15#16] m.ram.leave m.ram.returnAddress.toNat := by
  have hback : High (m.ram.pointer .lcl - 5#16) := by
    rw [High]
    bv_omega
  obtain ⟨h14, h15, hagree⟩ := executeAll_result hcell htop harg hback
  obtain ⟨hkept, hleave⟩ := executeAll_restore hcell savedPointers.reverse hagree (by
    rw [h14]
    exact Nat.le_trans (by decide) hframe)
  rw [← executeAll_append, ← resolve_append] at hkept hleave
  rw [ret_eq] at h
  have hreaches := h.left.reaches cell rfl rfl
  have harrives := jumpBack_arrives (m := m.executeAll (resolve cell _)) hcell h.right
    (executeAll_pc rfl)
  rw [hkept, h15] at harrives
  refine .head hreaches (harrives.mono (List.nil_subset _) ?_)
  rw [h14] at hleave
  rw [m.ram.leave_eq_restore (by omega)]
  exact hleave

end

end HackVM
