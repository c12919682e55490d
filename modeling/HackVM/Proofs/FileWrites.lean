import HackVM.Disk
import HackVM.Program
import HackVM.Proofs.Expansions

/-! What writing a file changes.

A file is written to a location where no directory is (`Disk.target_eq_ok`). Paths lead through
directories only, so that two disks which differ in such a location agree on the paths that lead
elsewhere (`Disk.AgreeOff.resolve`), and on where a path would put a file
(`Disk.AgreeOff.target`). -/

namespace HackVM

/-! ## Following a path -/

/-- A step of a path that names an entry of a directory. -/
structure StepsDown (name : String) : Prop where
  nonempty : name ≠ ""
  notHere : name ≠ "."
  notUp : name ≠ ".."

theorem StepsDown.move_eq (h : StepsDown name) (l : Location) : l.move name = name :: l := by
  simp [Location.move, h.nonempty, h.notHere, h.notUp]

namespace Disk

theorem step_eq_ok {disk : Disk} : disk.step l name = .ok l' ↔
    disk.get? l = some .directory ∧ l.move name = l' ∧
      (StepsDown name → name.utf8ByteSize ≤ maxName ∧ (disk.get? l').isSome = true) := by
  unfold step Location.move
  split
  · simp_all
  · simp_all
  · rename_i hl
    split
    · rename_i hstay
      have hdown : ¬ StepsDown name := fun h => hstay.elim h.nonempty h.notHere
      simp [hl, hdown]
    · rename_i hstay
      rw [not_or] at hstay
      split
      · rename_i hup
        have hdown : ¬ StepsDown name := fun h => h.notUp hup
        simp [hl, hdown]
      · rename_i hup
        have hdown : StepsDown name := ⟨hstay.1, hstay.2, hup⟩
        split
        · simp [hl, hdown]
          omega
        · split
          · rename_i hlong hsome
            simp only [Except.ok.injEq, hl, true_and, iff_self_and]
            rintro rfl -
            exact ⟨Nat.le_of_not_lt hlong, hsome⟩
          · rename_i hlong hnone
            simp only [reduceCtorEq, hl, true_and, false_iff, not_and]
            rintro rfl hname
            exact hnone (hname hdown).2

theorem resolve_eq_ok {disk : Disk} {path : Path} : disk.resolve path = .ok l ↔
    check path = .ok () ∧ path.steps.foldlM disk.step (disk.start path) = .ok l := by
  rw [resolve, bind_eq_ok]
  exact ⟨fun ⟨_, hcheck, hwalk⟩ => ⟨hcheck, hwalk⟩, fun ⟨hcheck, hwalk⟩ => ⟨(), hcheck, hwalk⟩⟩

theorem lookup_eq_ok {disk : Disk} {path : Path} : disk.lookup path = .ok (l, entry) ↔
    disk.resolve path = .ok l ∧ disk.get? l = some entry := by
  simp only [lookup, bind_eq_ok]
  constructor
  · rintro ⟨l', hresolve, h⟩
    split at h
    · cases h
      exact ⟨hresolve, by assumption⟩
    · cases h
  · rintro ⟨hresolve, hget⟩
    exact ⟨l, hresolve, by rw [hget]⟩

theorem walk_concat_eq_ok {disk : Disk} {steps : List String} :
    (steps ++ [name]).foldlM disk.step l = .ok l'' ↔
      ∃ l', steps.foldlM disk.step l = .ok l' ∧ disk.step l' name = .ok l'' := by
  simp only [List.foldlM_append, List.foldlM_cons, List.foldlM_nil, bind_pure, bind_eq_ok]

/-- An empty step and the step `.` stay, and make sure of a directory. -/
theorem walk_idle_eq_ok {disk : Disk} {steps : List String} (h : name = "" ∨ name = ".") :
    (steps ++ [name]).foldlM disk.step l = .ok directory ↔
      steps.foldlM disk.step l = .ok directory ∧ disk.get? directory = some .directory := by
  have hstay : ∀ l' : Location, disk.step l' name = .ok directory ↔
      l' = directory ∧ disk.get? directory = some .directory := by
    intro l'
    have hdown : ¬ StepsDown name := fun hname => h.elim hname.nonempty hname.notHere
    have hmove : l'.move name = l' := if_pos h
    rw [step_eq_ok, hmove]
    simp only [hdown, false_implies, and_true]
    constructor
    · rintro ⟨hl, rfl⟩
      exact ⟨rfl, hl⟩
    · rintro ⟨rfl, hl⟩
      exact ⟨hl, rfl⟩
  simp only [walk_concat_eq_ok, hstay]
  constructor
  · rintro ⟨_, hwalk, rfl, hl⟩
    exact ⟨hwalk, hl⟩
  · rintro ⟨hwalk, hl⟩
    exact ⟨directory, hwalk, rfl, hl⟩

/-- Without a trailing slash, what names a file is the last step. -/
theorem eq_concat_of_dropWhile {steps above : List String}
    (h : steps.reverse.dropWhile (· == "") = name :: above) (hlast : steps.getLast? ≠ some "") :
    steps = above.reverse ++ [name] ∧ name ≠ "" := by
  rcases List.eq_nil_or_concat' steps with rfl | ⟨front, last, rfl⟩
  · cases h
  · have hne : last ≠ "" := by simpa using hlast
    rw [List.reverse_append, List.reverse_singleton, List.singleton_append,
      List.dropWhile_cons_of_neg (by simpa using hne)] at h
    cases h
    exact ⟨by rw [List.reverse_reverse], hne⟩

/-- The location of a file is an entry of a directory, named by the last step of its path. -/
theorem target_eq_ok {disk : Disk} {path : Path} : disk.target path = .ok location ↔
    check path = .ok () ∧ ∃ above name directory, path.steps = above ++ [name] ∧ StepsDown name ∧
      above.foldlM disk.step (disk.start path) = .ok directory ∧
      disk.get? directory = some .directory ∧ name.utf8ByteSize ≤ maxName ∧
      disk.get? (name :: directory) ≠ some .directory ∧ location = name :: directory := by
  rw [target, bind_eq_ok]
  constructor
  · rintro ⟨_, hcheck, h⟩
    refine ⟨hcheck, ?_⟩
    split at h
    · cases h
    · rename_i name above hlast
      obtain ⟨directory, hwalk, h⟩ := bind_eq_ok.mp h
      obtain ⟨hwalk, hdirectory⟩ := (walk_idle_eq_ok (.inr rfl)).mp hwalk
      split at h
      · cases h
      · rename_i hplain
        rw [not_or, not_or] at hplain
        obtain ⟨hfile, hhere, hup⟩ := hplain
        obtain ⟨hsteps, hne⟩ := eq_concat_of_dropWhile hlast hfile
        split at h
        · cases h
        · split at h
          · cases h
          · rename_i hsize hfree
            cases h
            exact ⟨above.reverse, name, directory, hsteps, ⟨hne, hhere, hup⟩, hwalk, hdirectory,
              Nat.le_of_not_lt hsize, hfree, rfl⟩
  · rintro ⟨hcheck, above, name, directory, hsteps, hname, hwalk, hdirectory, hsize, hfree, rfl⟩
    refine ⟨(), hcheck, ?_⟩
    have hlast : path.steps.reverse.dropWhile (· == "") = name :: above.reverse := by
      rw [hsteps, List.reverse_append, List.reverse_singleton, List.singleton_append,
        List.dropWhile_cons_of_neg (by simpa using hname.nonempty)]
    rw [hlast]
    have hfile : path.steps.getLast? = some name := by rw [hsteps, List.getLast?_concat]
    refine bind_eq_ok.mpr ⟨directory, ?_, ?_⟩
    · rw [List.reverse_reverse]
      exact (walk_idle_eq_ok (.inr rfl)).mpr ⟨hwalk, hdirectory⟩
    · rw [hfile, if_neg (by simpa using ⟨hname.nonempty, hname.notHere, hname.notUp⟩),
        if_neg (Nat.not_lt.mpr hsize), if_neg hfree]

/-! ## Disks that agree but for one location -/

/-- What a file holds, and nothing where there is none. -/
def bytesAt (disk : Disk) (location : Location) : Bytes :=
  match disk.get? location with
  | some (.file bytes) => bytes
  | _ => []

/-- The disks differ at most in what one location holds, which is a directory on neither. -/
structure AgreeOff (location : Location) (disk disk' : Disk) : Prop where
  current : disk'.current = disk.current
  other : ∀ l ≠ location, disk'.get? l = disk.get? l
  noDirectory : disk.get? location ≠ some .directory
  noDirectory' : disk'.get? location ≠ some .directory

namespace AgreeOff
variable {location : Location} {disk disk' : Disk}

theorem symm (h : AgreeOff location disk disk') : AgreeOff location disk' disk where
  current := h.current.symm
  other l hl := (h.other l hl).symm
  noDirectory := h.noDirectory'
  noDirectory' := h.noDirectory

theorem ne_of_directory (h : AgreeOff location disk disk') (hl : disk.get? l = some .directory) :
    l ≠ location := by
  rintro rfl
  exact h.noDirectory hl

theorem directory (h : AgreeOff location disk disk') (hl : disk.get? l = some .directory) :
    disk'.get? l = some .directory := by
  rw [h.other l (h.ne_of_directory hl), hl]

theorem start (h : AgreeOff location disk disk') (path : Path) :
    disk'.start path = disk.start path := by
  simp [Disk.start, h.current]

theorem step (h : AgreeOff location disk disk') (hstep : disk.step l name = .ok l')
    (hne : l' ≠ location) : disk'.step l name = .ok l' := by
  rw [step_eq_ok] at hstep ⊢
  obtain ⟨hl, hmove, hdown⟩ := hstep
  rw [h.other l' hne]
  exact ⟨h.directory hl, hmove, hdown⟩

/-- Every location on the way is a directory, and so not the one where the disks differ. -/
theorem walk (h : AgreeOff location disk disk') {steps : List String}
    (hwalk : steps.foldlM disk.step l = .ok l') (hne : l' ≠ location) :
    steps.foldlM disk'.step l = .ok l' := by
  induction steps generalizing l with
  | nil => exact hwalk
  | cons name steps ih =>
    rw [List.foldlM_cons, bind_eq_ok] at hwalk ⊢
    obtain ⟨mid, hstep, hwalk⟩ := hwalk
    have hmid : mid ≠ location := by
      cases steps with
      | nil =>
        cases hwalk
        exact hne
      | cons name' steps =>
        rw [List.foldlM_cons, bind_eq_ok] at hwalk
        obtain ⟨_, hstep', _⟩ := hwalk
        exact h.ne_of_directory (step_eq_ok.mp hstep').1
    exact ⟨mid, h.step hstep hmid, ih hwalk⟩

theorem resolve (h : AgreeOff location disk disk') {path : Path}
    (hresolve : disk.resolve path = .ok l) (hne : l ≠ location) : disk'.resolve path = .ok l := by
  rw [resolve_eq_ok] at hresolve ⊢
  rw [h.start]
  exact ⟨hresolve.1, h.walk hresolve.2 hne⟩

theorem lookup (h : AgreeOff location disk disk') {path : Path}
    (hlookup : disk.lookup path = .ok (l, entry)) (hne : l ≠ location) :
    disk'.lookup path = .ok (l, entry) := by
  rw [lookup_eq_ok] at hlookup ⊢
  rw [h.other l hne]
  exact ⟨h.resolve hlookup.1 hne, hlookup.2⟩

theorem target (h : AgreeOff location disk disk') {path : Path}
    (htarget : disk.target path = .ok l) : disk'.target path = .ok l := by
  rw [target_eq_ok] at htarget ⊢
  obtain ⟨hcheck, above, name, directory, hsteps, hname, hwalk, hdirectory, hsize, hfree, rfl⟩ :=
    htarget
  refine ⟨hcheck, above, name, directory, hsteps, hname, ?_, h.directory hdirectory, hsize, ?_, rfl⟩
  · rw [h.start]
    exact h.walk hwalk (h.ne_of_directory hdirectory)
  · intro hdirectory'
    exact hfree (h.symm.directory hdirectory')

end AgreeOff

/-! ## Putting a file where a path says -/

theorem put_put (disk : Disk) (location : Location) (entry entry' : Entry) :
    (disk.put location entry).put location entry' = disk.put location entry' := by
  simp [put, List.filter_filter]

section
variable {disk : Disk} {path : Path} (h : disk.target path = .ok location)
include h

theorem get?_put_target (bytes : Bytes) :
    (disk.put location (.file bytes)).get? location = some (.file bytes) := by
  obtain ⟨_, _, name, directory, _, _, _, _, _, _, rfl⟩ := target_eq_ok.mp h
  exact get?_put_self disk name directory _

theorem bytesAt_put_target (bytes : Bytes) :
    (disk.put location (.file bytes)).bytesAt location = bytes := by
  rw [bytesAt, get?_put_target h]

theorem agreeOff_put_target (bytes : Bytes) :
    AgreeOff location disk (disk.put location (.file bytes)) where
  current := rfl
  other _ hne := get?_put_of_ne disk _ hne
  noDirectory := by
    obtain ⟨_, _, _, _, _, _, _, _, _, hfree, rfl⟩ := target_eq_ok.mp h
    exact hfree
  noDirectory' := by simp [get?_put_target h]

/-- The path leads to the file that was put there. -/
theorem lookup_put_target (bytes : Bytes) :
    (disk.put location (.file bytes)).lookup path = .ok (location, .file bytes) := by
  have hagree := agreeOff_put_target h bytes
  have hget := get?_put_target h bytes
  obtain ⟨hcheck, above, name, directory, hsteps, hname, hwalk, hdirectory, hsize, _, rfl⟩ :=
    target_eq_ok.mp h
  refine lookup_eq_ok.mpr ⟨resolve_eq_ok.mpr ⟨hcheck, ?_⟩, hget⟩
  rw [hsteps, hagree.start, walk_concat_eq_ok]
  refine ⟨directory, hagree.walk hwalk (hagree.ne_of_directory hdirectory), step_eq_ok.mpr ?_⟩
  exact ⟨hagree.directory hdirectory, hname.move_eq directory, fun _ => ⟨hsize, by simp [hget]⟩⟩

theorem write_eq_ok (mode : WriteMode) (bytes : Bytes) : disk.write path mode bytes =
    .ok (disk.put location (.file (mode.merge (disk.bytesAt location) bytes))) := by
  simp only [write, h]
  rfl

end

end Disk

/-! ## Handing a program to a sink -/

/-- The bytes of a file that holds the lines, each ended by a line feed. -/
def fileBytes (lines : List String) : Bytes :=
  Text.encode (Text.unlines lines)

theorem fileBytes_append (front rear : List String) :
    fileBytes (front ++ rear) = fileBytes front ++ fileBytes rear := by
  simp [fileBytes, Text.unlines, Text.encode]

section
variable {source : Source} {options : Options} {names : List String}

theorem run_of_error {sink : Sink σ} (held : σ)
    (h : (link source options names).value = .error error) :
    run source options names sink held =
      (held, ⟨(link source options names).log, .error error⟩) := by
  simp only [run, h]

theorem run_of_ok {sink : Sink σ} (h : (link source options names).value = .ok lines)
    (hwrite : sink.write lines held = .ok held') : run source options names sink held =
      (held', ⟨(link source options names).log, .ok lines.length⟩) := by
  simp only [run, h, hwrite]

theorem run_of_refused {sink : Sink σ} (h : (link source options names).value = .ok lines)
    (hwrite : sink.write lines held = .error cause) : run source options names sink held =
      (held, ⟨(link source options names).log, .error (.notWritten sink.destination cause)⟩) := by
  simp only [run, h, hwrite]

end

end HackVM
