import Mathlib.Data.String.Basic
import HackVM.Proofs.Discoveries

/-! Walks along joined paths.

A name joined to a path leads from where the path leads to the entry of that name
(`Disk.resolve_join`). The directory of a file leads to where the file is, by fewer steps
(`Disk.walk_dropIdle`), so that joined to the name of the file it leads to the file again
(`Disk.resolve_parent_join`). -/

namespace HackVM

/-! ## Texts of paths -/

theorem utf8ByteSize_eq (text : String) : text.utf8ByteSize = String.utf8Len text.toList := by
  rw [← String.utf8ByteSize_ofList, String.ofList_toList]

namespace Path

section
variable {base : Path} (hbase : base.text ≠ "") {name : String} (hname : '/' ∉ name.toList)
include hbase hname

/-- What stands in front of a name that is joined to a path: the path without a slash at its
end. -/
theorem exists_toList_join :
    ∃ front, (base.join ⟨name⟩).text.toList = front ++ '/' :: name.toList ∧
      (base.text.toList = front ∧ front.getLast? ≠ some '/' ∨
        base.text.toList = front ++ ['/']) := by
  have hrelative : (Path.mk name).isAbsolute = false := by
    rw [isAbsolute, beq_eq_false_iff_ne]
    exact fun h => hname (List.mem_of_head? h)
  unfold join
  rw [if_neg (by simp [hrelative])]
  split
  · rename_i hslash
    have hlast : base.text.toList.getLast? = some '/' := by simpa [hbase] using hslash
    have hfront := List.dropLast_append_getLast? '/' hlast
    refine ⟨base.text.toList.dropLast, ?_, .inr hfront.symm⟩
    rw [String.toList_append, ← List.singleton_append, ← List.append_assoc, hfront]
  · rename_i hslash
    have hlast : base.text.toList.getLast? ≠ some '/' := by simpa [hbase] using hslash
    refine ⟨base.text.toList, ?_, .inl ⟨rfl, hlast⟩⟩
    rw [String.toList_append, String.toList_append, List.append_assoc]
    rfl

theorem join_ne_empty : (base.join ⟨name⟩).text ≠ "" := by
  obtain ⟨front, htext, _⟩ := exists_toList_join hbase hname
  intro hempty
  simp [hempty] at htext

theorem size_join :
    base.text.utf8ByteSize + name.utf8ByteSize ≤ (base.join ⟨name⟩).text.utf8ByteSize := by
  obtain ⟨front, htext, hfront⟩ := exists_toList_join hbase hname
  rw [utf8ByteSize_eq, utf8ByteSize_eq, utf8ByteSize_eq, htext, String.utf8Len_append,
    String.utf8Len_cons]
  rcases hfront with ⟨hfront, _⟩ | hfront <;> rw [hfront]
  · omega
  · rw [String.utf8Len_append, String.utf8Len_cons, String.utf8Len_nil]
    omega

end

/-! ## Directories of files -/

theorem dropIdle_suffix (text : List Char) : dropIdle text <:+ text := by
  fun_induction dropIdle text with
  | case1 c cs ih => exact ih.trans (List.suffix_cons _ _)
  | case2 cs ih => exact ih.trans (List.suffix_cons _ _)
  | case3 => exact List.suffix_rfl

theorem getLast?_dropIdle (text : List Char) : (dropIdle text).getLast? = text.getLast? := by
  fun_induction dropIdle text with
  | case1 c cs ih => rw [ih, List.getLast?_cons_cons]
  | case2 cs ih => rw [ih, List.getLast?_cons_cons]
  | case3 => rfl

theorem parent_join_of_bare {path : Path} (h : path.folder = "") :
    path.parent.join ⟨path.fileName⟩ = path := by
  have hparent : path.parent = ⟨""⟩ := by
    rw [parent, h]
    rfl
  rw [hparent, join, ← text_of_bare h]
  simp

section
variable {path : Path} {above : List Char} (h : path.folder.toList = above ++ ['/'])
include h

theorem toList_parent : path.parent.text.toList = (dropIdle ('/' :: above.reverse)).reverse := by
  rw [parent, String.toList_ofList, h, List.reverse_append]
  rfl

theorem head?_parent : path.parent.text.toList.head? = path.text.toList.head? := by
  rw [toList_parent h, List.head?_reverse, getLast?_dropIdle, path.toList_text, h,
    List.head?_append_of_ne_nil _ (by simp), ← List.getLast?_reverse, List.reverse_append]
  rfl

theorem parent_ne_empty : path.parent.text ≠ "" := by
  intro hempty
  have hhead := head?_parent h
  rw [hempty, path.toList_text, h] at hhead
  simp at hhead

/-- A folder holds the directory and a slash. -/
theorem parent_sublist {front : List Char}
    (hfront : path.parent.text.toList = front ∧ front.getLast? ≠ some '/' ∨
      path.parent.text.toList = front ++ ['/']) :
    (front ++ ['/']).Sublist path.folder.toList := by
  have hparent := toList_parent h
  have hsuffix := dropIdle_suffix ('/' :: above.reverse)
  rcases hfront with ⟨rfl, hlast⟩ | hfront
  · rw [h]
    refine List.Sublist.append_right ?_ _
    rcases List.suffix_cons_iff.mp hsuffix with heq | hsuffix
    · rw [hparent, heq] at hlast
      simp at hlast
    · rw [hparent, ← List.reverse_sublist, List.reverse_reverse]
      exact hsuffix.sublist
  · rw [← hfront, hparent, h, ← List.reverse_sublist, List.reverse_reverse, List.reverse_append]
    exact hsuffix.sublist

end

/-- Joined to the name of the file, the directory of a file is no more than the path to it. -/
theorem parent_join_sublist (path : Path) :
    (path.parent.join ⟨path.fileName⟩).text.toList.Sublist path.text.toList := by
  rcases path.folder_eq with hfolder | ⟨above, hfolder⟩
  · rw [parent_join_of_bare hfolder]
  · obtain ⟨front, htext, hfront⟩ :=
      exists_toList_join (parent_ne_empty hfolder) path.slash_not_mem_fileName
    rw [htext, path.toList_text, ← List.singleton_append, ← List.append_assoc]
    exact (parent_sublist hfolder hfront).append_right _

end Path

/-! ## Walks -/

namespace Disk

theorem check_eq_ok {path : Path} : check path = .ok () ↔
    '\x00' ∉ path.text.toList ∧ path.text ≠ "" ∧ path.text.utf8ByteSize ≤ maxPath := by
  unfold check
  split
  · simp_all
  · split
    · simp_all
    · split
      · simp_all
      · simp_all

/-- The steps that are dropped lead nowhere. -/
theorem walk_dropIdle {disk : Disk} {text : List Char}
    (h : (Path.stepsOf text.reverse).foldlM disk.step l = .ok l') :
    (Path.stepsOf (Path.dropIdle text).reverse).foldlM disk.step l = .ok l' := by
  fun_induction Path.dropIdle text with
  | case1 c cs ih =>
    rw [List.reverse_cons, Path.stepsOf_concat, walk_idle_eq_ok (.inl rfl)] at h
    exact ih h.1
  | case2 cs ih =>
    have hhere : Path.stepsOf ['.'] = ["."] := rfl
    rw [List.reverse_cons, List.reverse_cons, List.append_assoc, List.singleton_append,
      Path.stepsOf_append, hhere, walk_idle_eq_ok (.inr rfl)] at h
    apply ih
    rw [List.reverse_cons, Path.stepsOf_concat, walk_idle_eq_ok (.inl rfl)]
    exact h
  | case3 => exact h

section
variable {disk : Disk} {base : Path} {name : String} (hbase : base.text ≠ "")
  (hname : '/' ∉ name.toList)
include hbase hname

theorem start_join : disk.start (base.join ⟨name⟩) = disk.start base := by
  obtain ⟨front, htext, hfront⟩ := Path.exists_toList_join hbase hname
  have hhead : (base.join ⟨name⟩).text.toList.head? = base.text.toList.head? := by
    rw [htext]
    rcases hfront with ⟨hfront, _⟩ | hfront
    · have hne : front ≠ [] := by simpa [← hfront] using hbase
      rw [hfront, List.head?_append_of_ne_nil _ hne]
    · rw [hfront, ← List.singleton_append, ← List.append_assoc,
        List.head?_append_of_ne_nil _ (by simp)]
  rw [start, start, Path.isAbsolute, Path.isAbsolute, hhead]

/-- Up to the name, a joined path leads to the directory. -/
theorem walk_join (hwalk : base.steps.foldlM disk.step l = .ok directory) :
    ∃ above, (base.join ⟨name⟩).steps = above ++ [name] ∧
      above.foldlM disk.step l = .ok directory := by
  obtain ⟨front, htext, hfront⟩ := Path.exists_toList_join hbase hname
  have hsteps : (base.join ⟨name⟩).steps = Path.stepsOf front ++ [name] := by
    rw [Path.steps_eq, htext, Path.stepsOf_append, Path.stepsOf_name hname]
  refine ⟨Path.stepsOf front, hsteps, ?_⟩
  rw [Path.steps_eq] at hwalk
  rcases hfront with ⟨hfront, _⟩ | hfront
  · rwa [hfront] at hwalk
  · rw [hfront, Path.stepsOf_concat, walk_idle_eq_ok (.inl rfl)] at hwalk
    exact hwalk.1

theorem resolve_join (hwalk : base.steps.foldlM disk.step (disk.start base) = .ok directory)
    (hcheck : check (base.join ⟨name⟩) = .ok ()) :
    disk.resolve (base.join ⟨name⟩) = .ok l ↔ disk.step directory name = .ok l := by
  obtain ⟨above, hsteps, habove⟩ := walk_join hbase hname hwalk
  rw [resolve_eq_ok, hsteps, start_join hbase hname, walk_concat_eq_ok, habove]
  constructor
  · rintro ⟨_, _, hdirectory, hstep⟩
    cases hdirectory
    exact hstep
  · exact fun hstep => ⟨hcheck, directory, rfl, hstep⟩

end

theorem check_of_sublist {path path' : Path} (h : check path = .ok ()) (hne : path'.text ≠ "")
    (hsub : path'.text.toList.Sublist path.text.toList) : check path' = .ok () := by
  rw [check_eq_ok, utf8ByteSize_eq] at h ⊢
  obtain ⟨hzero, _, hsize⟩ := h
  exact ⟨fun hmem => hzero (hsub.mem hmem), hne, (String.utf8Len_le_of_sublist hsub).trans hsize⟩

section
variable {disk : Disk} {path : Path}

theorem start_parent (hfolder : path.folder.toList = above ++ ['/']) :
    disk.start path.parent = disk.start path := by
  rw [start, start, Path.isAbsolute, Path.isAbsolute, Path.head?_parent hfolder]

theorem walk_parent (hfolder : path.folder.toList = above ++ ['/'])
    (habove : (Path.stepsOf above).foldlM disk.step l = .ok directory)
    (hdirectory : disk.get? directory = some .directory) :
    path.parent.steps.foldlM disk.step l = .ok directory := by
  have hwalk : (Path.stepsOf ('/' :: above.reverse).reverse).foldlM disk.step l =
      .ok directory := by
    rw [List.reverse_cons, List.reverse_reverse, Path.stepsOf_concat, walk_idle_eq_ok (.inl rfl)]
    exact ⟨habove, hdirectory⟩
  rw [Path.steps_eq, Path.toList_parent hfolder]
  exact walk_dropIdle hwalk

/-- The directory of a file leads to the file. -/
theorem resolve_parent_join (h : disk.resolve path = .ok location) :
    disk.resolve (path.parent.join ⟨path.fileName⟩) = .ok location := by
  rcases path.folder_eq with hfolder | ⟨above, hfolder⟩
  · rwa [Path.parent_join_of_bare hfolder]
  · obtain ⟨hcheck, hwalk⟩ := resolve_eq_ok.mp h
    have hslash := path.slash_not_mem_fileName
    rw [Path.steps_of_folder hfolder] at hwalk
    obtain ⟨directory, habove, hstep⟩ := walk_concat_eq_ok.mp hwalk
    have hparent := walk_parent hfolder habove (step_eq_ok.mp hstep).1
    rw [← start_parent hfolder] at hparent
    have hne := Path.parent_ne_empty hfolder
    have hcheck' := check_of_sublist hcheck (Path.join_ne_empty hne hslash)
      path.parent_join_sublist
    exact (resolve_join hne hslash hparent hcheck').mpr hstep

end

end Disk

end HackVM
