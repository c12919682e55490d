import HackVM.Disk.Discovery
import HackVM.Proofs.FileWrites

/-! Where the modules of an input are and where its program goes.

The last step of a path is its file name (`Path.exists_steps_eq`), and it is what a file is called.
The modules of an input are in files whose names end in `.vm`, its output in one whose name ends in
`.asm`, so that the output is none of them (`output_ne_module`) and a directory comes to the same
modules when its output has been written into it (`discover_put`). -/

namespace HackVM

/-! ## File names -/

namespace Path

theorem toList_fileName (path : Path) :
    path.fileName.toList = (path.text.toList.reverse.takeWhile (· != '/')).reverse :=
  String.toList_ofList

theorem slash_not_mem_fileName (path : Path) : '/' ∉ path.fileName.toList := by
  rw [toList_fileName, List.mem_reverse]
  intro h
  simpa using List.all_eq_true.mp List.all_takeWhile _ h

theorem takeWhile_reverse_append {ext : List Char} (h : '/' ∉ ext) (rest : List Char) :
    (ext.reverse ++ rest).takeWhile (· != '/') = ext.reverse ++ rest.takeWhile (· != '/') := by
  refine List.takeWhile_append_of_pos fun c hc => ?_
  rw [bne_iff_ne]
  rintro rfl
  exact h (List.mem_reverse.mp hc)

/-- A text without slashes at the end of a path is at the end of its file name. -/
theorem suffix_fileName {path : Path} {ext : List Char} (h : ext <:+ path.text.toList)
    (hslash : '/' ∉ ext) : ext <:+ path.fileName.toList := by
  obtain ⟨front, htext⟩ := h
  rw [toList_fileName, ← htext, List.reverse_append, takeWhile_reverse_append hslash,
    List.reverse_append, List.reverse_reverse]
  exact List.suffix_append _ _

/-- In front of a file name there is nothing, or a slash. -/
theorem folder_cases (path : Path) : path.text.toList.reverse.dropWhile (· != '/') = [] ∨
    ∃ rest, path.text.toList.reverse.dropWhile (· != '/') = '/' :: rest := by
  cases hfolder : path.text.toList.reverse.dropWhile (· != '/') with
  | nil => exact .inl rfl
  | cons c rest =>
    have hc := List.head?_dropWhile_not (· != '/') path.text.toList.reverse
    rw [hfolder] at hc
    exact .inr ⟨rest, congrArg (· :: rest) (by simpa using hc)⟩

theorem folder_eq (path : Path) :
    path.folder = "" ∨ ∃ above, path.folder.toList = above ++ ['/'] := by
  rw [folder, String.toList_ofList]
  rcases path.folder_cases with hfolder | ⟨rest, hfolder⟩
  · rw [hfolder]
    exact .inl rfl
  · rw [hfolder, List.reverse_cons]
    exact .inr ⟨rest.reverse, rfl⟩

theorem toList_text (path : Path) :
    path.text.toList = path.folder.toList ++ path.fileName.toList := by
  rw [folder, String.toList_ofList, toList_fileName, ← List.reverse_append,
    List.takeWhile_append_dropWhile, List.reverse_reverse]

theorem text_of_bare {path : Path} (h : path.folder = "") : path.text = path.fileName := by
  rw [← String.toList_inj, path.toList_text, h, String.toList_empty, List.nil_append]

/-- The steps of a path with this text. -/
def stepsOf (text : List Char) : List String :=
  (text.splitOn '/').map String.ofList

theorem steps_eq (path : Path) : path.steps = stepsOf path.text.toList :=
  rfl

theorem stepsOf_append (front rear : List Char) :
    stepsOf (front ++ '/' :: rear) = stepsOf front ++ stepsOf rear := by
  rw [stepsOf, List.splitOn_append_cons_self, List.map_append]
  rfl

theorem stepsOf_concat (front : List Char) : stepsOf (front ++ ['/']) = stepsOf front ++ [""] :=
  stepsOf_append front []

theorem stepsOf_name {name : String} (h : '/' ∉ name.toList) : stepsOf name.toList = [name] := by
  rw [stepsOf, List.splitOn_eq_singleton h, List.map_singleton, String.ofList_toList]

theorem steps_of_folder {path : Path} (h : path.folder.toList = above ++ ['/']) :
    path.steps = stepsOf above ++ [path.fileName] := by
  rw [steps_eq, toList_text, h, List.append_assoc, List.singleton_append, stepsOf_append,
    stepsOf_name path.slash_not_mem_fileName]

/-- A path is what leads to its file, and the name of the file. -/
theorem exists_steps_eq (path : Path) : ∃ above, path.steps = above ++ [path.fileName] := by
  rcases path.folder_eq with hfolder | ⟨above, hfolder⟩
  · refine ⟨[], ?_⟩
    rw [steps_eq, text_of_bare hfolder, stepsOf_name path.slash_not_mem_fileName, List.nil_append]
  · exact ⟨_, steps_of_folder hfolder⟩

theorem fileName_folder_append (path : Path) {name : String} (h : '/' ∉ name.toList) :
    (Path.mk (path.folder ++ name)).fileName = name := by
  have hfolder : (path.text.toList.reverse.dropWhile (· != '/')).takeWhile (· != '/') = [] := by
    rcases path.folder_cases with hfolder | ⟨rest, hfolder⟩ <;> rw [hfolder] <;> rfl
  rw [fileName, folder, String.toList_append, String.toList_ofList, List.reverse_append,
    List.reverse_reverse, takeWhile_reverse_append h, hfolder, List.append_nil,
    List.reverse_reverse, String.ofList_toList]

theorem suffix_join (base path : Path) : path.text.toList <:+ (base.join path).text.toList := by
  unfold join
  split
  · exact List.suffix_rfl
  · split
    · rw [String.toList_append]
      exact List.suffix_append _ _
    · rw [String.toList_append]
      exact List.suffix_append _ _

end Path

/-! ## Extensions -/

/-- A name with the extension, which may be all of it. -/
def HasExtension (ext name : String) : Prop :=
  ext.toList <:+ name.toList

theorem stepsDown_vm (h : HasExtension ".vm" name) : StepsDown name := by
  have hlength : 3 ≤ name.toList.length := h.length_le
  constructor <;>
  · rintro rfl
    exact absurd hlength (by decide)

theorem not_asm_of_vm (h : HasExtension ".vm" name) : ¬ HasExtension ".asm" name := by
  intro hasm
  have hsuffix := List.suffix_of_suffix_length_le h hasm (by decide)
  exact absurd hsuffix (by decide)

theorem moduleName?_eq_some : moduleName? fileName = some name ↔
    name ≠ "" ∧ fileName = name ++ ".vm" := by
  have hsuffix : ".vm".toList.isSuffixOf? fileName.toList = some name.toList ↔
      fileName = name ++ ".vm" := by
    rw [List.isSuffixOf?_eq_some_iff_append_eq, ← String.toList_append, String.toList_inj]
    exact eq_comm
  rw [← hsuffix, moduleName?]
  split
  · rename_i hstem
    rw [hstem, Option.some.injEq]
    exact ⟨nofun, fun ⟨hne, h⟩ => absurd (String.toList_eq_nil_iff.mp h.symm) hne⟩
  · rename_i hstem
    rw [hstem]
    exact ⟨nofun, fun ⟨_, h⟩ => nomatch h⟩
  · rename_i stem hne hstem
    rw [hstem, Option.some.injEq, Option.some.injEq]
    constructor
    · rintro rfl
      rw [String.toList_ofList]
      exact ⟨fun h => hne (by simpa using h), rfl⟩
    · rintro ⟨_, rfl⟩
      exact String.ofList_toList

theorem hasExtension_append (ext stem : String) : HasExtension ext (stem ++ ext) := by
  rw [HasExtension, String.toList_append]
  exact List.suffix_append _ _

theorem hasExtension_of_moduleName? (h : moduleName? fileName = some name) :
    HasExtension ".vm" fileName := by
  rw [(moduleName?_eq_some.mp h).2]
  exact hasExtension_append ".vm" name

theorem moduleName?_of_asm (h : HasExtension ".asm" fileName) : moduleName? fileName = none := by
  cases hname : moduleName? fileName with
  | none => rfl
  | some name => exact absurd h (not_asm_of_vm (hasExtension_of_moduleName? hname))

/-- A path that ends in a file with an extension is one to such a file. -/
theorem HasExtension.fileName_join {path : Path} (h : HasExtension ext path.text)
    (hslash : '/' ∉ ext.toList) (base : Path) : HasExtension ext (base.join path).fileName :=
  Path.suffix_fileName (h.trans (Path.suffix_join base path)) hslash

theorem hasExtension_moduleFile (root : Path) (n : String) :
    HasExtension ".vm" (root.join (moduleFile n)).fileName :=
  (hasExtension_append ".vm" n).fileName_join (by decide) root

/-! ## Locations of files -/

namespace Disk
variable {disk : Disk} {path : Path}

theorem resolve_file (h : disk.resolve path = .ok l) (hname : StepsDown path.fileName) :
    ∃ directory, l = path.fileName :: directory := by
  obtain ⟨above, hsteps⟩ := path.exists_steps_eq
  rw [resolve_eq_ok, hsteps, walk_concat_eq_ok] at h
  obtain ⟨_, directory, _, hstep⟩ := h
  rw [step_eq_ok, hname.move_eq] at hstep
  exact ⟨directory, hstep.2.1.symm⟩

/-- The file of a module is not where an output goes. -/
theorem resolve_ne_asm (h : disk.resolve path = .ok l) (hvm : HasExtension ".vm" path.fileName)
    (hasm : HasExtension ".asm" name) : l ≠ name :: directory := by
  obtain ⟨above, rfl⟩ := resolve_file h (stepsDown_vm hvm)
  intro heq
  rw [List.cons.injEq] at heq
  exact not_asm_of_vm hvm (heq.1 ▸ hasm)

theorem target_file (h : disk.target path = .ok l) :
    StepsDown path.fileName ∧ ∃ directory, l = path.fileName :: directory := by
  obtain ⟨above, hsteps⟩ := path.exists_steps_eq
  obtain ⟨_, above', name, directory, hsteps', hname, _, _, _, _, rfl⟩ := target_eq_ok.mp h
  rw [hsteps, List.append_singleton_inj] at hsteps'
  rw [hsteps'.2]
  exact ⟨hname, directory, rfl⟩

end Disk

/-! ## Discoveries -/

/-- What a directory stands for. -/
def directoryFound (disk : Disk) (input : Path) (location : Location) : Discovery where
  root := input
  modules := sortNames ((disk.filesUnder input location).filterMap moduleName?)
  output := input.join (assemblyFile (location.head?.getD "out"))
  isDirectory := true

/-- What the file of a module stands for. -/
def fileFound (input : Path) (name : String) : Discovery where
  root := input.parent
  modules := [name]
  output := input.assemblyBeside name
  isDirectory := false

theorem discover_eq_ok {disk : Disk} {input : Path} : discover disk input = .ok found ↔
    (∃ location, disk.lookup input = .ok (location, .directory) ∧
      (directoryFound disk input location).modules ≠ [] ∧
      found = directoryFound disk input location) ∨
    ∃ location bytes name, disk.lookup input = .ok (location, .file bytes) ∧
      moduleName? input.fileName = some name ∧ found = fileFound input name := by
  constructor
  · intro h
    rw [discover] at h
    split at h
    · rename_i location hlookup
      split at h
      · cases h
      · rename_i hne
        obtain rfl := Except.ok.inj h
        exact .inl ⟨location, hlookup, hne, rfl⟩
    · rename_i location bytes hlookup
      split at h
      · cases h
      · rename_i name hname
        obtain rfl := Except.ok.inj h
        exact .inr ⟨location, bytes, name, hlookup, hname, rfl⟩
    · cases h
  · rintro (⟨location, hlookup, hne, rfl⟩ | ⟨location, bytes, name, hlookup, hname, rfl⟩)
    · simp only [discover, hlookup]
      split
      · exact absurd ‹_› hne
      · rfl
    · simp only [discover, hlookup, hname]
      rfl

/-- The output goes to a file that ends in `.asm`, if it can be written at all. -/
theorem exists_output_location {disk : Disk} {input : Path}
    (h : discover disk input = .ok found) (htarget : disk.target found.output = .ok location) :
    ∃ name directory, location = name :: directory ∧ HasExtension ".asm" name := by
  obtain ⟨hname, directory, rfl⟩ := Disk.target_file htarget
  refine ⟨_, directory, rfl, ?_⟩
  rcases discover_eq_ok.mp h with ⟨location, _, _, rfl⟩ | ⟨_, _, name, _, hmodule, rfl⟩
  · exact (hasExtension_append ".asm" _).fileName_join (by decide) input
  · -- the step up is no place for a file
    have hhere : name ≠ "." := by
      rintro rfl
      exact hname.notUp (input.fileName_folder_append (by decide))
    have hext : HasExtension ".asm" (fileFound input name).output.text := by
      simp only [fileFound, Path.assemblyBeside, if_neg hhere, assemblyFile, ← String.append_assoc]
      exact hasExtension_append ".asm" _
    exact Path.suffix_fileName hext (by decide)

theorem output_ne_module {disk : Disk} {input : Path} (h : discover disk input = .ok found)
    (htarget : disk.target found.output = .ok location) {root : Path}
    (hmodule : disk.resolve (root.join (moduleFile n)) = .ok l) : l ≠ location := by
  obtain ⟨name, directory, rfl, hasm⟩ := exists_output_location h htarget
  exact Disk.resolve_ne_asm hmodule (hasExtension_moduleFile root n) hasm

/-! ## Writing the output -/

namespace Disk

theorem isFile_iff {disk : Disk} {path : Path} :
    disk.isFile path = true ↔ ∃ l bytes, disk.lookup path = .ok (l, .file bytes) := by
  rw [isFile]
  split
  · rename_i l bytes hlookup
    exact iff_of_true rfl ⟨l, bytes, hlookup⟩
  · rename_i hnone
    exact iff_of_false nofun fun ⟨l, bytes, hlookup⟩ => hnone l bytes hlookup

/-- The module that an entry holds if it is a file in a directory. -/
def moduleIn? (disk : Disk) (path : Path) (directory : Location) : Location × Entry → Option String
  | (name :: above, .file _) =>
    if above = directory ∧ disk.isFile (path.join ⟨name⟩) then moduleName? name else none
  | _ => none

theorem filterMap_filesUnder (disk : Disk) (path : Path) (directory : Location) :
    (disk.filesUnder path directory).filterMap moduleName? =
      disk.entries.filterMap (disk.moduleIn? path directory) := by
  rw [filesUnder, fileNames, List.filterMap_filter, List.filterMap_filterMap]
  refine List.filterMap_congr fun entry _ => ?_
  rcases entry with ⟨_ | ⟨name, above⟩, _ | _⟩
  · rfl
  · rfl
  · by_cases habove : above = directory <;> simp [moduleIn?, habove]
  · rfl

namespace AgreeOff
variable {name : String} {directory : Location} {disk disk' : Disk}
  (h : AgreeOff (name :: directory) disk disk') (hasm : HasExtension ".asm" name)
include h hasm

/-- The file of a module is not affected. -/
theorem lookup_module {path : Path} (hvm : HasExtension ".vm" path.fileName)
    (hlookup : disk.lookup path = .ok (l, entry)) : disk'.lookup path = .ok (l, entry) :=
  h.lookup hlookup (resolve_ne_asm (lookup_eq_ok.mp hlookup).1 hvm hasm)

theorem isFile_module {path : Path} (hvm : HasExtension ".vm" path.fileName) :
    disk'.isFile path = disk.isFile path := by
  rw [Bool.eq_iff_iff, isFile_iff, isFile_iff]
  constructor
  · rintro ⟨l, bytes, hlookup⟩
    exact ⟨l, bytes, h.symm.lookup_module hasm hvm hlookup⟩
  · rintro ⟨l, bytes, hlookup⟩
    exact ⟨l, bytes, h.lookup_module hasm hvm hlookup⟩

theorem moduleIn?_eq (path : Path) (l : Location) :
    disk'.moduleIn? path l = disk.moduleIn? path l := by
  funext entry
  rcases entry with ⟨_ | ⟨name', above⟩, _ | _⟩
  · rfl
  · rfl
  · rw [moduleIn?, moduleIn?]
    cases hname : moduleName? name' with
    | none => simp
    | some n =>
      have hvm : HasExtension ".vm" (path.join ⟨name'⟩).fileName :=
        (hasExtension_of_moduleName? hname).fileName_join (by decide) path
      rw [h.isFile_module hasm hvm]
  · rfl

theorem ofDirectory {root : Path} (hopen : Source.ofDirectory disk root n = .ok lines) :
    Source.ofDirectory disk' root n = .ok lines := by
  rw [Source.ofDirectory, readLines, bind_eq_ok] at hopen ⊢
  obtain ⟨⟨l, entry⟩, hlookup, hlines⟩ := hopen
  exact ⟨(l, entry), h.lookup_module hasm (hasExtension_moduleFile root n) hlookup, hlines⟩

end AgreeOff

/-- Writing a file of another kind leaves the modules of every directory as they are. -/
theorem modules_put {disk : Disk} {path : Path}
    (htarget : disk.target path = .ok (name :: directory)) (hasm : HasExtension ".asm" name)
    (bytes : Bytes) (input : Path) (l : Location) :
    ((disk.put (name :: directory) (.file bytes)).filesUnder input l).filterMap moduleName? =
      (disk.filesUnder input l).filterMap moduleName? := by
  have hnone (entry : Entry) : disk.moduleIn? input l (name :: directory, entry) = none := by
    cases entry with
    | file => simp [moduleIn?, moduleName?_of_asm hasm]
    | directory => rfl
  rw [filterMap_filesUnder, filterMap_filesUnder,
    (agreeOff_put_target htarget bytes).moduleIn?_eq hasm, put, List.filterMap_cons_none (hnone _),
    List.filterMap_filter]
  refine List.filterMap_congr fun entry _ => ?_
  obtain ⟨location, entry⟩ := entry
  by_cases heq : location = name :: directory
  · simp [heq, hnone]
  · simp [heq]

end Disk

/-- An input stands for the same modules when its output has been written. -/
theorem discover_put {disk : Disk} {input : Path} (h : discover disk input = .ok found)
    (htarget : disk.target found.output = .ok location) (bytes : Bytes) :
    discover (disk.put location (.file bytes)) input = .ok found := by
  obtain ⟨name, directory, rfl, hasm⟩ := exists_output_location h htarget
  have hagree := Disk.agreeOff_put_target htarget bytes
  rw [discover_eq_ok] at h ⊢
  rcases h with ⟨l, hlookup, hne, rfl⟩ | ⟨l, content, n, hlookup, hname, rfl⟩
  · have hfound : directoryFound (disk.put (name :: directory) (.file bytes)) input l =
        directoryFound disk input l := by
      rw [directoryFound, directoryFound, Disk.modules_put htarget hasm]
    have hl : l ≠ name :: directory := hagree.ne_of_directory (Disk.lookup_eq_ok.mp hlookup).2
    refine .inl ⟨l, hagree.lookup hlookup hl, ?_⟩
    rw [hfound]
    exact ⟨hne, rfl⟩
  · refine .inr ⟨l, content, n, ?_, hname, rfl⟩
    exact hagree.lookup_module hasm (hasExtension_of_moduleName? hname) hlookup

end HackVM
