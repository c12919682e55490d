import HackVM.Proofs.Addresses
import HackVM.Proofs.FileLines
import HackVM.Proofs.FirstFaults
import HackVM.Proofs.NameOrder
import HackVM.Proofs.PathWalks

/-! The files of modules.

On a disk that lists every entry once, a name joined to a path that leads to a directory leads to
the entry of this name in the directory, if the two are short enough together
(`Disk.lookup_join_iff`). A directory so stands for the files with the names of modules inside it,
and for nothing else (`Disk.mem_modules`), and every module that an input stands for opens
(`exists_module_file`). -/

namespace HackVM

/-! ## Disks -/

/-- A name that an entry of a directory can have. -/
structure EntryName (name : String) : Prop extends StepsDown name where
  noSlash : '/' ∉ name.toList
  noZero : '\x00' ∉ name.toList
  short : name.utf8ByteSize ≤ Disk.maxName

instance (name : String) : Decidable (EntryName name) :=
  decidable_of_iff (name ≠ "" ∧ name ≠ "." ∧ name ≠ ".." ∧ '/' ∉ name.toList ∧
      '\x00' ∉ name.toList ∧ name.utf8ByteSize ≤ Disk.maxName)
    ⟨fun ⟨hne, hhere, hup, hslash, hzero, hshort⟩ => ⟨⟨hne, hhere, hup⟩, hslash, hzero, hshort⟩,
      fun h => ⟨h.nonempty, h.notHere, h.notUp, h.noSlash, h.noZero, h.short⟩⟩

namespace Disk

/-- Every location is listed once, with names that entries can have. -/
structure Proper (disk : Disk) : Prop where
  nodup : (disk.entries.map Prod.fst).Nodup
  names : ∀ entry ∈ disk.entries, ∀ name ∈ entry.1, EntryName name

instance (disk : Disk) : Decidable disk.Proper :=
  decidable_of_iff ((disk.entries.map Prod.fst).Nodup ∧
      ∀ entry ∈ disk.entries, ∀ name ∈ entry.1, EntryName name)
    ⟨fun ⟨hnodup, hnames⟩ => ⟨hnodup, hnames⟩, fun h => ⟨h.nodup, h.names⟩⟩

theorem Proper.get?_eq_some {disk : Disk} (h : disk.Proper) :
    disk.get? (name :: above) = some entry ↔ (name :: above, entry) ∈ disk.entries := by
  constructor
  · intro hget
    obtain ⟨front, rear, hentries, _⟩ := List.lookup_eq_some_iff.mp hget
    rw [hentries]
    exact List.mem_append_right front List.mem_cons_self
  · exact lookup_of_mem h.nodup

theorem Proper.entryName {disk : Disk} (h : disk.Proper)
    (hget : disk.get? (name :: above) = some entry) : EntryName name :=
  h.names _ (h.get?_eq_some.mp hget) name List.mem_cons_self

/-- The same disk, with its entries in another order. -/
structure Relisted (disk disk' : Disk) : Prop where
  entries : disk'.entries.Perm disk.entries
  current : disk'.current = disk.current

namespace Relisted
variable {disk disk' : Disk} (h : Relisted disk disk') (hdisk : disk.Proper)
include h hdisk

theorem proper : disk'.Proper where
  nodup := (h.entries.map Prod.fst).nodup_iff.mpr hdisk.nodup
  names entry hentry := hdisk.names entry (h.entries.mem_iff.mp hentry)

theorem get? (l : Location) : disk'.get? l = disk.get? l := by
  cases l with
  | nil => rfl
  | cons name above =>
    apply Option.ext
    intro entry
    rw [(h.proper hdisk).get?_eq_some, hdisk.get?_eq_some, h.entries.mem_iff]

theorem lookup (path : Path) : disk'.lookup path = disk.lookup path := by
  have hstep : disk'.step = disk.step := by
    funext l name
    rw [step, step, h.get? hdisk, h.get? hdisk]
  simp only [Disk.lookup, resolve, start, hstep, h.current, h.get? hdisk]

end Relisted

/-! ## Entries of a directory -/

theorem check_of_lookup {disk : Disk} {path : Path} (h : disk.lookup path = .ok (l, entry)) :
    check path = .ok () :=
  (resolve_eq_ok.mp (lookup_eq_ok.mp h).1).1

theorem check_join {base : Path} {name : String} (hbase : check base = .ok ())
    (hname : EntryName name) :
    check (base.join ⟨name⟩) = .ok () ↔ (base.join ⟨name⟩).text.utf8ByteSize ≤ maxPath := by
  obtain ⟨hzero, hne, _⟩ := check_eq_ok.mp hbase
  rw [check_eq_ok]
  refine ⟨fun h => h.2.2, fun h => ⟨?_, Path.join_ne_empty hne hname.noSlash, h⟩⟩
  obtain ⟨front, htext, hfront⟩ := Path.exists_toList_join hne hname.noSlash
  have hnot : '\x00' ∉ front := by
    rcases hfront with ⟨hfront, _⟩ | hfront <;> rw [hfront] at hzero
    · exact hzero
    · exact fun hmem => hzero (List.mem_append_left _ hmem)
  rw [htext]
  simp [hnot, hname.noZero]

section
variable {disk : Disk} {input : Path} (hlookup : disk.lookup input = .ok (location, .directory))
include hlookup

theorem lookup_join_iff (hname : EntryName name)
    (hget : disk.get? (name :: location) = some entry) :
    disk.lookup (input.join ⟨name⟩) = .ok (name :: location, entry) ↔
      (input.join ⟨name⟩).text.utf8ByteSize ≤ maxPath := by
  obtain ⟨hresolve, hdirectory⟩ := lookup_eq_ok.mp hlookup
  obtain ⟨hcheck, hwalk⟩ := resolve_eq_ok.mp hresolve
  rw [← check_join hcheck hname]
  constructor
  · exact check_of_lookup
  · intro h
    have hbase := (check_eq_ok.mp hcheck).2.1
    refine lookup_eq_ok.mpr ⟨(resolve_join hbase hname.noSlash hwalk h).mpr ?_, hget⟩
    exact step_eq_ok.mpr ⟨hdirectory, hname.move_eq _, fun _ => ⟨hname.short, by rw [hget]; rfl⟩⟩

theorem isFile_join_iff (hname : EntryName name)
    (hget : disk.get? (name :: location) = some (.file bytes)) :
    disk.isFile (input.join ⟨name⟩) = true ↔
      (input.join ⟨name⟩).text.utf8ByteSize ≤ maxPath := by
  rw [isFile_iff]
  constructor
  · rintro ⟨l, bytes', h⟩
    exact (check_eq_ok.mp (check_of_lookup h)).2.2
  · intro h
    exact ⟨_, bytes, (lookup_join_iff hlookup hname hget).mpr h⟩

/-- A file that is written to a name joined to a directory goes into the directory. -/
theorem target_join (hname : '/' ∉ name.toList)
    (htarget : disk.target (input.join ⟨name⟩) = .ok l) : l = name :: location := by
  obtain ⟨hcheck, hwalk⟩ := resolve_eq_ok.mp (lookup_eq_ok.mp hlookup).1
  have hbase := (check_eq_ok.mp hcheck).2.1
  obtain ⟨above, hsteps, habove⟩ := walk_join hbase hname hwalk
  obtain ⟨_, above', name', directory, hsteps', _, habove', _, _, _, rfl⟩ := target_eq_ok.mp htarget
  rw [hsteps, List.append_singleton_inj] at hsteps'
  obtain ⟨rfl, rfl⟩ := hsteps'
  rw [start_join hbase hname, habove] at habove'
  cases habove'
  rfl

end

/-! ## Modules of a directory -/

/-- The directory that the input leads to has the file of the module right inside, where the path
to it is not too long. -/
structure HasModule (disk : Disk) (input : Path) (location : Location) (n : String) : Prop where
  nonempty : n ≠ ""
  file : ∃ bytes, disk.get? ((n ++ ".vm") :: location) = some (.file bytes)
  short : (input.join (moduleFile n)).text.utf8ByteSize ≤ maxPath

theorem moduleIn?_eq_some {disk : Disk} {path : Path} {directory : Location} :
    disk.moduleIn? path directory entry = some n ↔ n ≠ "" ∧
      disk.isFile (path.join (moduleFile n)) = true ∧
      ∃ bytes, entry = ((n ++ ".vm") :: directory, .file bytes) := by
  unfold moduleIn?
  split
  · rename_i name above bytes
    split
    · rename_i hfile
      obtain ⟨rfl, hfile⟩ := hfile
      rw [moduleName?_eq_some]
      constructor
      · rintro ⟨hne, rfl⟩
        exact ⟨hne, hfile, bytes, rfl⟩
      · rintro ⟨hne, _, bytes', heq⟩
        cases heq
        exact ⟨hne, rfl⟩
    · rename_i hfile
      refine iff_of_false nofun ?_
      rintro ⟨_, hfile', bytes', heq⟩
      cases heq
      exact hfile ⟨rfl, hfile'⟩
  · rename_i hother
    refine iff_of_false nofun ?_
    rintro ⟨_, _, bytes, rfl⟩
    exact hother _ _ _ rfl

section
variable {disk : Disk} {input : Path} (hdisk : disk.Proper)
include hdisk

theorem mem_modules (hlookup : disk.lookup input = .ok (location, .directory)) :
    n ∈ (directoryFound disk input location).modules ↔ disk.HasModule input location n := by
  rw [directoryFound, (sortNames_perm _).mem_iff, filterMap_filesUnder, List.mem_filterMap]
  simp only [moduleIn?_eq_some]
  constructor
  · rintro ⟨_, hmem, hne, hfile, bytes, rfl⟩
    have hget := hdisk.get?_eq_some.mpr hmem
    exact ⟨hne, ⟨bytes, hget⟩, (isFile_join_iff hlookup (hdisk.entryName hget) hget).mp hfile⟩
  · rintro ⟨hne, ⟨bytes, hget⟩, hshort⟩
    have hfile := (isFile_join_iff hlookup (hdisk.entryName hget) hget).mpr hshort
    exact ⟨_, hdisk.get?_eq_some.mp hget, hne, hfile, bytes, rfl⟩

/-- Files of one module have one location. -/
theorem pairwise_modules (location : Location) :
    (directoryFound disk input location).modules.Pairwise
      fun a b => Text.encode a < Text.encode b := by
  apply pairwise_encode_sortNames
  rw [filterMap_filesUnder, List.Nodup, List.pairwise_filterMap]
  have hnodup := hdisk.nodup
  rw [List.Nodup, List.pairwise_map] at hnodup
  refine hnodup.imp fun hne n hn n' hn' heq => hne ?_
  obtain ⟨_, _, _, rfl⟩ := moduleIn?_eq_some.mp hn
  obtain ⟨_, _, _, rfl⟩ := moduleIn?_eq_some.mp hn'
  rw [heq]

theorem Relisted.discover_eq {disk' : Disk} (h : Relisted disk disk') :
    discover disk' input = discover disk input := by
  have hmodule (location : Location) :
      disk'.moduleIn? input location = disk.moduleIn? input location := by
    funext entry
    apply Option.ext
    intro n
    rw [moduleIn?_eq_some, moduleIn?_eq_some, isFile, isFile, h.lookup hdisk]
  have hmodules (location : Location) :
      sortNames ((disk'.filesUnder input location).filterMap moduleName?) =
        sortNames ((disk.filesUnder input location).filterMap moduleName?) := by
    rw [filterMap_filesUnder, filterMap_filesUnder, hmodule]
    exact sortNames_congr (h.entries.filterMap _)
  simp only [discover, h.lookup hdisk, hmodules]

end

end Disk

/-! ## What an input stands for -/

/-- What is to be found in a directory. -/
structure FoundInside (disk : Disk) (input : Path) (location : Location) (found : Discovery) :
    Prop where
  modules : ∀ n, n ∈ found.modules ↔ disk.HasModule input location n
  increasing : found.modules.Pairwise fun a b => Text.encode a < Text.encode b
  root : found.root = input
  output : ∃ stem, '/' ∉ stem.toList ∧ found.output = input.join (assemblyFile stem) ∧
    ∀ l, disk.target found.output = .ok l → l = (stem ++ ".asm") :: location
  files : ∀ n ∈ found.modules, ∃ bytes, disk.lookup (found.root.join (moduleFile n)) =
    .ok ((n ++ ".vm") :: location, .file bytes)

/-- The input leads to the file of the module. -/
structure Disk.IsModule (disk : Disk) (input : Path) (n : String) : Prop where
  nonempty : n ≠ ""
  file : ∃ location bytes, disk.lookup input = .ok (location, .file bytes)
  name : input.fileName = n ++ ".vm"

/-- What is to be found for the file of a module. -/
structure FoundAlone (disk : Disk) (input : Path) (n : String) (found : Discovery) : Prop where
  modules : found.modules = [n]
  file : disk.lookup (found.root.join (moduleFile n)) = disk.lookup input

theorem foundAlone {disk : Disk} {input : Path} (h : disk.IsModule input n) :
    FoundAlone disk input n (fileFound input n) where
  modules := rfl
  file := by
    obtain ⟨_, ⟨location, bytes, hlookup⟩, hname⟩ := h
    obtain ⟨hresolve, hget⟩ := Disk.lookup_eq_ok.mp hlookup
    have hparent := Disk.resolve_parent_join hresolve
    rw [hname] at hparent
    rw [hlookup]
    exact Disk.lookup_eq_ok.mpr ⟨hparent, hget⟩

theorem discover_eq_notModule {disk : Disk} {input : Path}
    (hnot : ∀ location, disk.lookup input ≠ .ok (location, .directory)) :
    discover disk input = .error (.notOpened input.text (.notModule input.text)) ↔
      ∀ n, ¬ disk.IsModule input n := by
  rw [discover]
  split
  · rename_i location hlookup
    exact absurd hlookup (hnot location)
  · rename_i location bytes hlookup
    split
    · rename_i hnone
      refine iff_of_true rfl fun n hn => ?_
      have hname := moduleName?_eq_some.mpr ⟨hn.nonempty, hn.name⟩
      rw [hnone] at hname
      cases hname
    · rename_i name hname
      obtain ⟨hne, hname⟩ := moduleName?_eq_some.mp hname
      exact iff_of_false (by simp) fun hno => hno name ⟨hne, ⟨location, bytes, hlookup⟩, hname⟩
  · rename_i cause hlookup
    refine iff_of_true rfl fun n hn => ?_
    obtain ⟨location, bytes, hfile⟩ := hn.file
    rw [hlookup] at hfile
    cases hfile

section
variable {disk : Disk} (hdisk : disk.Proper) {input : Path}
include hdisk

theorem foundInside (hlookup : disk.lookup input = .ok (location, .directory)) :
    FoundInside disk input location (directoryFound disk input location) where
  modules _ := Disk.mem_modules hdisk hlookup
  increasing := Disk.pairwise_modules hdisk location
  root := rfl
  output := by
    have hstem : '/' ∉ (location.head?.getD "out").toList := by
      cases location with
      | nil => decide
      | cons name above => exact (hdisk.entryName (Disk.lookup_eq_ok.mp hlookup).2).noSlash
    refine ⟨location.head?.getD "out", hstem, rfl, fun l htarget => ?_⟩
    refine Disk.target_join hlookup ?_ htarget
    rw [String.toList_append, List.mem_append, not_or]
    exact ⟨hstem, by decide⟩
  files n hn := by
    obtain ⟨_, ⟨bytes, hget⟩, hshort⟩ := (Disk.mem_modules hdisk hlookup).mp hn
    exact ⟨bytes, (Disk.lookup_join_iff hlookup (hdisk.entryName hget) hget).mpr hshort⟩

theorem discover_eq_noModulesIn (hlookup : disk.lookup input = .ok (location, .directory)) :
    discover disk input = .error (.notOpened input.text (.noModulesIn input.text)) ↔
      ∀ n, ¬ disk.HasModule input location n := by
  have hnone : (directoryFound disk input location).modules = [] ↔
      ∀ n, ¬ disk.HasModule input location n := by
    rw [List.eq_nil_iff_forall_not_mem]
    exact forall_congr' fun n => not_congr (Disk.mem_modules hdisk hlookup)
  rw [← hnone, discover, hlookup]
  dsimp only
  split
  · rename_i hmodules
    exact iff_of_true rfl hmodules
  · rename_i hmodules
    exact iff_of_false (by simp) hmodules

theorem exists_module_file (h : discover disk input = .ok found) (hn : n ∈ found.modules) :
    ∃ l bytes, disk.lookup (found.root.join (moduleFile n)) = .ok (l, .file bytes) := by
  rcases discover_eq_ok.mp h with
    ⟨location, hlookup, _, rfl⟩ | ⟨l, bytes, name, hlookup, hname, rfl⟩
  · obtain ⟨bytes, hfile⟩ := (foundInside hdisk hlookup).files n hn
    exact ⟨_, bytes, hfile⟩
  · obtain rfl := List.mem_singleton.mp hn
    obtain ⟨hne, hname⟩ := moduleName?_eq_some.mp hname
    exact ⟨l, bytes, (foundAlone ⟨hne, ⟨l, bytes, hlookup⟩, hname⟩).file.trans hlookup⟩

end

/-! ## Modules that open -/

theorem FirstFault.ne_notOpened {given : Lines} (h : FirstFault name given error) (n : String)
    (cause : AccessError) : error ≠ .notOpened n cause := by
  obtain ⟨_, _, _, _, _, hfault⟩ := h
  cases hfault with
  | unread => exact nofun
  | rejected => exact nofun

namespace Program

theorem add_ne_notOpened (p : Program) {source : Source} (hopen : source name = .ok given)
    (n : String) (cause : AccessError) :
    (p.add source name).2.value ≠ .error (.notOpened n cause) := by
  have hlines : (p.addLines name given).2.value ≠ .error (.notOpened n cause) :=
    fun h => (addLines_eq_error.mp h).ne_notOpened n cause rfl
  rw [add, hopen]
  dsimp only
  split
  · exact hlines
  · split
    · exact hlines
    · simp

theorem addAll_ne_notOpened {source : Source} {names : List String}
    (h : ∀ name ∈ names, ∃ given, source name = .ok given) (p : Program) (n : String)
    (cause : AccessError) : (p.addAll source names).value ≠ .error (.notOpened n cause) := by
  induction names generalizing p with
  | nil => exact nofun
  | cons name names ih =>
    rw [List.forall_mem_cons] at h
    obtain ⟨⟨given, hopen⟩, hrest⟩ := h
    rw [addAll]
    dsimp only
    split
    · rename_i error herror
      intro heq
      obtain rfl := Except.error.inj heq
      exact p.add_ne_notOpened hopen n cause herror
    · exact ih hrest _

end Program

theorem link_ne_notOpened {source : Source} {names : List String}
    (h : ∀ name ∈ names, ∃ given, source name = .ok given) (options : Options) (n : String)
    (cause : AccessError) : (link source options names).value ≠ .error (.notOpened n cause) := by
  rw [link]
  dsimp only
  split
  · rename_i error herror
    intro heq
    obtain rfl := Except.error.inj heq
    exact Program.addAll_ne_notOpened h (.empty options) n cause herror
  · simp

/-! ## Paths that are too long -/

namespace Path

/-- The current directory, with slashes behind it. -/
def slashed (n : Nat) : Path :=
  ⟨String.ofList ('.' :: List.replicate n '/')⟩

theorem toList_slashed (n : Nat) : (slashed n).text.toList = '.' :: List.replicate n '/' :=
  String.toList_ofList

theorem size_slashed (n : Nat) : (slashed n).text.utf8ByteSize = n + 1 := by
  have hslash : '/'.utf8Size = 1 := rfl
  rw [utf8ByteSize_eq, toList_slashed]
  induction n with
  | zero => rfl
  | succ n ih =>
    rw [List.replicate_succ', ← List.cons_append, String.utf8Len_append, ih, String.utf8Len_cons,
      hslash]
    rfl

end Path

namespace Disk
variable {disk : Disk}

theorem walk_slashed (h : disk.get? l = some .directory) (n : Nat) :
    (Path.stepsOf ('.' :: List.replicate n '/')).foldlM disk.step l = .ok l := by
  induction n with
  | zero =>
    have hsteps : Path.stepsOf ['.'] = [] ++ ["."] := rfl
    rw [List.replicate_zero, hsteps, walk_idle_eq_ok (.inr rfl)]
    exact ⟨rfl, h⟩
  | succ n ih =>
    rw [List.replicate_succ', ← List.cons_append, Path.stepsOf_concat, walk_idle_eq_ok (.inl rfl)]
    exact ⟨ih, h⟩

theorem lookup_slashed (h : disk.get? disk.current = some .directory) (hn : n < maxPath) :
    disk.lookup (.slashed n) = .ok (disk.current, .directory) := by
  have htext := Path.toList_slashed n
  have hstart : disk.start (.slashed n) = disk.current := by
    rw [start, Path.isAbsolute, htext]
    rfl
  refine lookup_eq_ok.mpr ⟨resolve_eq_ok.mpr ⟨check_eq_ok.mpr ⟨?_, ?_, ?_⟩, ?_⟩, h⟩
  · simp [htext]
  · intro hempty
    simp [hempty] at htext
  · rw [Path.size_slashed]
    exact hn
  · rw [hstart, Path.steps_eq, htext]
    exact walk_slashed h n

/-- No module is found through a path that leaves no room for the name of a file. -/
theorem not_hasModule {input : Path} (hdisk : disk.Proper)
    (hlookup : disk.lookup input = .ok (location, .directory))
    (hlong : maxPath < input.text.utf8ByteSize + 3) (n : String) :
    ¬ disk.HasModule input location n := by
  intro hmodule
  obtain ⟨bytes, hget⟩ := hmodule.file
  have hbase := (check_eq_ok.mp (check_of_lookup hlookup)).2.1
  have hsize := Path.size_join hbase (hdisk.entryName hget).noSlash
  have hext : ".vm".utf8ByteSize = 3 := rfl
  rw [String.utf8ByteSize_append, hext] at hsize
  have hshort : (input.join ⟨n ++ ".vm"⟩).text.utf8ByteSize ≤ maxPath := hmodule.short
  omega

end Disk

/-! ## Exactness -/

/-- A directory stands for the modules whose files are right inside it, at paths that are not too
long, in the order of their bytes, and is refused if it has none. Any other input is the file of one
module. The modules are in the files that they were found for, so that linking them does not fail to
open one, and the order in which the disk lists its entries does not matter. -/
theorem discovery_exact {disk : Disk} (hdisk : disk.Proper) (input : Path) :
    (∀ location, disk.lookup input = .ok (location, .directory) →
      (discover disk input = .error (.notOpened input.text (.noModulesIn input.text)) ↔
        ∀ n, ¬ disk.HasModule input location n) ∧
      ((∃ n, disk.HasModule input location n) →
        ∃ found, discover disk input = .ok found ∧ FoundInside disk input location found)) ∧
    ((∀ location, disk.lookup input ≠ .ok (location, .directory)) →
      (discover disk input = .error (.notOpened input.text (.notModule input.text)) ↔
        ∀ n, ¬ disk.IsModule input n) ∧
      ∀ n, disk.IsModule input n →
        ∃ found, discover disk input = .ok found ∧ FoundAlone disk input n found) ∧
    (∀ found, discover disk input = .ok found → ∀ options n cause,
      (link (.ofDirectory disk found.root) options found.modules).value ≠
        .error (.notOpened n cause)) ∧
    ∀ disk', Disk.Relisted disk disk' → discover disk' input = discover disk input := by
  refine ⟨fun location hlookup => ⟨?_, ?_⟩, fun hnot => ⟨?_, ?_⟩, ?_, ?_⟩
  · exact discover_eq_noModulesIn hdisk hlookup
  · rintro ⟨n, hn⟩
    have hne : (directoryFound disk input location).modules ≠ [] :=
      List.ne_nil_of_mem ((Disk.mem_modules hdisk hlookup).mpr hn)
    refine ⟨_, discover_eq_ok.mpr (.inl ⟨location, hlookup, hne, rfl⟩), ?_⟩
    exact foundInside hdisk hlookup
  · exact discover_eq_notModule hnot
  · rintro n hn
    obtain ⟨location, bytes, hlookup⟩ := hn.file
    have hname := moduleName?_eq_some.mpr ⟨hn.nonempty, hn.name⟩
    refine ⟨_, discover_eq_ok.mpr (.inr ⟨location, bytes, n, hlookup, hname, rfl⟩), ?_⟩
    exact foundAlone hn
  · intro found hfound options
    refine link_ne_notOpened (fun n hn => ?_) options
    obtain ⟨l, bytes, hfile⟩ := exists_module_file hdisk hfound hn
    exact ⟨_, ofDirectory_eq_ok hfile⟩
  · exact fun disk' h => h.discover_eq hdisk

/-- A directory with dots in its name and in those of its modules, and with a directory inside that
has the name of a module. -/
def dottedTree : Disk where
  entries := [
    (["Sys.vm", "prog.v2"], .file []),
    (["Main.test.vm", "prog.v2"], .file (Text.encode "eq")),
    (["prog.v2"], .directory),
    (["lib.vm", "prog.v2"], .directory)]

theorem discovery_exact_dotted :
    dottedTree.Proper ∧
      (∃ found, discover dottedTree ⟨"prog.v2/"⟩ = .ok found ∧
        FoundInside dottedTree ⟨"prog.v2/"⟩ ["prog.v2"] found ∧
        "Main.test" ∈ found.modules ∧ "lib" ∉ found.modules) ∧
      ∃ found, discover dottedTree ⟨".//prog.v2/./Main.test.vm"⟩ = .ok found ∧
        FoundAlone dottedTree ⟨".//prog.v2/./Main.test.vm"⟩ "Main.test" found := by
  have hproper : dottedTree.Proper := by decide +kernel
  refine ⟨hproper, ?_, ?_⟩
  · have hlookup : dottedTree.lookup ⟨"prog.v2/"⟩ = .ok (["prog.v2"], .directory) := rfl
    have hmain : dottedTree.HasModule ⟨"prog.v2/"⟩ ["prog.v2"] "Main.test" :=
      ⟨by decide, ⟨_, rfl⟩, by decide⟩
    obtain ⟨found, hfound, hinside⟩ :=
      ((discovery_exact hproper ⟨"prog.v2/"⟩).1 _ hlookup).2 ⟨_, hmain⟩
    refine ⟨found, hfound, hinside, (hinside.modules _).mpr hmain, fun hlib => ?_⟩
    obtain ⟨bytes, hfile⟩ := ((hinside.modules _).mp hlib).file
    cases hfile
  · have hlookup : dottedTree.lookup ⟨".//prog.v2/./Main.test.vm"⟩ =
        .ok (["Main.test.vm", "prog.v2"], .file (Text.encode "eq")) := rfl
    refine ((discovery_exact hproper ⟨".//prog.v2/./Main.test.vm"⟩).2.1 ?_).2 "Main.test" ?_
    · rw [hlookup]
      exact nofun
    · exact ⟨by decide, ⟨_, _, hlookup⟩, rfl⟩

/-- A directory with one module, which is the current directory. -/
def oneFile : Disk where
  entries := [(["work"], .directory), (["A.vm", "work"], .file (Text.encode "eq"))]
  current := ["work"]

/-- The file is in the directory, and is not found because the path to it is too long. -/
theorem discovery_misses_file :
    oneFile.Proper ∧ oneFile.lookup (.slashed 4092) = .ok (["work"], .directory) ∧
      oneFile.get? ["A.vm", "work"] = some (.file (Text.encode "eq")) ∧
      discover oneFile (.slashed 4092) =
        .error (.notOpened (Path.slashed 4092).text (.noModulesIn (Path.slashed 4092).text)) := by
  have hproper : oneFile.Proper := by decide +kernel
  have hlookup : oneFile.lookup (.slashed 4092) = .ok (["work"], .directory) :=
    Disk.lookup_slashed rfl (by decide)
  have hlong : Disk.maxPath < (Path.slashed 4092).text.utf8ByteSize + 3 := by
    rw [Path.size_slashed]
    decide
  refine ⟨hproper, hlookup, rfl, (discover_eq_noModulesIn hproper hlookup).mpr ?_⟩
  exact Disk.not_hasModule hproper hlookup hlong

end HackVM
