import HackVM.Proofs.FileWrites
import HackVM.Proofs.Loading
import HackVM.Proofs.NormalLines

/-! One run after another into the same sink.

A sink in memory and a file are changed by the programs that could be linked and by nothing else
(`runAll_memory`, `runAll_file`). Both ways of writing go together with making bytes of lines
(`WriteMode.merge_fileBytes`), so that the file is the text of the lines in memory; and as no line
of a program has a line break in it (`oneLine_of_link`), the lines can be read back from it. -/

namespace HackVM

/-! ## Lines of a program do not run into each other -/

namespace OneLine

theorem of_plain (h : ∀ c ∈ line.toList, isPlain c = true) : OneLine line := by
  intro c hc
  have hplain := h c hc
  constructor <;>
  · rintro rfl
    exact absurd hplain (by decide)

theorem of_any (h : line.toList.any isLineBreak = false) : OneLine line :=
  .of_isLineBreak fun c hc => Bool.eq_false_iff.mpr (List.any_eq_false.mp h c hc)

theorem append (hfront : OneLine front) (hrear : OneLine rear) : OneLine (front ++ rear) := by
  intro c hc
  rw [String.toList_append, List.mem_append] at hc
  exact hc.elim (hfront c) (hrear c)

end OneLine

theorem Program.Reached.oneLine {options : Options} {p : Program} (h : Reached options p) :
    ∀ line ∈ p.lines, OneLine line := by
  intro line hline
  rw [p.lines_eq_groups] at hline
  obtain ⟨group, hgroup, hline⟩ := List.mem_flatMap.mp hline
  rcases List.mem_cons.mp hline with rfl | hline
  · refine .append (.of_any (by decide)) ?_
    rcases groups_cases hgroup with ⟨_, rfl⟩ | ⟨m, hm, block, hblock, rfl⟩
    · exact .of_any (by decide)
    · obtain ⟨_, _, hlisted⟩ := h.listed hm
      obtain ⟨line, hnormal⟩ := hlisted.normal block hblock
      exact .of_isLineBreak (normalLine?_lineBreak hnormal)
  · obtain ⟨s, hs, rfl⟩ := List.mem_map.mp hline
    have hcode : s ∈ p.code := by
      rw [p.code_eq_groups]
      exact List.mem_flatMap_of_mem hgroup hs
    exact .of_plain (h.wellFormed s hcode).plain

theorem oneLine_of_link {source : Source} {options : Options} {names lines : List String}
    (h : (link source options names).value = .ok lines) : ∀ line ∈ lines, OneLine line := by
  obtain ⟨p, hp, rfl⟩ := exists_program_of_link h
  exact (Program.Reached.empty.addAll hp).oneLine

/-! ## Ways of writing -/

namespace WriteMode

/-- What is left of everything written, one after another, to a destination that was empty. -/
def contents (mode : WriteMode) (written : List (List α)) : List α :=
  match mode with
  | replace => written.getLast?.getD []
  | append => written.flatten

theorem foldl_merge (mode : WriteMode) (written : List (List α)) :
    written.foldl mode.merge [] = mode.contents written := by
  cases mode with
  | replace =>
    rcases List.eq_nil_or_concat' written with rfl | ⟨earlier, last, rfl⟩
    · rfl
    · rw [List.foldl_concat, contents, List.getLast?_concat]
      rfl
  | append =>
    calc written.foldl append.merge []
        = written.foldl (fun front rear => front ++ id rear) [] := rfl
      _ = written.flatten := by rw [List.foldl_append_eq_append, List.map_id, List.nil_append]

theorem merge_fileBytes (mode : WriteMode) (old new : List String) :
    mode.merge (fileBytes old) (fileBytes new) = fileBytes (mode.merge old new) := by
  cases mode with
  | replace => rfl
  | append => exact (fileBytes_append old new).symm

theorem forall_mem_contents {mode : WriteMode} {written : List (List α)} {P : α → Prop}
    (h : ∀ xs ∈ written, ∀ x ∈ xs, P x) : ∀ x ∈ mode.contents written, P x := by
  intro x hx
  cases mode with
  | replace =>
    cases hlast : written.getLast? with
    | none => simp [contents, hlast] at hx
    | some last =>
      rw [contents, hlast] at hx
      exact h last (List.mem_of_getLast? hlast) x hx
  | append =>
    obtain ⟨xs, hxs, hx⟩ := List.mem_flatten.mp hx
    exact h xs hxs x hx

end WriteMode

/-! ## Runs in a row -/

/-- What a run links. -/
structure Job where
  source : Source
  options : Options := {}
  names : List String

namespace Job

def link (job : Job) : Logged (Except RunError (List String)) :=
  HackVM.link job.source job.options job.names

/-- What a run answers if the sink takes all lines: how many there are. -/
def answer (job : Job) : Logged (Except RunError Nat) where
  log := job.link.log
  value := job.link.value.map List.length

theorem run_of_error {job : Job} (h : job.link.value = .error error) (sink : Sink σ) (held : σ) :
    run job.source job.options job.names sink held = (held, job.answer) := by
  rw [HackVM.run_of_error held h, answer, h]
  rfl

theorem run_of_ok {job : Job} {sink : Sink σ} (h : job.link.value = .ok lines)
    (hwrite : sink.write lines held = .ok held') :
    run job.source job.options job.names sink held = (held', job.answer) := by
  rw [HackVM.run_of_ok h hwrite, answer, h]
  rfl

end Job

/-- The runs of some jobs into one sink: what the sink holds in the end, and all answers. -/
def runAll (sink : Sink σ) : σ → List Job → σ × List (Logged (Except RunError Nat))
  | held, [] => (held, [])
  | held, job :: jobs =>
    let ran := run job.source job.options job.names sink held
    let rest := runAll sink ran.1 jobs
    (rest.1, ran.2 :: rest.2)

/-- The programs that could be linked. -/
def outputs (jobs : List Job) : List (List String) :=
  jobs.filterMap (·.link.value.toOption)

theorem outputs_cons_error {job : Job} (h : job.link.value = .error error) (jobs : List Job) :
    outputs (job :: jobs) = outputs jobs :=
  List.filterMap_cons_none (by rw [h]; rfl)

theorem outputs_cons_ok {job : Job} (h : job.link.value = .ok lines) (jobs : List Job) :
    outputs (job :: jobs) = lines :: outputs jobs :=
  List.filterMap_cons_some (by rw [h]; rfl)

theorem oneLine_of_mem_outputs {jobs : List Job} (h : lines ∈ outputs jobs) :
    ∀ line ∈ lines, OneLine line := by
  obtain ⟨job, _, hlines⟩ := List.mem_filterMap.mp h
  cases hvalue : job.link.value with
  | error => rw [hvalue] at hlines; cases hlines
  | ok lines' =>
    rw [hvalue] at hlines
    cases hlines
    exact oneLine_of_link hvalue

/-- A sink in memory takes every program, and nothing else. -/
theorem runAll_memory (mode : WriteMode) (held : List String) (jobs : List Job) :
    runAll (.memory mode) held jobs =
      ((outputs jobs).foldl mode.merge held, jobs.map Job.answer) := by
  induction jobs generalizing held with
  | nil => rfl
  | cons job jobs ih =>
    rw [runAll]
    cases hlink : job.link.value with
    | error error =>
      rw [Job.run_of_error hlink, ih, outputs_cons_error hlink]
      rfl
    | ok lines =>
      rw [Job.run_of_ok hlink rfl, ih, outputs_cons_ok hlink]
      rfl

namespace Disk

/-- What a disk holds after lists of lines have been written to a file one after another. -/
def writeEach (disk : Disk) (location : Location) (mode : WriteMode)
    (written : List (List String)) : Disk :=
  if written = [] then disk
  else disk.put location
    (.file ((written.map fileBytes).foldl mode.merge (disk.bytesAt location)))

theorem writeEach_cons {disk : Disk} {path : Path} (h : disk.target path = .ok location)
    (mode : WriteMode) (lines : List String) (written : List (List String)) :
    disk.writeEach location mode (lines :: written) =
      (disk.put location (.file (mode.merge (disk.bytesAt location) (fileBytes lines)))).writeEach
        location mode written := by
  rw [writeEach, writeEach, if_neg (List.cons_ne_nil _ _), bytesAt_put_target h, put_put]
  split
  · rename_i hnone
    rw [hnone]
    rfl
  · rfl

/-- Written to an empty file, lists of lines leave what they would leave in memory. -/
theorem writeEach_of_empty {disk : Disk} (hempty : disk.bytesAt location = []) (mode : WriteMode)
    (written : List (List String)) : disk.writeEach location mode written =
      if written = [] then disk
      else disk.put location (.file (fileBytes (mode.contents written))) := by
  have hbytes : (written.map fileBytes).foldl mode.merge (fileBytes []) =
      fileBytes (mode.contents written) := by
    rw [List.foldl_map, List.foldl_hom fileBytes mode.merge_fileBytes, mode.foldl_merge]
  rw [writeEach, hempty, ← hbytes]
  rfl

end Disk

/-- A file takes every program, and nothing else, if its path leads to a place for it. -/
theorem runAll_file {path : Path} {location : Location} (mode : WriteMode) {disk : Disk}
    (htarget : disk.target path = .ok location) (jobs : List Job) :
    runAll (.file path mode) disk jobs =
      (disk.writeEach location mode (outputs jobs), jobs.map Job.answer) := by
  induction jobs generalizing disk with
  | nil => rfl
  | cons job jobs ih =>
    rw [runAll]
    cases hlink : job.link.value with
    | error error =>
      rw [Job.run_of_error hlink, ih htarget, outputs_cons_error hlink]
      rfl
    | ok lines =>
      have hagree := Disk.agreeOff_put_target htarget
        (mode.merge (disk.bytesAt location) (fileBytes lines))
      rw [Job.run_of_ok hlink (Disk.write_eq_ok htarget mode (fileBytes lines)),
        ih (hagree.target htarget), outputs_cons_ok hlink, Disk.writeEach_cons htarget]
      rfl

/-- A file that was empty or not there mirrors a sink in memory, whatever is run into both and in
whichever way they are written. All answers agree, and count the lines of programs that could be
linked; the file is the text of the lines in memory, from which they can be read back; and these are
the lines of the last program, or of all of them, in order. A program that cannot be linked changes
neither, and no other file ever changes. -/
theorem file_sink_mirrors_memory {disk : Disk} {path : Path} {location : Location}
    (htarget : disk.target path = .ok location) (hempty : disk.bytesAt location = [])
    (mode : WriteMode) (jobs : List Job) :
    let file := runAll (.file path mode) disk jobs
    let memory := runAll (.memory mode) [] jobs
    file.2 = memory.2 ∧
    file.2.map Logged.value = jobs.map (·.link.value.map List.length) ∧
    file.1.bytesAt location = Text.encode (Text.unlines memory.1) ∧
    Text.lines (Text.unlines memory.1) = memory.1 ∧
    memory.1 = mode.contents (outputs jobs) ∧
    (outputs jobs = [] → file.1 = disk) ∧
    (outputs jobs ≠ [] → file.1.lookup path =
      .ok (location, .file (Text.encode (Text.unlines memory.1)))) ∧
    (∀ l ≠ location, file.1.get? l = disk.get? l) ∧
    ∀ job error, job.link.value = .error error →
      (runAll (.file path mode) disk (jobs ++ [job])).1 = file.1 ∧
      (runAll (.memory mode) [] (jobs ++ [job])).1 = memory.1 := by
  simp only [runAll_file mode htarget, runAll_memory, mode.foldl_merge,
    Disk.writeEach_of_empty hempty]
  refine ⟨trivial, by simp [Job.answer], ?_, ?_, trivial, fun hnone => if_pos hnone, ?_, ?_, ?_⟩
  · split
    · rename_i hnone
      rw [hempty, hnone]
      cases mode <;> rfl
    · exact Disk.bytesAt_put_target htarget _
  · exact Text.lines_unlines
      (WriteMode.forall_mem_contents fun _ hlines => oneLine_of_mem_outputs hlines)
  · intro hsome
    rw [if_neg hsome]
    exact Disk.lookup_put_target htarget _
  · intro l hl
    split
    · rfl
    · exact Disk.get?_put_of_ne disk _ hl
  · intro job error hlink
    have houtputs : outputs (jobs ++ [job]) = outputs jobs := by
      calc outputs (jobs ++ [job]) = outputs jobs ++ outputs [job] := List.filterMap_append
        _ = outputs jobs := by rw [outputs_cons_error hlink]; exact List.append_nil _
    rw [houtputs]
    exact ⟨rfl, rfl⟩

/-- Two programs, and between them one that cannot be linked. -/
def mixedJobs : List Job :=
  [⟨.ofMemory [("A", "label\tA // first\r\n")], {}, ["A"]⟩,
    ⟨.ofMemory [("B", "label B\nfrob")], {}, ["B"]⟩,
    ⟨.ofMemory [("C", "label C")], {}, ["C"]⟩]

def emptyDirectory : Disk where
  entries := [(["work"], .directory)]
  current := ["work"]

theorem file_sink_mirrors_memory_append :
    emptyDirectory.target ⟨"Out.asm"⟩ = .ok ["Out.asm", "work"] ∧
    emptyDirectory.bytesAt ["Out.asm", "work"] = [] ∧
    (runAll (.file ⟨"Out.asm"⟩ .append) emptyDirectory mixedJobs).2.map Logged.value =
      [.ok 2, .error (.line "B" 2 "frob" (.unknownCommand "frob")), .ok 2] ∧
    (runAll (.file ⟨"Out.asm"⟩ .append) emptyDirectory mixedJobs).1.lookup ⟨"Out.asm"⟩ =
      .ok (["Out.asm", "work"], .file (Text.encode "// label A\n(A)\n// label C\n(C)\n")) := by
  have htarget : emptyDirectory.target ⟨"Out.asm"⟩ = .ok ["Out.asm", "work"] := by decide +kernel
  have hempty : emptyDirectory.bytesAt ["Out.asm", "work"] = [] := by decide +kernel
  have houtputs : outputs mixedJobs = [["// label A", "(A)"], ["// label C", "(C)"]] := by
    decide +kernel
  obtain ⟨_, hvalues, _, _, hmemory, _, hlookup, _⟩ :=
    file_sink_mirrors_memory htarget hempty .append mixedJobs
  refine ⟨htarget, hempty, hvalues.trans ?_, ?_⟩
  · decide +kernel
  · rw [hlookup (by simp [houtputs]), hmemory, houtputs]
    decide +kernel

end HackVM
