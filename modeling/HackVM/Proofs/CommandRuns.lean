import HackVM.CommandLine
import HackVM.Proofs.Discoveries
import HackVM.Proofs.FileLines
import HackVM.Proofs.LinkOrder

/-! What the command line does to a disk.

A request can be carried out if its input stands for modules, the modules link and there is a place
for the output (`Request.Feasible`). Then the output is written and nothing else changes
(`Request.Feasible.perform_eq`); if not, nothing changes at all (`Request.perform_cases`). A request
that names no output is as feasible afterwards as it was before (`Request.Feasible.again`). -/

namespace HackVM

/-! ## Sources that agree -/

theorem Program.addAll_congr {source source' : Source} {names : List String}
    (h : ∀ name ∈ names, source name = source' name) (p : Program) :
    p.addAll source names = p.addAll source' names := by
  induction names generalizing p with
  | nil => rfl
  | cons name names ih =>
    rw [List.forall_mem_cons] at h
    simp only [addAll, p.add_congr h.1, ih h.2]

theorem link_congr {source source' : Source} {names : List String}
    (h : ∀ name ∈ names, source name = source' name) (options : Options) :
    link source options names = link source' options names := by
  rw [link, link, Program.addAll_congr h]

namespace CommandLine

/-! ## Requests -/

namespace Request

/-- The request can be carried out: the input stands for modules, they link to the lines, and the
output can be put at the location. -/
structure Feasible (r : Request) (disk : Disk) (found : Discovery) (location : Location)
    (lines : List String) : Prop where
  discovered : discover disk r.input = .ok found
  linked : (link (.ofDirectory disk found.root) (r.options found) found.modules).value = .ok lines
  placed : disk.target (r.output found) = .ok location

theorem perform_of_discovered {r : Request} {disk : Disk} (h : discover disk r.input = .ok found) :
    ∃ log, r.perform disk =
      let ran := run (.ofDirectory disk found.root) (r.options found) found.modules
        (.file (r.output found) r.mode) disk
      (ran.1, ⟨log, ran.2.value⟩) := by
  simp only [perform, h]
  exact ⟨_, rfl⟩

/-- The output is written, and this is all that changes. -/
theorem Feasible.perform_eq {r : Request} {disk : Disk} (h : r.Feasible disk found location lines) :
    ∃ log, r.perform disk =
      (disk.put location (.file (r.mode.merge (disk.bytesAt location) (fileBytes lines))),
        ⟨log, .ok lines.length⟩) := by
  obtain ⟨log, hperform⟩ := perform_of_discovered h.discovered
  rw [run_of_ok h.linked (Disk.write_eq_ok h.placed r.mode (fileBytes lines))] at hperform
  exact ⟨log, hperform⟩

/-- A request is feasible, or it fails and changes nothing. -/
theorem perform_cases (r : Request) (disk : Disk) :
    (∃ found location lines, r.Feasible disk found location lines) ∨
      ∃ log error, r.perform disk = (disk, ⟨log, .error error⟩) := by
  cases hfound : discover disk r.input with
  | error error =>
    refine .inr ⟨[], error, ?_⟩
    simp only [perform, hfound]
  | ok found =>
    obtain ⟨log, hperform⟩ := perform_of_discovered hfound
    cases hlink : (link (.ofDirectory disk found.root) (r.options found) found.modules).value with
    | error error =>
      rw [run_of_error disk hlink] at hperform
      exact .inr ⟨log, error, hperform⟩
    | ok lines =>
      cases htarget : disk.target (r.output found) with
      | error cause =>
        have hwrite : (Sink.file (r.output found) r.mode).write lines disk = .error cause := by
          simp only [Sink.file, Disk.write, htarget]
          rfl
        rw [run_of_refused hlink hwrite] at hperform
        exact .inr ⟨log, _, hperform⟩
      | ok location => exact .inl ⟨found, location, lines, hfound, hlink, htarget⟩

/-- Where no output is named, a request finds the same modules and the same place for the output
after it has been carried out. -/
theorem Feasible.again {r : Request} {disk : Disk} (h : r.Feasible disk found location lines)
    (houtput : r.output? = none) (bytes : Bytes) :
    r.Feasible (disk.put location (.file bytes)) found location lines := by
  obtain ⟨hfound, hlink, htarget⟩ := h
  have hdefault : r.output found = found.output := by
    rw [output, houtput, Option.getD_none]
  have hagree := Disk.agreeOff_put_target htarget bytes
  refine ⟨?_, ?_, hagree.target htarget⟩
  · rw [hdefault] at htarget
    exact discover_put hfound htarget bytes
  · rw [hdefault] at htarget
    obtain ⟨name, directory, rfl, hasm⟩ := exists_output_location hfound htarget
    have hmodules := ((link_isOk_iff _ _ _).mp ⟨lines, hlink⟩).1
    rw [← hlink]
    refine congrArg _ (link_congr (fun n hn => ?_) (r.options found))
    obtain ⟨given, hopen, _⟩ := hmodules n hn
    rw [hopen]
    exact hagree.ofDirectory hasm hopen

theorem merge_mode (r : Request) (old new : Bytes) :
    r.mode.merge old new = (if r.has .append then old else []) ++ new := by
  rw [mode]
  split <;> rfl

/-- The bootstrap code is asked for, or the input is a directory and it is not declined. -/
theorem bootstrap_iff {r : Request} {disk : Disk} (h : discover disk r.input = .ok found) :
    (r.options found).bootstrap = true ↔ r.has .bootstrap = true ∨
      (∃ l, disk.lookup r.input = .ok (l, .directory)) ∧ r.has .noBootstrap = false := by
  have hdirectory : found.isDirectory = true ↔ ∃ l, disk.lookup r.input = .ok (l, .directory) := by
    rcases discover_eq_ok.mp h with ⟨l, hlookup, _, rfl⟩ | ⟨l, bytes, name, hlookup, _, rfl⟩
    · exact iff_of_true rfl ⟨l, hlookup⟩
    · refine iff_of_false nofun ?_
      rintro ⟨l', hlookup'⟩
      rw [hlookup] at hlookup'
      cases hlookup'
  rw [← hdirectory]
  simp [options]

end Request

theorem respond_eq {arguments : List String} {r : Request} (h : Request.read arguments = .ok r)
    (setting? : Option String) (disk : Disk) : respond arguments setting? disk =
      ((r.perform disk).1, r.reply setting? (r.perform disk).2) := by
  simp only [respond, h]

/-- A request fails and changes nothing, or it is feasible and changes nothing but its output, which
holds the lines of the program behind what it held before or instead of it. An output that is not
named is none of the files that modules are read from, so that the same request, made once more
without appending, fares as before and changes nothing. -/
theorem request_changes_output_only {arguments : List String} {r : Request}
    (hread : Request.read arguments = .ok r) (setting? : Option String) (disk : Disk) :
    let after := respond arguments setting? disk
    (after.2.status = 1 ∧ after.1 = disk ∧
        (∀ found location lines, ¬ r.Feasible disk found location lines) ∨
      after.2.status = 0 ∧ ∃ found location lines, r.Feasible disk found location lines ∧
        ((r.options found).bootstrap = true ↔ r.has .bootstrap = true ∨
          (∃ l, disk.lookup r.input = .ok (l, .directory)) ∧ r.has .noBootstrap = false) ∧
        after.1.lookup (r.output?.getD found.output) = .ok (location, .file
          ((if r.has .append then disk.bytesAt location else []) ++
            Text.encode (Text.unlines lines))) ∧
        ∀ l ≠ location, after.1.get? l = disk.get? l) ∧
    (r.output? = none →
      (∀ found location name l entry, discover disk r.input = .ok found →
        disk.target found.output = .ok location →
        disk.lookup (found.root.join (moduleFile name)) = .ok (l, entry) → l ≠ location) ∧
      (r.has .append = false → ∀ setting?',
        (respond arguments setting?' after.1).1 = after.1 ∧
        (respond arguments setting?' after.1).2.status = after.2.status)) := by
  simp only [respond_eq hread]
  refine ⟨?_, fun houtput => ⟨?_, fun happend setting?' => ?_⟩⟩
  · rcases r.perform_cases disk with ⟨found, location, lines, h⟩ | ⟨log, error, hperform⟩
    · obtain ⟨log, hperform⟩ := h.perform_eq
      rw [hperform]
      refine .inr ⟨rfl, found, location, lines, h, Request.bootstrap_iff h.discovered, ?_, ?_⟩
      · rw [← r.merge_mode]
        exact Disk.lookup_put_target h.placed _
      · exact fun l hl => Disk.get?_put_of_ne disk _ hl
    · rw [hperform]
      refine .inl ⟨rfl, rfl, fun found location lines h => ?_⟩
      obtain ⟨log', hperform'⟩ := h.perform_eq
      rw [hperform] at hperform'
      exact nomatch congrArg (·.2.value) hperform'
  · intro found location name l entry hfound htarget hlookup
    exact output_ne_module hfound htarget (Disk.lookup_eq_ok.mp hlookup).1
  · rcases r.perform_cases disk with ⟨found, location, lines, h⟩ | ⟨log, error, hperform⟩
    · have hreplace (old new : Bytes) : r.mode.merge old new = new := by
        rw [r.merge_mode, happend]
        rfl
      obtain ⟨log, hperform⟩ := h.perform_eq
      obtain ⟨log', hperform'⟩ := (h.again houtput _).perform_eq
      rw [hperform, hperform', hreplace, hreplace]
      exact ⟨Disk.put_put _ _ _ _, rfl⟩
    · rw [hperform, hperform]
      exact ⟨rfl, rfl⟩

/-- A directory with two modules and an output from before. -/
def smallProgram : Disk where
  entries := [
    (["P"], .directory),
    (["P.asm", "P"], .file (Text.encode "old")),
    (["Sub.vm", "P"], .file (Text.encode "label B")),
    (["Main.vm", "P"], .file (Text.encode "label A\r\n"))]

theorem request_changes_output_only_directory :
    let after := respond ["P", "--no-bootstrap"] none smallProgram
    Request.read ["P", "--no-bootstrap"] = .ok ⟨⟨"P"⟩, none, [.noBootstrap]⟩ ∧
    after.2.status = 0 ∧
    after.1.lookup ⟨"P/P.asm"⟩ =
      .ok (["P.asm", "P"], .file (Text.encode "// label A\n(A)\n// label B\n(B)\n")) ∧
    (respond ["P", "--no-bootstrap"] none after.1).1 = after.1 ∧
    (respond ["P", "--no-bootstrap"] none after.1).2.status = 0 := by
  have hread : Request.read ["P", "--no-bootstrap"] = .ok ⟨⟨"P"⟩, none, [.noBootstrap]⟩ := by
    decide +kernel
  have hnames : (smallProgram.filesUnder ⟨"P"⟩ ["P"]).filterMap moduleName? = ["Sub", "Main"] := by
    decide +kernel
  have hfound : discover smallProgram ⟨"P"⟩ =
      .ok ⟨⟨"P"⟩, ["Main", "Sub"], ⟨"P/P.asm"⟩, true⟩ := by
    have hlookup : smallProgram.lookup ⟨"P"⟩ = .ok (["P"], .directory) := by decide +kernel
    have hsorted : sortNames ["Sub", "Main"] = ["Main", "Sub"] := by
      simp [sortNames, List.mergeSort]
    refine discover_eq_ok.mpr (.inl ⟨["P"], hlookup, ?_⟩)
    simp only [directoryFound, hnames, hsorted]
    exact ⟨List.cons_ne_nil _ _, rfl⟩
  have hfeasible : Request.Feasible ⟨⟨"P"⟩, none, [.noBootstrap]⟩ smallProgram _ ["P.asm", "P"]
      ["// label A", "(A)", "// label B", "(B)"] :=
    ⟨hfound, by decide +kernel, by decide +kernel⟩
  obtain ⟨hcase, hagain⟩ := request_changes_output_only hread none smallProgram
  obtain ⟨hsame, hstatus'⟩ := (hagain rfl).2 rfl none
  rcases hcase with ⟨_, _, hnot⟩ | ⟨hstatus, found, location, lines, h, _, hlookup, _⟩
  · exact absurd hfeasible (hnot _ _ _)
  · obtain rfl := Except.ok.inj (hfeasible.discovered.symm.trans h.discovered)
    obtain rfl := Except.ok.inj (hfeasible.linked.symm.trans h.linked)
    obtain rfl := Except.ok.inj (hfeasible.placed.symm.trans h.placed)
    exact ⟨hread, hstatus, hlookup, hsame, hstatus'.trans hstatus⟩

end CommandLine

end HackVM
