import HackVM.Proofs.Acceptance
import HackVM.Proofs.Grammar

/-! A command that fails leaves nothing behind.

What comes of a command as a whole is said by `Context.expand`. Here its code is put together step
by step on a context that changes in place (`Command.work`), so that a number taken too early would
stay taken, and a question that the steps cannot answer would show. Both ways come to the same
(`work_run`): the limits are checked before anything is taken from the context, and they rule out
the questions without an answer. So a command with a fault (`Command.Refused`) is as good as left
out of the commands around it (`workEach_run`). -/

namespace HackVM

/-! ## Work -/

/-- Work on a context that changes in place. It ends with a result or with a fault, which does not
take back what was changed before; `none` stands for work that gets stuck. -/
abbrev Work := ExceptT Fault (StateT Context Option)

namespace Segment

/-- The pointer to the cells of a segment. -/
def base? : Segment → Option Pointer
  | locals => some .lcl
  | argument => some .arg
  | this => some .this
  | that => some .that
  | constant | static | pointer | temp => none

/-- The cell of a segment that has no base. There is no answer for the other segments, nor where the
number of a register is too large for a word. -/
def cell? (space : String) (index : Word) : Segment → Option Symbol
  | static => some (.static space index)
  | temp =>
    if tempBase + index.toNat ≤ 65535 then some (.register (tempBase + index.toNat)) else none
  | pointer => some (.pointer (if index = 0 then .this else .that))
  | constant | locals | argument | this | that => none

def place? (space : String) (index : Word) (segment : Segment) : Option Place :=
  match segment, segment.base? with
  | constant, _ => some (.literal index)
  | _, some base => some (.based base index)
  | _, none => (segment.cell? space index).map .direct

/-- There is an answer for every index that the segment has. -/
theorem place?_eq {segment : Segment} {index : Word} (h : index ≤ segment.maxIndex)
    (space : String) : segment.place? space index = some (segment.place space index) := by
  cases segment with
  | temp =>
    have hregister := (Context.temp_register h).2
    have hword : tempBase + index.toNat ≤ 65535 := by omega
    simp only [place?, base?, cell?, if_pos hword, Option.map_some, place]
  | _ => rfl

theorem exists_locate? {segment : Segment} (h : segment ≠ .constant) (space : String)
    (index : Word) :
    ∃ address, Expansion.locate? (segment.place space index) = some address := by
  cases segment with
  | constant => exact absurd rfl h
  | _ => exact ⟨_, rfl⟩

end Segment

namespace Command

def pushWork (segment : Segment) (index : Word) : Work (List Statement) := do
  ofExcept (segment.checkIndex index)
  let place ← segment.place? (← get).space index
  return Expansion.fetch place ++ Expansion.pushD

def popWork (segment : Segment) (index : Word) : Work (List Statement) := do
  if segment = .constant then throw (.unknownSegment segment.text)
  ofExcept (segment.checkIndex index)
  let place ← segment.place? (← get).space index
  let address ← Expansion.locate? place
  return address ++ popInto

/-- The code of a command, put together step by step. -/
def work : Command → Work (List Statement)
  | arithmetic op => modifyGet fun ctx =>
    (Expansion.arithmetic op ctx.serials.comparisons,
      { ctx with serials := ctx.serials.afterOperation op })
  | push segment index => pushWork segment index
  | pop segment index => popWork segment index
  | label name => return Expansion.label ((← get).label name)
  | goto name => return Expansion.goto ((← get).label name)
  | ifGoto name => return Expansion.ifGoto ((← get).label name)
  | function name locals => do
    modify fun ctx => { ctx with function? := some name }
    return Expansion.function name locals
  | call name arguments => do
    ofExcept (checkArguments arguments)
    let serial ← modifyGet fun ctx =>
      (ctx.serials.takeCall.1, { ctx with serials := ctx.serials.takeCall.2 })
    return Expansion.call name arguments serial
  | ret => return Expansion.ret

/-- Commands one after another. A fault ends the work on one command and not on those behind it. -/
def workEach (commands : List Command) :
    StateT Context Option (List (Except Fault (List Statement))) :=
  commands.mapM fun command => command.work.run

end Command

/-! ## Single commands -/

namespace Work
variable {f : α → Work β} {ctx : Context}

theorem run_ofExcept_bind (x : Except Fault α) : (ofExcept x >>= f).run.run ctx =
    match x with
    | .ok a => (f a).run.run ctx
    | .error fault => some (.error fault, ctx) := by
  cases x <;> rfl

theorem run_get_bind {f : Context → Work β} : (get >>= f).run.run ctx = (f ctx).run.run ctx :=
  rfl

theorem run_some_bind (a : α) : (liftM (some a) >>= f).run.run ctx = (f a).run.run ctx :=
  rfl

end Work

namespace Command

theorem pushWork_run (ctx : Context) (segment : Segment) (index : Word) :
    (pushWork segment index).run.run ctx =
      some (Expansion.push ctx.space segment index, ctx) := by
  rw [pushWork, Work.run_ofExcept_bind, Expansion.push]
  cases hcheck : segment.checkIndex index with
  | error fault => rfl
  | ok =>
    dsimp only
    rw [Work.run_get_bind, Segment.place?_eq (checkIndex_eq_ok hcheck)]
    rfl

theorem popWork_run (ctx : Context) (segment : Segment) (index : Word) :
    (popWork segment index).run.run ctx = some (Expansion.pop ctx.space segment index, ctx) := by
  by_cases hconstant : segment = .constant
  · subst hconstant
    rfl
  · obtain ⟨address, haddress⟩ := Segment.exists_locate? hconstant ctx.space index
    simp only [popWork, if_neg hconstant, Expansion.pop, haddress]
    rw [Work.run_ofExcept_bind]
    cases hcheck : segment.checkIndex index with
    | error fault => rfl
    | ok =>
      dsimp only
      rw [Work.run_get_bind, Segment.place?_eq (checkIndex_eq_ok hcheck), Work.run_some_bind,
        haddress, List.append_assoc, List.append_assoc]
      rfl

theorem work_run (ctx : Context) (command : Command) : command.work.run.run ctx =
    match ctx.code command with
    | .ok code => some (.ok code, ctx.after command)
    | .error fault => some (.error fault, ctx) := by
  cases command with
  | push segment index =>
    rw [work, pushWork_run, Context.code]
    cases Expansion.push ctx.space segment index <;> rfl
  | pop segment index =>
    rw [work, popWork_run, Context.code]
    cases Expansion.pop ctx.space segment index <;> rfl
  | call name arguments =>
    rw [work, Work.run_ofExcept_bind, Context.code]
    cases checkArguments arguments <;> rfl
  | _ => rfl

/-- What a command cannot be expanded for. -/
inductive Refused : Command → Fault → Prop
  | push {segment : Segment} : segment.maxIndex < index →
      Refused (.push segment index) (.indexOutOfRange segment index)
  | constant : Refused (.pop .constant index) (.unknownSegment "constant")
  | pop {segment : Segment} : segment ≠ .constant → segment.maxIndex < index →
      Refused (.pop segment index) (.indexOutOfRange segment index)
  | call : 32767 < arguments.toNat →
      Refused (.call name arguments) (.malformed (.tooManyArguments arguments))

end Command

/-- Code behind a check of the index fails only there. -/
theorem Segment.checked_eq_error {segment : Segment} {index : Word} {code : α} :
    (segment.checkIndex index >>= fun _ => pure code) = .error fault ↔
      segment.maxIndex < index ∧ fault = .indexOutOfRange segment index := by
  rw [bind_eq_error, ← checkIndex_eq_error]
  apply or_iff_left
  rintro ⟨_, _, hcode⟩
  cases hcode

namespace Expansion

theorem push_eq_error {segment : Segment} : push space segment index = .error fault ↔
    segment.maxIndex < index ∧ fault = .indexOutOfRange segment index :=
  Segment.checked_eq_error

theorem pop_eq_error {segment : Segment} (h : segment ≠ .constant) :
    pop space segment index = .error fault ↔
      segment.maxIndex < index ∧ fault = .indexOutOfRange segment index := by
  obtain ⟨address, haddress⟩ := Segment.exists_locate? h space index
  simp only [pop, haddress]
  exact Segment.checked_eq_error

end Expansion

namespace Context

/-- A command is refused in all contexts for the same fault. -/
theorem code_eq_error (ctx : Context) (command : Command) (fault : Fault) :
    ctx.code command = .error fault ↔ command.Refused fault := by
  constructor
  · intro h
    cases command with
    | push segment index =>
      obtain ⟨hindex, rfl⟩ := Expansion.push_eq_error.mp h
      exact .push hindex
    | pop segment index =>
      by_cases hconstant : segment = .constant
      · subst hconstant
        cases h
        exact .constant
      · obtain ⟨hindex, rfl⟩ := (Expansion.pop_eq_error hconstant).mp h
        exact .pop hconstant hindex
    | call name arguments =>
      rcases bind_eq_error.mp h with hcheck | ⟨_, _, hcode⟩
      · obtain ⟨harguments, rfl⟩ := checkArguments_eq_error.mp hcheck
        exact .call harguments
      · cases hcode
    | _ => cases h
  · intro h
    cases h with
    | push hindex => exact Expansion.push_eq_error.mpr ⟨hindex, rfl⟩
    | constant => rfl
    | pop hconstant hindex => exact (Expansion.pop_eq_error hconstant).mpr ⟨hindex, rfl⟩
    | call harguments =>
      apply bind_eq_error.mpr
      exact .inl (checkArguments_eq_error.mpr ⟨harguments, rfl⟩)

/-- The numbers that a command takes, and the function that it opens. -/
theorem after_eq (ctx : Context) (command : Command) : ctx.after command = { ctx with
    function? := command.opens?.or ctx.function?
    serials := {
      comparisons := ctx.serials.comparisons + if command.isComparison then 1 else 0
      calls := ctx.serials.calls + if command.isCall then 1 else 0 } } := by
  cases command with
  | arithmetic op => cases op <;> rfl
  | _ => rfl

end Context

namespace Command

/-- How the work on a command ends: with its fault, if it has one, in the context as it was, or else
with its code in the context behind it. -/
structure Settles (command : Command) (ctx : Context) (result : Except Fault (List Statement))
    (after : Context) : Prop where
  run : command.work.run.run ctx = some (result, after)
  refused : ∀ fault, result = .error fault ↔ command.Refused fault
  fault : ∀ fault, result = .error fault → ctx.expand command = .error fault ∧ after = ctx
  code : ∀ code, result = .ok code → ctx.expand command = .ok (code, after) ∧ after = { ctx with
    function? := command.opens?.or ctx.function?
    serials := {
      comparisons := ctx.serials.comparisons + if command.isComparison then 1 else 0
      calls := ctx.serials.calls + if command.isCall then 1 else 0 } }

/-- Of the commands that can be read only one that writes to a number is refused. -/
theorem exists_refused_iff {command : Command} (hread : read line = .ok command) :
    (∃ fault, command.Refused fault) ↔ ∃ index, command = .pop .constant index := by
  constructor
  · rintro ⟨fault, hrefused⟩
    have hfits := (read_inOrder hread).2
    cases hrefused with
    | constant => exact ⟨_, rfl⟩
    | push hindex => exact absurd hfits (BitVec.not_le.mpr hindex)
    | pop _ hindex => exact absurd hfits (BitVec.not_le.mpr hindex)
    | call harguments => exact absurd hfits (BitVec.not_le.mpr harguments)
  · rintro ⟨index, rfl⟩
    exact ⟨_, .constant⟩

theorem exists_settles (ctx : Context) (command : Command) :
    ∃ result after, command.Settles ctx result after := by
  have hrun := work_run ctx command
  have hrefused := ctx.code_eq_error command
  cases hcode : ctx.code command with
  | error fault =>
    simp only [hcode] at hrun hrefused
    refine ⟨.error fault, ctx, hrun, hrefused, ?_, nofun⟩
    intro fault' heq
    cases heq
    rw [Context.expand, hcode]
    exact ⟨rfl, rfl⟩
  | ok code =>
    simp only [hcode] at hrun hrefused
    refine ⟨.ok code, ctx.after command, hrun, hrefused, nofun, ?_⟩
    intro code' heq
    cases heq
    rw [Context.expand, hcode]
    exact ⟨rfl, ctx.after_eq command⟩

/-! ## Commands in a row -/

theorem workEach_cons {command : Command} (h : command.work.run.run ctx = some (result, ctx'))
    (hrest : (workEach commands).run ctx' = some (results, after)) :
    (workEach (command :: commands)).run ctx = some (result :: results, after) := by
  rw [workEach] at hrest ⊢
  simp only [List.mapM_cons, StateT.run_bind, h, hrest, Option.bind_eq_bind, Option.bind_some,
    StateT.run_pure, Option.pure_def]

/-- The results that are no faults, each with its command. -/
def kept (commands : List Command) (results : List (Except Fault (List Statement))) :
    List (Command × Except Fault (List Statement)) :=
  (commands.zip results).filter fun entry => entry.2.isOk

/-- The work never gets stuck, and it comes to the same without the commands that have a fault. -/
theorem workEach_run (ctx : Context) (commands : List Command) :
    ∃ results after, (workEach commands).run ctx = some (results, after) ∧
      List.Forall₂ (fun command result => ∀ fault, result = .error fault ↔ command.Refused fault)
        commands results ∧
      (workEach ((kept commands results).map Prod.fst)).run ctx =
        some ((kept commands results).map Prod.snd, after) := by
  induction commands generalizing ctx with
  | nil => exact ⟨[], ctx, rfl, .nil, rfl⟩
  | cons command commands ih =>
    obtain ⟨result, ctx', hsettles⟩ := exists_settles ctx command
    obtain ⟨results, after, hrun, hresults, hkept⟩ := ih ctx'
    refine ⟨result :: results, after, workEach_cons hsettles.run hrun,
      .cons hsettles.refused hresults, ?_⟩
    cases result with
    | error fault =>
      -- the commands behind it are worked on in the context in which it was met
      obtain rfl := (hsettles.fault fault rfl).2
      exact hkept
    | ok code => exact workEach_cons hsettles.run hkept

end Command

/-- A command is refused exactly if an index or a number of arguments is too large or a number is to
be written to. It leaves the context as it was, and any other command takes the number and opens the
function that it should, without getting stuck. Reading lets only one kind of refused command pass.
Commands in a row come to the same if those that are refused are left out. -/
theorem commands_fail_cleanly (ctx : Context) :
    (∀ command : Command, ∃ result after, command.Settles ctx result after) ∧
    (∀ line command, Command.read line = .ok command →
      ((∃ fault, command.Refused fault) ↔ ∃ index, command = .pop .constant index)) ∧
    ∀ commands, ∃ results after,
      (Command.workEach commands).run ctx = some (results, after) ∧
      List.Forall₂ (fun command result => ∀ fault, result = .error fault ↔ command.Refused fault)
        commands results ∧
      (Command.workEach ((Command.kept commands results).map Prod.fst)).run ctx =
        some ((Command.kept commands results).map Prod.snd, after) := by
  refine ⟨Command.exists_settles ctx, ?_, Command.workEach_run ctx⟩
  exact fun _ _ hread => Command.exists_refused_iff hread

/-- Two comparisons with four commands around them that have a fault, one of them two. -/
def faultyCommands : List Command :=
  [.push .temp 65535, .arithmetic .eq, .call "f" 32768, .pop .constant 40000, .arithmetic .lt,
    .pop .pointer 2]

def insideFunction : Context where
  space := "A b"
  scope := .function
  function? := some "f"
  serials := { comparisons := 7 }

theorem commands_fail_cleanly_comparisons :
    Command.read "POP constant 7" = .ok (.pop .constant 7) ∧
    (∃ fault, (Command.pop .constant 7).Refused fault) ∧
    (Command.pop .constant 40000).Refused (.unknownSegment "constant") ∧
    (Command.workEach [.arithmetic .eq, .arithmetic .lt]).run insideFunction =
      some ([.ok (Expansion.compare .eq 7), .ok (Expansion.compare .lt 8)],
        { insideFunction with serials := { comparisons := 9 } }) := by
  have hread : Command.read "POP constant 7" = .ok (.pop .constant 7) := by decide
  have hrun : (Command.workEach faultyCommands).run insideFunction =
      some ([.error (.indexOutOfRange .temp 65535), .ok (Expansion.compare .eq 7),
          .error (.malformed (.tooManyArguments 32768)), .error (.unknownSegment "constant"),
          .ok (Expansion.compare .lt 8), .error (.indexOutOfRange .pointer 2)],
        { insideFunction with serials := { comparisons := 9 } }) := by
    rfl
  obtain ⟨_, hlines, hcommands⟩ := commands_fail_cleanly insideFunction
  obtain ⟨results, after, hrun', hresults, hkept⟩ := hcommands faultyCommands
  rw [hrun] at hrun'
  cases hrun'
  refine ⟨hread, (hlines _ _ hread).mpr ⟨7, rfl⟩, ?_, hkept⟩
  rcases hresults with _ | ⟨_, _ | ⟨_, _ | ⟨_, _ | ⟨hconstant, _⟩⟩⟩⟩
  exact (hconstant _).mp rfl

end HackVM
