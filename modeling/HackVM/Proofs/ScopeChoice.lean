import HackVM.Proofs.Sites

/-! What the scope of labels changes in a program.

The lines of a program are rows (`Program.rows`): most of them are fixed, and a `label`, `goto` or
`if-goto` command has one that carries the name of a label together with the function around the
command. The rows do not depend on the scope (`Program.SameRows`), and the scope decides how a row
is written (`Program.Reached.lines_eq_rows`). So the programs of the two scopes differ in the rows
of labels inside functions (`scopes_differ_in_label_rows`). -/

namespace HackVM

/-! ## Rows -/

/-- A line, as far as the scope of labels leaves it open. -/
inductive Row where
  | fixed (line : String)
  /-- The line that declares a label. -/
  | declaration (function? : Option String) (name : String)
  /-- The line that loads the place of a label. -/
  | reference (function? : Option String) (name : String)
  deriving DecidableEq

namespace Row

def line (scope : LabelScope) : Row → String
  | fixed line => line
  | declaration function? name => "(" ++ scope.qualify function? name ++ ")"
  | reference function? name => "@" ++ scope.qualify function? name

/-- The row carries the name of a label inside a function. -/
def Qualified (row : Row) (f name : String) : Prop :=
  row = declaration (some f) name ∨ row = reference (some f) name

end Row

/-- The rows of a command inside a function or outside of all functions. -/
def Block.rows (function? : Option String) (block : Block) : List Row :=
  match block.command with
  | .label name => [.fixed (commentLine block.text), .declaration function? name]
  | .goto name =>
    [.fixed (commentLine block.text), .reference function? name, .fixed "0;JMP"]
  | .ifGoto name =>
    [.fixed (commentLine block.text), .fixed "@SP", .fixed "AM=M-1", .fixed "D=M",
      .reference function? name, .fixed "D;JNE"]
  | _ => block.lines.map .fixed

/-- The rows of commands one after another; a `function` command opens its function for those
behind it. -/
def rowsFrom (function? : Option String) : List Block → List Row
  | [] => []
  | block :: blocks => block.rows function? ++ rowsFrom (block.command.opens?.or function?) blocks

/-- A module begins outside of all functions. -/
def LinkedModule.rows (m : LinkedModule) : List Row :=
  rowsFrom none m.blocks

def Program.rows (p : Program) : List Row :=
  (if p.options.bootstrap then Program.bootstrapLines.map .fixed else []) ++
    p.modules.flatMap LinkedModule.rows

/-! ## How rows are written -/

/-- The scopes write a row in two ways if it carries the name of a label inside a function. -/
theorem Row.line_ne_iff (row : Row) :
    row.line .program ≠ row.line .function ↔ ∃ f name, row.Qualified f name := by
  have hlonger (f name : String) : name ≠ f ++ "$" ++ name := by
    intro heq
    have hlength := congrArg String.length heq
    have hdollar : "$".length = 1 := rfl
    simp only [String.length_append] at hlength
    omega
  cases row with
  | fixed text => simp [line, Qualified]
  | declaration function? name | reference function? name =>
    cases function? with
    | none => simp [line, LabelScope.qualify, Qualified]
    | some f =>
      refine iff_of_true (fun heq => hlonger f name ?_) ⟨f, name, by simp [Qualified]⟩
      simpa [line, LabelScope.qualify] using heq

theorem Row.map_line_fixed (scope : LabelScope) (lines : List String) :
    (lines.map Row.fixed).map (Row.line scope) = lines := by
  rw [List.map_map]
  exact List.map_id lines

/-- The lines of a command are its rows, written as the scope of its context says. -/
theorem Context.lines_eq_rows {ctx : Context} {code : List Statement} (text : String)
    (hcode : ctx.code command = .ok code) :
    (Block.mk text command code).lines =
      ((Block.mk text command code).rows ctx.function?).map (Row.line ctx.scope) := by
  have hlabel (name : String) := ctx.text_label name
  cases command with
  | label name =>
    cases hcode
    exact congrArg (fun label => [commentLine text, "(" ++ label ++ ")"]) (hlabel name)
  | goto name =>
    cases hcode
    exact congrArg (fun label => [commentLine text, "@" ++ label, "0;JMP"]) (hlabel name)
  | ifGoto name =>
    cases hcode
    exact congrArg (fun label => [commentLine text, "@SP", "AM=M-1", "D=M", "@" ++ label, "D;JNE"])
      (hlabel name)
  | _ => exact (Row.map_line_fixed ctx.scope _).symm

theorem Listed.lines_eq_rows {ctx : Context} (h : Listed ctx blocks ctx') :
    blocks.flatMap Block.lines = (rowsFrom ctx.function? blocks).map (Row.line ctx.scope) := by
  induction h with
  | nil => rfl
  | cons _ _ hcode _ ih =>
    rw [List.flatMap_cons, Context.lines_eq_rows _ hcode, ih, Context.after_scope,
      Context.after_function?, rowsFrom, List.map_append]

/-- The lines of a program are its rows, written as its scope says. -/
theorem Program.Reached.lines_eq_rows {options : Options} {p : Program} (h : Reached options p) :
    p.lines = p.rows.map (Row.line options.scope) := by
  have hmodules : p.modules.flatMap LinkedModule.lines =
      (p.modules.flatMap LinkedModule.rows).map (Row.line options.scope) := by
    rw [List.map_flatMap]
    refine List.flatMap_congr fun m hm => ?_
    obtain ⟨_, _, hlisted⟩ := h.listed hm
    exact hlisted.lines_eq_rows
  rw [lines, rows, List.map_append, hmodules]
  split
  · rw [Row.map_line_fixed]
  · rfl

/-- The rows of a command are those inside the function that the commands before it in its module
have opened last. -/
theorem rowsFrom_append (function? : Option String) (earlier later : List Block) :
    rowsFrom function? (earlier ++ later) =
      rowsFrom function? earlier ++ rowsFrom ((enclosing? earlier).or function?) later := by
  induction earlier generalizing function? with
  | nil => rfl
  | cons block earlier ih =>
    rw [List.cons_append, rowsFrom, rowsFrom, ih, List.append_assoc, enclosing?, enclosing?,
      List.filterMap_cons]
    cases block.command.opens? with
    | none => rfl
    | some name => simp [List.getLast?_cons]

theorem Site.exists_rows_eq {p : Program} (site : Site p) : ∃ before behind,
    p.rows = before ++ site.block.rows (enclosing? site.earlier) ++ behind := by
  have hmodule : site.linked.rows = rowsFrom none site.earlier ++
      (site.block.rows (enclosing? site.earlier) ++
        rowsFrom (site.command.opens?.or (enclosing? site.earlier)) site.later) := by
    rw [LinkedModule.rows, site.blocks_eq, rowsFrom_append, Option.or_none, rowsFrom]
  rw [Program.rows, site.modules_eq, List.flatMap_append, List.flatMap_cons, hmodule]
  simp only [← List.append_assoc]
  exact ⟨_, _, List.append_assoc _ _ _⟩

/-! ## Rows in the two scopes -/

/-- The same context with labels scoped in another way. -/
def Context.inScope (ctx : Context) (scope : LabelScope) : Context :=
  { ctx with scope := scope }

theorem Context.after_inScope (ctx : Context) (scope : LabelScope) (command : Command) :
    (ctx.inScope scope).after command = (ctx.after command).inScope scope := by
  cases command <;> rfl

section
variable {ctx : Context} {code : List Statement}

theorem Context.code_inScope_error (scope : LabelScope) (h : ctx.code command = .error fault) :
    (ctx.inScope scope).code command = .error fault := by
  cases command with
  | label | goto | ifGoto => cases h
  | _ => exact h

/-- A command that can be expanded has the same rows in every scope. -/
theorem Context.code_inScope_ok (scope : LabelScope) (h : ctx.code command = .ok code) :
    ∃ code', (ctx.inScope scope).code command = .ok code' ∧ ∀ text function?,
      (Block.mk text command code').rows function? =
        (Block.mk text command code).rows function? := by
  cases command with
  | label | goto | ifGoto => exact ⟨_, rfl, fun _ _ => rfl⟩
  | _ => exact ⟨code, h, fun _ _ => rfl⟩

end

/-- The lines of a module come to the same end in both scopes, with the same rows. -/
structure Listing.SameRows (function? : Option String) (l l' : Listing) : Prop where
  serials : l'.serials = l.serials
  error? : l'.error? = l.error?
  rows : rowsFrom function? l'.blocks = rowsFrom function? l.blocks

theorem listing_inScope (name : String) (ctx : Context) (scope : LabelScope) (n : Nat)
    (lines : Lines) : (listing name ctx n lines).SameRows ctx.function?
      (listing name (ctx.inScope scope) n lines) := by
  induction lines generalizing ctx n with
  | nil => exact ⟨rfl, rfl, rfl⟩
  | cons line lines ih =>
    cases line with
    | error cause => exact ⟨rfl, rfl, rfl⟩
    | ok line =>
      simp only [listing]
      cases normalLine? line with
      | none => exact ih ctx (n + 1)
      | some text =>
        dsimp only
        cases Command.read text with
        | error fault => exact ⟨rfl, rfl, rfl⟩
        | ok command =>
          dsimp only
          cases hcode : ctx.code command with
          | error fault =>
            simp only [Context.expand, hcode, Context.code_inScope_error scope hcode]
            exact ⟨rfl, rfl, rfl⟩
          | ok code =>
            obtain ⟨code', hcode', hrows⟩ := Context.code_inScope_ok scope hcode
            have hrest := ih (ctx.after command) (n + 1)
            rw [Context.after_function?] at hrest
            simp only [Context.expand, hcode, hcode', Except.map, Context.after_inScope]
            exact ⟨hrest.serials, hrest.error?, by rw [rowsFrom, rowsFrom, hrows, hrest.rows]⟩

/-! ## Programs in the two scopes -/

namespace Program

/-- Two programs with modules of the same names and rows. -/
structure SameRows (p q : Program) : Prop where
  bootstrap : q.options.bootstrap = p.options.bootstrap
  serials : q.serials = p.serials
  names : q.modules.map LinkedModule.name = p.modules.map LinkedModule.name
  rows : q.modules.map LinkedModule.rows = p.modules.map LinkedModule.rows

theorem owner?_eq_find? (p : Program) (space : String) :
    p.owner? space = (p.modules.map LinkedModule.name).find? (namespaceOf · == space) := by
  rw [owner?, List.find?_map]
  rfl

namespace SameRows
variable {p q : Program} (h : p.SameRows q)
include h

theorem rows_eq : q.rows = p.rows := by
  rw [Program.rows, Program.rows, h.bootstrap, List.flatMap_def, List.flatMap_def, h.rows]

theorem owner? (space : String) : q.owner? space = p.owner? space := by
  rw [owner?_eq_find?, owner?_eq_find?, h.names]

theorem addLines (name : String) (lines : Lines) :
    (∃ error, (p.addLines name lines).2.value = .error error ∧
      (q.addLines name lines).2.value = .error error) ∨
    ∃ count count', (p.addLines name lines).2.value = .ok count ∧
      (q.addLines name lines).2.value = .ok count' ∧
      (p.addLines name lines).1.SameRows (q.addLines name lines).1 := by
  have hcontext : q.context (namespaceOf name) =
      (p.context (namespaceOf name)).inScope q.options.scope := by
    rw [context, context, h.serials]
    rfl
  have hlisting := listing_inScope name (p.context (namespaceOf name)) q.options.scope 1 lines
  rw [← hcontext] at hlisting
  simp only [Program.addLines, hlisting.error?]
  cases (listing name (p.context (namespaceOf name)) 1 lines).error? with
  | some error => exact .inl ⟨error, rfl, rfl⟩
  | none =>
    refine .inr ⟨_, _, rfl, rfl, h.bootstrap, hlisting.serials, ?_, ?_⟩
    · simp [h.names]
    · rw [List.map_append, List.map_append, h.rows]
      exact congrArg (fun rows => _ ++ [rows]) hlisting.rows

/-- An attempt to add a module fails in the same way, or leads to the same rows again. -/
theorem add (source : Source) (name : String) :
    (∃ error, (p.add source name).2.value = .error error ∧
      (q.add source name).2.value = .error error) ∨
    ∃ count count', (p.add source name).2.value = .ok count ∧
      (q.add source name).2.value = .ok count' ∧
      (p.add source name).1.SameRows (q.add source name).1 := by
  unfold Program.add
  cases source name with
  | error cause => exact .inl ⟨_, rfl, rfl⟩
  | ok lines =>
    dsimp only
    rw [h.owner?]
    cases p.owner? (namespaceOf name) with
    | none => exact h.addLines name lines
    | some owner =>
      dsimp only
      by_cases howner : owner = name
      · rw [if_pos howner, if_pos howner]
        exact h.addLines name lines
      · rw [if_neg howner, if_neg howner]
        exact .inl ⟨_, rfl, rfl⟩

end SameRows

theorem SameRows.addAll {p q : Program} (h : p.SameRows q) (source : Source)
    (names : List String) :
    (∃ error, (p.addAll source names).value = .error error ∧
      (q.addAll source names).value = .error error) ∨
    ∃ p' q', (p.addAll source names).value = .ok p' ∧ (q.addAll source names).value = .ok q' ∧
      p'.SameRows q' := by
  induction names generalizing p q with
  | nil => exact .inr ⟨p, q, rfl, rfl, h⟩
  | cons name names ih =>
    rcases h.add source name with ⟨error, hp, hq⟩ | ⟨count, count', hp, hq, hsame⟩
    · simp only [Program.addAll, hp, hq]
      exact .inl ⟨error, rfl, rfl⟩
    · simp only [Program.addAll, hp, hq]
      exact ih hsame

theorem sameRows_empty (bootstrap : Bool) (scope scope' : LabelScope) :
    (empty ⟨bootstrap, scope⟩).SameRows (empty ⟨bootstrap, scope'⟩) :=
  ⟨rfl, rfl, rfl, rfl⟩

end Program

theorem link_error {source : Source} {options : Options} {names : List String}
    (h : ((Program.empty options).addAll source names).value = .error error) :
    (link source options names).value = .error error := by
  simp only [link, h]

/-- Whatever the scope of labels, modules fail to be linked with the same error, or come to the same
rows. Inside a function the row of a label has the name alone where the scope is the whole program,
and the name behind that of the function where the scope is the function; the lines of all other
rows are the same. The function is the one that the commands before in the same module have opened
last. -/
theorem scopes_differ_in_label_rows (source : Source) (bootstrap : Bool) (names : List String) :
    (∃ error, (link source ⟨bootstrap, .program⟩ names).value = .error error ∧
      (link source ⟨bootstrap, .function⟩ names).value = .error error) ∨
    ∃ (p : Program) (lines lines' : List String),
      ((Program.empty ⟨bootstrap, .program⟩).addAll source names).value = .ok p ∧
      (link source ⟨bootstrap, .program⟩ names).value = .ok lines ∧
      (link source ⟨bootstrap, .function⟩ names).value = .ok lines' ∧
      lines = p.rows.map (Row.line .program) ∧ lines' = p.rows.map (Row.line .function) ∧
      lines.length = lines'.length ∧
      (∀ i : Nat, lines[i]? ≠ lines'[i]? ↔ ∃ (row : Row) (f name : String),
        p.rows[i]? = some row ∧ row.Qualified f name) ∧
      ∀ site : Site p, ∃ before behind,
        p.rows = before ++ site.block.rows (enclosing? site.earlier) ++ behind := by
  rcases (Program.sameRows_empty bootstrap .program .function).addAll source names with
    ⟨error, hp, hq⟩ | ⟨p, q, hp, hq, hsame⟩
  · exact .inl ⟨error, link_error hp, link_error hq⟩
  · have hlines := ((.empty : Program.Reached ⟨bootstrap, .program⟩ _).addAll hp).lines_eq_rows
    have hlines' := ((.empty : Program.Reached ⟨bootstrap, .function⟩ _).addAll hq).lines_eq_rows
    rw [hsame.rows_eq] at hlines'
    refine .inr ⟨p, p.lines, q.lines, hp, link_value hp, link_value hq, hlines, hlines', ?_, ?_,
      Site.exists_rows_eq⟩
    · rw [hlines, hlines', List.length_map, List.length_map]
    · intro i
      rw [hlines, hlines', List.getElem?_map, List.getElem?_map]
      cases p.rows[i]? with
      | none => simp
      | some row => simpa using row.line_ne_iff

/-- The function of the first module is not around the label of the second. -/
example : (link (.ofMemory [("A", "function f 0\nlabel X"), ("B", "label X\ngoto X")])
    ⟨false, .function⟩ ["A", "B"]).value =
      .ok ["// function f 0", "(f)", "// label X", "(f$X)", "// label X", "(X)", "// goto X", "@X",
        "0;JMP"] := by
  decide +kernel

end HackVM
