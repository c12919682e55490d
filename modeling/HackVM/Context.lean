import HackVM.Expansion

/-! The expansion of commands one after another inside a module. -/

namespace HackVM

/-- Where the name of a label has to be unique. -/
inductive LabelScope where
  | program
  | function
  deriving DecidableEq

/-- What the expansion of a command depends on besides the command. -/
structure Context where
  /-- The namespace of the module's static cells. -/
  space : String
  scope : LabelScope
  /-- The function that the latest `function` command opened. -/
  function? : Option String := none
  serials : Serials := {}
  deriving DecidableEq

namespace Context

def label (ctx : Context) (name : String) : Symbol :=
  match ctx.scope, ctx.function? with
  | .function, some function => .within function name
  | _, _ => .name name

def code (ctx : Context) : Command → Except Fault (List Statement)
  | .arithmetic op => .ok (Expansion.arithmetic op ctx.serials.comparisons)
  | .push segment index => Expansion.push ctx.space segment index
  | .pop segment index => Expansion.pop ctx.space segment index
  | .label name => .ok (Expansion.label (ctx.label name))
  | .goto name => .ok (Expansion.goto (ctx.label name))
  | .ifGoto name => .ok (Expansion.ifGoto (ctx.label name))
  | .function name locals => .ok (Expansion.function name locals)
  | .call name arguments => do
    checkArguments arguments
    return Expansion.call name arguments ctx.serials.calls
  | .ret => .ok Expansion.ret

/-- The context behind a command that was expanded. -/
def after (ctx : Context) : Command → Context
  | .arithmetic op => { ctx with serials := ctx.serials.afterOperation op }
  | .function name _ => { ctx with function? := some name }
  | .call _ _ => { ctx with serials := ctx.serials.takeCall.2 }
  | _ => ctx

/-- A command that cannot be expanded leaves the context to its holder unchanged. -/
def expand (ctx : Context) (command : Command) : Except Fault (List Statement × Context) :=
  (ctx.code command).map fun code => (code, ctx.after command)

end Context

end HackVM
