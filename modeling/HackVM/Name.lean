/-! Names of symbols: which texts an author may use, and the name under which the static cells of
a module are kept. -/

namespace HackVM

def isSymbolChar (c : Char) : Bool :=
  c.isAlphanum || ['_', '.', '$', ':'].contains c

/-- A name that a label or a function may have. The leading dollar sign is kept for generated
labels. -/
def isSymbol (name : String) : Bool :=
  match name.toList with
  | [] => false
  | c :: cs => !c.isDigit && c != '$' && (c :: cs).all isSymbolChar

/-- What the static cells of a module are called after: its name, made to fit a symbol. Different
modules can end up with one namespace. -/
def namespaceOf (moduleName : String) : String :=
  match moduleName.toList.map fun c => if isSymbolChar c then c else '_' with
  | [] => ""
  | c :: cs => String.ofList (if c.isDigit then '_' :: c :: cs else c :: cs)

end HackVM
