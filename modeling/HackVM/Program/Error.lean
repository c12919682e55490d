import HackVM.Access
import HackVM.Command.Fault

/-! What makes a run fail. -/

namespace HackVM

inductive RunError where
  /-- A line that is no command, or a command that cannot be expanded. -/
  | line (moduleName : String) (number : Nat) (text : String) (fault : Fault)
  | notOpened (moduleName : String) (cause : AccessError)
  | notRead (moduleName : String) (cause : AccessError)
  | namespaceTaken (moduleName owner space : String)
  | notWritten (destination : String) (cause : AccessError)
  deriving DecidableEq

def RunError.message : RunError → String
  | line moduleName number text fault =>
    moduleName ++ ":" ++ Decimal.text number ++ ": " ++ fault.message ++ "\n    " ++ text
  | notOpened moduleName cause =>
    "input module `" ++ moduleName ++ "` not found: " ++ cause.message
  | notRead moduleName cause =>
    "failed reading input module `" ++ moduleName ++ "`: " ++ cause.message
  | namespaceTaken moduleName owner space =>
    "module `" ++ moduleName ++ "` maps to static namespace `" ++ space ++ "`, already used by `" ++
      owner ++ "`"
  | notWritten destination cause =>
    "failed writing output to " ++ destination ++ ": " ++ cause.message

end HackVM
