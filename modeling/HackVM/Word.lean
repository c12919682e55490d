import HackVM.Text.Decimal

/-! Machine words. -/

namespace HackVM

abbrev Word := BitVec 16

namespace Word

/-- The largest word that an address instruction can carry. -/
def maxLiteral : Word := 32767

def text (w : Word) : String :=
  Decimal.text w.toNat

def read? (text : String) : Option Word :=
  (Decimal.read? 65535 text).map (BitVec.ofNat 16)

end Word

end HackVM
