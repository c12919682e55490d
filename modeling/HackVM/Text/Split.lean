import HackVM.Text.Blank

/-! Cutting text into words and lines. Lines are cut over any alphabet, so that the characters of
a text and the bytes of a file follow one rule. -/

namespace HackVM.Text

/-- The maximal runs of characters that are not blank. -/
def words (text : String) : List String :=
  ((text.toList.splitOnP isBlank).filter (· ≠ [])).map String.ofList

def unwords (words : List String) : String :=
  " ".intercalate words

def dropTrailing [BEq α] (x : α) (xs : List α) : List α :=
  if xs.getLast? == some x then xs.dropLast else xs

/-- From the pieces between line feeds to lines: a piece that a line feed ended loses one carriage
return, and the last piece counts only if there is something in it. -/
def endLines [BEq α] (cr : α) : List (List α) → List (List α)
  | [] => []
  | [last] => if last.isEmpty then [] else [last]
  | piece :: pieces => dropTrailing cr piece :: endLines cr pieces

def splitLines [BEq α] (lf cr : α) (text : List α) : List (List α) :=
  endLines cr (text.splitOn lf)

def lines (text : String) : List String :=
  (splitLines '\n' '\r' text.toList).map String.ofList

/-- Every line followed by one line feed. -/
def unlines (lines : List String) : String :=
  String.join (lines.map (· ++ "\n"))

/-- Lower case of the ASCII letters, all else kept. -/
def lower (text : String) : String :=
  String.ofList (text.toList.map Char.toLower)

end HackVM.Text
