import HackVM.Text.Blank
import HackVM.Text.Mark
import HackVM.Text.Unassigned

/-! Characters that do not show on their own when they are written out. All tables are those of
Unicode 17. -/

namespace HackVM.Text

/-- General category Cc. -/
def controlRanges : CharRanges :=
  [(0x00, 0x1F), (0x7F, 0x9F)]

/-- General category Cf: joiners, directions, tags and other instructions to a renderer. -/
def formatRanges : CharRanges :=
  [(0x00AD, 0x00AD), (0x0600, 0x0605), (0x061C, 0x061C), (0x06DD, 0x06DD), (0x070F, 0x070F),
    (0x0890, 0x0891), (0x08E2, 0x08E2), (0x180E, 0x180E), (0x200B, 0x200F), (0x202A, 0x202E),
    (0x2060, 0x2064), (0x2066, 0x206F), (0xFEFF, 0xFEFF), (0xFFF9, 0xFFFB), (0x110BD, 0x110BD),
    (0x110CD, 0x110CD), (0x13430, 0x1343F), (0x1BCA0, 0x1BCA3), (0x1D173, 0x1D17A),
    (0xE0001, 0xE0001), (0xE0020, 0xE007F)]

/-- General category Co, whose characters every reader gives a meaning of their own. -/
def privateRanges : CharRanges :=
  [(0xE000, 0xF8FF), (0xF0000, 0xFFFFD), (0x100000, 0x10FFFD)]

/-- Letters that are drawn as nothing: general category Lo with the property
Default_Ignorable_Code_Point. -/
def fillerRanges : CharRanges :=
  [(0x115F, 0x1160), (0x3164, 0x3164), (0xFFA0, 0xFFA0)]

/-- Controls, blanks other than the space, fillers, marks that need a character before them, and
code points without a settled meaning. -/
def isHidden (c : Char) : Bool :=
  controlRanges.covers c || (isBlank c && c != ' ') || formatRanges.covers c ||
    fillerRanges.covers c || isMark c || privateRanges.covers c || isUnassigned c

end HackVM.Text
