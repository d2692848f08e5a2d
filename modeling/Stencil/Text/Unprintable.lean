/-
Characters that a message shows by their code point.

A character is printed as it stands if a reader can see it on its own.  The others are the
controls, the format characters, the separators other than the space, private use, code
points without a character, the characters that are invisible unless a program knows them,
and the marks that attach to the character before them.  The tables follow Unicode 17.0.
-/
import Stencil.Text.Unassigned
import Stencil.Text.GraphemeExtend

namespace Stencil.Text

/-- General category Cc. -/
def controls : List (Nat × Nat) :=
  [(0x0, 0x1F), (0x7F, 0x9F)]

/-- General category Cf. -/
def formats : List (Nat × Nat) :=
  [(0xAD, 0xAD), (0x600, 0x605), (0x61C, 0x61C), (0x6DD, 0x6DD), (0x70F, 0x70F), (0x890, 0x891),
   (0x8E2, 0x8E2), (0x180E, 0x180E), (0x200B, 0x200F), (0x202A, 0x202E), (0x2060, 0x2064),
   (0x2066, 0x206F), (0xFEFF, 0xFEFF), (0xFFF9, 0xFFFB), (0x110BD, 0x110BD), (0x110CD, 0x110CD),
   (0x13430, 0x1343F), (0x1BCA0, 0x1BCA3), (0x1D173, 0x1D17A), (0xE0001, 0xE0001),
   (0xE0020, 0xE007F)]

/-- General categories Zs, Zl and Zp without the space. -/
def separators : List (Nat × Nat) :=
  [(0xA0, 0xA0), (0x1680, 0x1680), (0x2000, 0x200A), (0x2028, 0x2029), (0x202F, 0x202F),
   (0x205F, 0x205F), (0x3000, 0x3000)]

/-- General category Co. -/
def privateUse : List (Nat × Nat) :=
  [(0xE000, 0xF8FF), (0xF0000, 0xFFFFD), (0x100000, 0x10FFFD)]

/-- The property Default_Ignorable_Code_Point: nothing is shown for these characters where
they have no effect.  The fillers of Hangul are the letters among them. -/
def defaultIgnorables : List (Nat × Nat) :=
  [(0xAD, 0xAD), (0x34F, 0x34F), (0x61C, 0x61C), (0x115F, 0x1160), (0x17B4, 0x17B5),
   (0x180B, 0x180F), (0x200B, 0x200F), (0x202A, 0x202E), (0x2060, 0x206F), (0x3164, 0x3164),
   (0xFE00, 0xFE0F), (0xFEFF, 0xFEFF), (0xFFA0, 0xFFA0), (0xFFF0, 0xFFF8), (0x1BCA0, 0x1BCA3),
   (0x1D173, 0x1D17A), (0xE0000, 0xE0FFF)]

/-- The two letters that extend a grapheme, the halfwidth sound marks of Katakana. -/
def extendingLetters : List (Nat × Nat) :=
  [(0xFF9E, 0xFF9F)]

/-- Whether `n` lies in one of the closed ranges. -/
def inRanges (ranges : List (Nat × Nat)) (n : Nat) : Bool :=
  ranges.any fun r => r.1 ≤ n && n ≤ r.2

/-- Whether `n` is the code point of a mark that attaches to the character before it.  A letter
can be seen on its own, so it is none. -/
def attaches (n : Nat) : Bool :=
  inRanges graphemeExtenders n && !inRanges extendingLetters n

/-- Whether a message shows `c` by its code point.  All printable characters of ASCII stand
between the two blocks of controls. -/
def isUnprintable (c : Char) : Bool :=
  if c.toNat < 0x7F then c.toNat < 0x20
  else
    inRanges controls c.toNat || inRanges formats c.toNat || inRanges separators c.toNat ||
      inRanges privateUse c.toNat || inRanges unassigned c.toNat ||
      inRanges defaultIgnorables c.toNat || attaches c.toNat

end Stencil.Text
