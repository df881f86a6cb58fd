/-!
Blank characters: the white space of the Unicode standard together with the four ASCII information
separators.
-/

namespace StoryScript.Blank

/-- Blank characters beyond ASCII. -/
def wideBlanks : List Nat :=
  [0x85, 0xA0, 0x1680, 0x2000, 0x2001, 0x2002, 0x2003, 0x2004, 0x2005, 0x2006, 0x2007, 0x2008,
  0x2009, 0x200A, 0x2028, 0x2029, 0x202F, 0x205F, 0x3000]

def isBlank (c : Char) : Bool :=
  if c.toNat < 0x80 then
    c.toNat == 0x20 || (0x09 ≤ c.toNat && c.toNat ≤ 0x0D) || (0x1C ≤ c.toNat && c.toNat ≤ 0x1F)
  else wideBlanks.contains c.toNat

end StoryScript.Blank
