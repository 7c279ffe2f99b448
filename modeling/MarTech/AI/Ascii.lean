import MarTech.AI.GroundingGuard

namespace MarTech.Ascii

def spaces : List Char :=
  [' ', '\t', '\n', '\x0b', '\x0c', '\r', '\x1c', '\x1d', '\x1e', '\x1f']

-- The Unicode database for texts in ASCII.
scoped instance : Unicode where
  isDigit        := Char.isDigit
  isSpace c      := c ∈ spaces
  isWord c       := c.isAlphanum || c = '_'
  digit c        := c.toNat - '0'.toNat
  ignoreCase l c := c ∈ [l, l.toUpper]
  punctuation    := List.all_eq_true.mp (by decide)
  isSpace_not_digit c h := by
    have hall : ∀ c ∈ spaces, !c.isDigit := List.all_eq_true.mp (by decide)
    simpa using hall c (by simpa using h)
  isSpace_not_word c h := by
    have hall : ∀ c ∈ spaces, !(c.isAlphanum || c = '_') := List.all_eq_true.mp (by decide)
    simpa using hall c (by simpa using h)
  ignoreCase_isWord l hl c h := by
    have hall : ∀ l ∈ ['d', 'w', 'h', 'm', 'y', 's'],
        [l, l.toUpper].all fun c => c.isAlphanum || c = '_' := List.all_eq_true.mp (by decide)
    exact List.all_eq_true.mp (hall l hl) c (by simpa using h)

scoped instance : FloatRepr ℚ where
  repr x := if x.den = 1 then toString x.num ++ ".0" else toString x

end MarTech.Ascii
