/-!
# Metamodel.Blank

Texts that show nothing.

The blank characters are those with the Unicode property `White_Space`. Characters without width
that lack the property, such as U+200B and U+FEFF, are not blank.
-/

namespace Metamodel

def isBlankChar (c : Char) : Bool :=
  (0x09 ≤ c.toNat && c.toNat ≤ 0x0D) || c.toNat = 0x20 || c.toNat = 0x85 || c.toNat = 0xA0
    || c.toNat = 0x1680 || (0x2000 ≤ c.toNat && c.toNat ≤ 0x200A)
    || c.toNat = 0x2028 || c.toNat = 0x2029 || c.toNat = 0x202F || c.toNat = 0x205F
    || c.toNat = 0x3000

/-- Is there nothing but blanks in a text? The empty text is blank. -/
def isBlank (s : String) : Bool := s.toList.all isBlankChar

@[simp] theorem isBlank_empty : isBlank "" = true := rfl

theorem isBlank_iff {s : String} : isBlank s = true ↔ ∀ c ∈ s.toList, isBlankChar c = true := by
  simp [isBlank]

end Metamodel
