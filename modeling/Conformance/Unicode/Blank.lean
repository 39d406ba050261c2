/-!
# White space

The codepoints with the Unicode property White_Space. The file and unit separators
U+001C to U+001F, the zero width space U+200B and the byte order mark U+FEFF are not among them.
-/

namespace Conformance

namespace Unicode

/-- Whether a character has the property White_Space. -/
def isBlank (c : Char) : Bool :=
  let n := c.toNat
  (0x09 ≤ n && n ≤ 0x0D) || n == 0x20 || n == 0x85 || n == 0xA0 || n == 0x1680 ||
    (0x2000 ≤ n && n ≤ 0x200A) || n == 0x2028 || n == 0x2029 || n == 0x202F || n == 0x205F ||
    n == 0x3000

end Unicode

end Conformance
