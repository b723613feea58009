/-! # White space

`isBlank` is the Unicode property `White_Space`; `trim` takes it off both ends of a text.
-/

namespace KeyedIR.Text

set_option autoImplicit false

/-- The Unicode property `White_Space`: 25 characters, among them line and page ends, the fixed
spaces of typography and the ideographic space. -/
def isBlank (c : Char) : Bool :=
  let n := c.toNat
  (0x09 ≤ n && n ≤ 0x0D) || n == 0x20 || n == 0x85 || n == 0xA0 || n == 0x1680 ||
    (0x2000 ≤ n && n ≤ 0x200A) || n == 0x2028 || n == 0x2029 || n == 0x202F || n == 0x205F ||
    n == 0x3000

def trimStart (text : List Char) : List Char := text.dropWhile isBlank

def trimEnd (text : List Char) : List Char := (text.reverse.dropWhile isBlank).reverse

def trim (text : List Char) : List Char := trimEnd (trimStart text)

end KeyedIR.Text
