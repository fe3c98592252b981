/-!
The characters of the Unicode property White_Space.
-/
namespace Calculator.Text

/-- Whether a character has the Unicode property White_Space. -/
def isWhiteSpace (c : Char) : Bool :=
  let code := c.toNat
  (0x09 ≤ code && code ≤ 0x0d) || code == 0x20 || code == 0x85 || code == 0xa0 ||
    code == 0x1680 || (0x2000 ≤ code && code ≤ 0x200a) || code == 0x2028 || code == 0x2029 ||
    code == 0x202f || code == 0x205f || code == 0x3000

/-- Whether a text has nothing but white space in it. -/
def isBlank (text : String) : Bool := text.toList.all isWhiteSpace

end Calculator.Text
