/-! How a single byte is shown to a reader: as a quoted character of Latin-1. -/

namespace Genesis.Text

def hexDigits (n : Nat) : List Char := Nat.toDigits 16 n

/-- Whether a character of Latin-1 shows something: neither a control, nor a space other than the
plain one, nor the soft hyphen. -/
def isVisibleLatin (n : Nat) : Bool :=
  (0x20 ≤ n && n < 0x7F) || (0xA0 < n && n ≠ 0xAD && n ≤ 0xFF)

/-- The byte as a character between single quotes, escaped where it would not be seen. -/
def quoteByte (b : UInt8) : String :=
  let shown : List Char :=
    match b.toNat with
    | 0x00 => ['\\', '0']
    | 0x09 => ['\\', 't']
    | 0x0A => ['\\', 'n']
    | 0x0D => ['\\', 'r']
    | 0x27 => ['\\', '\'']
    | 0x5C => ['\\', '\\']
    | n => if isVisibleLatin n then [Char.ofNat n] else ['\\', 'u', '{'] ++ hexDigits n ++ ['}']
  String.ofList ('\'' :: shown ++ ['\''])

end Genesis.Text
