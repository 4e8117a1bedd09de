/-!
Bytes shown as text. Bytes that are no UTF-8 are shown as well: each longest run of them that
begins a character, or else each single one, becomes a replacement character.
-/

namespace Genesis.Text

/-- A character of which some bytes have been read, and what the next byte must lie between. -/
structure Begun where
  value : Nat
  owed : Nat
  least : Nat := 0x80
  greatest : Nat := 0xBF

/-- The character of several bytes that a byte begins. No character has two forms, none is a
surrogate, and none lies beyond the last code point. -/
def Begun.ofByte? (b : Nat) : Option Begun :=
  if b < 0xC2 || 0xF4 < b then none
  else if b < 0xE0 then some { value := b - 0xC0, owed := 1 }
  else if b = 0xE0 then some { value := 0, owed := 2, least := 0xA0 }
  else if b = 0xED then some { value := 0xD, owed := 2, greatest := 0x9F }
  else if b < 0xF0 then some { value := b - 0xE0, owed := 2 }
  else if b = 0xF0 then some { value := 0, owed := 3, least := 0x90 }
  else if b = 0xF4 then some { value := 4, owed := 3, greatest := 0x8F }
  else some { value := b - 0xF0, owed := 3 }

def replacement : Char := '\uFFFD'

/-- What a byte shows that continues no character. -/
def showFirst (b : Nat) : List Char × Option Begun :=
  if b < 0x80 then ([Char.ofNat b], none)
  else
    match Begun.ofByte? b with
    | some begun => ([], some begun)
    | none => ([replacement], none)

/-- What a byte shows behind the bytes before it, and the character that is begun then. -/
def showNext (b : Nat) : Option Begun → List Char × Option Begun
  | none => showFirst b
  | some c =>
    if c.least ≤ b && b ≤ c.greatest then
      let value := c.value * 64 + (b - 0x80)
      if c.owed ≤ 1 then ([Char.ofNat value], none)
      else ([], some { value, owed := c.owed - 1 })
    else
      let (shown, next) := showFirst b
      (replacement :: shown, next)

def showBytes (begun : Option Begun) : List UInt8 → List Char
  | [] => if begun.isSome then [replacement] else []
  | b :: bs =>
    let (shown, next) := showNext b.toNat begun
    shown ++ showBytes next bs

def ofBytes (bytes : ByteArray) : String :=
  match String.fromUTF8? bytes with
  | some text => text
  | none => String.ofList (showBytes none bytes.data.toList)

theorem ofBytes_toUTF8 (text : String) : ofBytes text.toUTF8 = text := by
  have h : text.toByteArray.IsValidUTF8 := text.isValidUTF8
  simp [ofBytes, String.fromUTF8?, String.fromUTF8, h]

end Genesis.Text
