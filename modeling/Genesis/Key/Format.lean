import Genesis.Codec.Bech32.Basic
import Genesis.Codec.Hex
import Genesis.Error
import Genesis.Text.LowerCase

/-! How public keys of one length are written as text, and read back. -/

namespace Genesis

/-- A written form for keys of `size` bytes. -/
inductive KeyFormat where
  | bech32 (size : Nat) (hrp : String) (size_pos : 0 < size)
  | hex (size : Nat) (size_pos : 0 < size)
  deriving Repr

namespace KeyFormat

/-- Bech32 with a prefix, which is taken in lower case. -/
def bech32? (size : Nat) (hrp : String) : Except Error KeyFormat :=
  if h : 0 < size then
    if hrp.isEmpty then .error (.invalidValue "bech32 hrp")
    else .ok (.bech32 size (Text.lowerCase hrp) h)
  else .error (.invalidValue "address length")

def hex? (size : Nat) : Except Error KeyFormat :=
  if h : 0 < size then .ok (.hex size h) else .error (.invalidValue "public key length")

def size : KeyFormat → Nat
  | .bech32 size _ _ => size
  | .hex size _ => size

def checkSize (expected got : Nat) : Except Error Unit :=
  if expected = got then .ok ()
  else .error (.badAddress s!"wrong size, expected {expected} bytes, got {got}")

def encode (format : KeyFormat) (key : Bytes) : Except Error String := do
  checkSize format.size key.length
  match format with
  | .bech32 _ hrp _ =>
    match Bech32.encode .bech32 hrp.toList (Bech32.ofBytes key) with
    | .ok text => return String.ofList text
    | .error fault => throw (.badAddress fault.message)
  | .hex _ _ => return Hex.encode key

def decodeAny (format : KeyFormat) (text : String) : Except Error Bytes :=
  match format with
  | .bech32 _ hrp _ =>
    match Bech32.decode text.toList with
    | .error fault => .error (.badAddress s!"{text}: {fault.message}")
    | .ok (found, data, variant) =>
      if String.ofList found ≠ hrp then
        .error (.badAddress s!"invalid hrp {String.ofList found}, expected {hrp}")
      else if variant ≠ .bech32 then .error (.badAddress "bech32m is not supported")
      else
        match Bech32.toBytes? data with
        | none => .error (.badAddress "invalid padding")
        | some key => .ok key
  | .hex _ _ =>
    match Hex.decode text with
    | .error fault => .error (.badAddress s!"{text}: {fault.message}")
    | .ok key => .ok key

def decode (format : KeyFormat) (text : String) : Except Error Bytes := do
  let key ← format.decodeAny text
  checkSize format.size key.length
  return key

def walletSize : Nat := 32

/-- The length of validator keys: a compressed point of the second group. -/
def validatorSize : Nat := 96

def defaultPrefix : String := "erd"

def wallet : KeyFormat := .bech32 walletSize defaultPrefix (by decide)

def validator : KeyFormat := .hex validatorSize (by decide)

end KeyFormat

end Genesis
