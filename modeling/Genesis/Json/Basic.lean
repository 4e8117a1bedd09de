import Genesis.Amount
import Genesis.Text.Quoted

/-! JSON values and their texts: without blanks, or spread over lines. -/

namespace Genesis

inductive Json where
  | null
  | bool (value : Bool)
  | number (token : String)
  | string (text : String)
  | array (items : List Json)
  | object (members : List (String × Json))
  deriving Repr, Inhabited

namespace Json

def ofInt (n : Int) : Json := .number (Amount.render n)

def ofNat (n : Nat) : Json := .ofInt n

def escapeChar (c : Char) : List Char :=
  if c = '"' then ['\\', '"']
  else if c = '\\' then ['\\', '\\']
  else if c = '\x08' then ['\\', 'b']
  else if c = '\x0c' then ['\\', 'f']
  else if c = '\n' then ['\\', 'n']
  else if c = '\r' then ['\\', 'r']
  else if c = '\t' then ['\\', 't']
  else if c.toNat < 0x20 then
    ['\\', 'u', '0', '0', Nat.digitChar (c.toNat / 16), Nat.digitChar (c.toNat % 16)]
  else [c]

def quote (text : String) : List Char :=
  '"' :: text.toList.flatMap escapeChar ++ ['"']

def word : Bool → List Char
  | true => ['t', 'r', 'u', 'e']
  | false => ['f', 'a', 'l', 's', 'e']

mutual

def compact : Json → List Char
  | .null => ['n', 'u', 'l', 'l']
  | .bool value => word value
  | .number token => token.toList
  | .string text => quote text
  | .array [] => ['[', ']']
  | .array (v :: vs) => '[' :: compact v ++ compactItems vs
  | .object [] => ['{', '}']
  | .object ((k, v) :: ms) => '{' :: quote k ++ ':' :: compact v ++ compactMembers ms

def compactItems : List Json → List Char
  | [] => [']']
  | v :: vs => ',' :: compact v ++ compactItems vs

def compactMembers : List (String × Json) → List Char
  | [] => ['}']
  | (k, v) :: ms => ',' :: quote k ++ ':' :: compact v ++ compactMembers ms

end

/-- A new line at a depth, each step of which is two blanks wide. -/
def lineAt (depth : Nat) : List Char := '\n' :: List.replicate (2 * depth) ' '

mutual

def pretty (depth : Nat) : Json → List Char
  | .null => ['n', 'u', 'l', 'l']
  | .bool value => word value
  | .number token => token.toList
  | .string text => quote text
  | .array [] => ['[', ']']
  | .array (v :: vs) =>
    '[' :: lineAt (depth + 1) ++ pretty (depth + 1) v ++ prettyItems depth vs
  | .object [] => ['{', '}']
  | .object ((k, v) :: ms) =>
    '{' :: lineAt (depth + 1) ++ quote k ++ ':' :: ' ' :: pretty (depth + 1) v ++
      prettyMembers depth ms

def prettyItems (depth : Nat) : List Json → List Char
  | [] => lineAt depth ++ [']']
  | v :: vs => ',' :: lineAt (depth + 1) ++ pretty (depth + 1) v ++ prettyItems depth vs

def prettyMembers (depth : Nat) : List (String × Json) → List Char
  | [] => lineAt depth ++ ['}']
  | (k, v) :: ms =>
    ',' :: lineAt (depth + 1) ++ quote k ++ ':' :: ' ' :: pretty (depth + 1) v ++
      prettyMembers depth ms

end

def line (v : Json) : String := String.ofList v.compact

def lines (v : Json) : String := String.ofList (v.pretty 0)

end Json

end Genesis
