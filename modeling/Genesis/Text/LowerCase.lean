import Genesis.Text.CaseTable

/-! The lower-case form of a text by the rules of Unicode. -/

namespace Genesis.Text

def inRuns (runs : List (Nat × Nat)) (c : Char) : Bool :=
  runs.any fun (first, last) => first ≤ c.toNat && c.toNat ≤ last

/-- A single character in lower case; only a capital I with a dot becomes two characters. -/
def lowerChar (c : Char) : List Char :=
  if c = 'İ' then ['i', '\u0307']
  else
    match lowerRuns.find? fun run =>
      run.first ≤ c.toNat && c.toNat ≤ run.last && (c.toNat - run.first) % run.step = 0 with
    | some run => [Char.ofNat (c.toNat + run.offset).toNat]
    | none => [c]

/-- Whether the first character that is not passed over is a letter with a case. -/
def meetsCased (text : List Char) : Bool :=
  match text.dropWhile (inRuns caseIgnorableRuns) with
  | [] => false
  | c :: _ => inRuns casedRuns c

/-- Lowers `text`, the characters before it standing in `before`, nearest first. A capital sigma
that ends a word takes its final form. -/
def lowerAfter (before : List Char) : List Char → List Char
  | [] => []
  | c :: cs =>
    let low :=
      if c = 'Σ' then if meetsCased before && !meetsCased cs then ['ς'] else ['σ']
      else lowerChar c
    low ++ lowerAfter (c :: before) cs

def lowerCase (text : String) : String :=
  String.ofList (lowerAfter [] text.toList)

def lowerAscii (text : String) : String :=
  String.ofList (text.toList.map Char.toLower)

end Genesis.Text
