import TypedApi.Text.CaseData

/-!
Upper and lower case for all of Unicode. A character may map to several, and the lowercase of a
whole text turns a capital sigma at the end of a word into its final form.
-/
namespace TypedApi.Text

def shifted (runs : List CaseRun) (c : Char) : Char :=
  match runs.find? (·.covers c.toNat) with
  | some r => Char.ofNat (c.toNat + r.shift).toNat
  | none => c

def mapped (expansions : List (Nat × List Nat)) (runs : List CaseRun) (c : Char) :
    List Char :=
  match expansions.lookup c.toNat with
  | some cs => cs.map Char.ofNat
  | none => [shifted runs c]

def lowerChar (c : Char) : List Char :=
  if c.toNat < 0x80 then [c.toLower] else mapped lowerExpansions lowerRuns c

def upperChar (c : Char) : List Char :=
  if c.toNat < 0x80 then [c.toUpper] else mapped upperExpansions upperRuns c

def within (ranges : List (Nat × Nat)) (c : Char) : Bool :=
  ranges.any fun r => r.1 ≤ c.toNat && c.toNat ≤ r.2

def isCased (c : Char) : Bool := within casedRanges c

def isCaseIgnorable (c : Char) : Bool := within caseIgnorableRanges c

/-- The first character that counts for case is a cased one. -/
def leadsWithCased : List Char → Bool
  | [] => false
  | c :: rest => if isCaseIgnorable c then leadsWithCased rest else isCased c

/-- Lowercase of a text; `inWord` tells whether a cased character stands before it. -/
def lowerFrom (inWord : Bool) : List Char → List Char
  | [] => []
  | c :: rest =>
    let next := lowerFrom (if isCaseIgnorable c then inWord else isCased c) rest
    if c = 'Σ' then (if inWord && !leadsWithCased rest then 'ς' else 'σ') :: next
    else lowerChar c ++ next

def lower (s : List Char) : List Char := lowerFrom false s

def capitalizeFirst : List Char → List Char
  | [] => []
  | c :: rest => upperChar c ++ rest

def lowercaseFirst : List Char → List Char
  | [] => []
  | c :: rest => lowerChar c ++ rest

end TypedApi.Text
