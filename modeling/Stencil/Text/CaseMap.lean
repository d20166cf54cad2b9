import Stencil.Text.CaseTable

/-!
Upper and lower case of texts.

Each character maps to one or more characters (`ß` to `SS`). Lower case looks at the neighbours of
one letter only: a capital sigma becomes the final form `ς` when a cased letter stands before it and
none after it, case-ignorable characters left out of account.
-/

namespace Stencil.CaseMap

open CaseTable (Row)

def shifted? (rows : List Row) (n : Nat) : Option Nat :=
  (rows.find? fun (first, last, step, _) =>
      first ≤ n && n ≤ last && (n - first) % step == 0).map
    fun (_, _, _, shift) => (n + shift).toNat

def image (rows : List Row) (long : List (Nat × List Nat)) (c : Char) : List Char :=
  match long.lookup c.toNat with
  | some ns => ns.map Char.ofNat
  | none => [((shifted? rows c.toNat).map Char.ofNat).getD c]

def upperChar (c : Char) : List Char :=
  if c.toNat < 128 then [c.toUpper] else image CaseTable.upperRows CaseTable.upperLong c

def lowerChar (c : Char) : List Char :=
  if c.toNat < 128 then [c.toLower] else image CaseTable.lowerRows CaseTable.lowerLong c

/-- Whether the first character that is not case-ignorable is cased. -/
def nextIsCased (s : List Char) : Bool :=
  match s.dropWhile CaseTable.caseIgnorable.holds with
  | [] => false
  | c :: _ => CaseTable.cased.holds c

def upper (s : List Char) : List Char := s.flatMap upperChar

/-- The lower case, backwards and in front of `done`, of the rest of a text; `before` is what stands
before it, backwards. -/
def lowerFrom (before done : List Char) : List Char → List Char
  | [] => done.reverse
  | c :: cs =>
    let image :=
      if c == 'Σ' then [if nextIsCased before && !nextIsCased cs then 'ς' else 'σ'] else lowerChar c
    lowerFrom (c :: before) (image.reverse ++ done) cs

def lower (s : List Char) : List Char := lowerFrom [] [] s

/-- The text with its first character in upper case. -/
def capitalize : List Char → List Char
  | [] => []
  | c :: cs => upperChar c ++ cs

end Stencil.CaseMap
