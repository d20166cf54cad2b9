import Stencil.Number.Integer
import Stencil.Number.Shortest
import Stencil.Text.Word

/-!
Floats as text.

`text` writes the shortest digits that read back, always in positional notation and without a point
for a whole number. `shown`, for messages, marks whole numbers by `.0` and goes over to an exponent
below `10 ^ -4` and from `10 ^ 16` on. `read?` takes an optional sign, digits with an optional point
on either side, an optional exponent, or `inf`, `infinity` and `nan` in any case; the float is the
nearest one.
-/

namespace Stencil.FloatText

/-- The positional form of `digits · 10 ^ p`. -/
def positional (ds : List Char) (p : Int) : List Char :=
  let places := (-p).toNat
  if 0 ≤ p then ds ++ List.replicate p.toNat '0'
  else if places < ds.length then
    ds.take (ds.length - places) ++ '.' :: ds.drop (ds.length - places)
  else '0' :: '.' :: padded places ds

def exponential (ds : List Char) (p : Int) : List Char :=
  let fraction := match ds.drop 1 with
    | [] => []
    | rest => '.' :: rest
  ds.take 1 ++ fraction ++ 'e' :: signedDigits (ds.length + p - 1)

/-- Writes a float, given the form of a positive number with these digits and this exponent. -/
def write (zero : List Char) (positive : List Char → Int → List Char) (x : Float) : List Char :=
  let signed := fun (negative : Bool) (s : List Char) => if negative then '-' :: s else s
  match Double.ofFloat x with
  | .nan => ['N', 'a', 'N']
  | .infinite negative => signed negative ['i', 'n', 'f']
  | .finite negative m q =>
    if m == 0 then signed negative zero
    else
      let (d, p) := Shortest.shortest m q
      signed negative (positive (digits d) p)

def text (x : Float) : List Char := write ['0'] positional x

def shown (x : Float) : List Char :=
  write ['0', '.', '0'] (fun ds p =>
    let leading := ds.length + p - 1
    if leading < -4 || 16 ≤ leading then exponential ds p
    else if 0 ≤ p then positional ds p ++ ['.', '0']
    else positional ds p) x

/-- The nearest double to `m · 10 ^ e`. Numbers far out of range are settled by their number of
digits alone. -/
def nearest (m : Nat) (e : Int) : Float :=
  let leading := (digits m).length + e
  if m == 0 || leading < -400 then 0.0
  else if 400 < leading then 1.0 / 0.0
  else Float.ofScientific m (e < 0) e.natAbs

/-- An exponent after its letter. No text at all is the exponent 0. -/
def readExponent? : List Char → Option Int
  | [] => some 0
  | c :: s =>
    if c == 'e' || c == 'E' then readInt? s else none

/-- The pair `(m, e)` of an unsigned decimal text that stands for `m · 10 ^ e`. -/
def readDecimal? (s : List Char) : Option (Nat × Int) :=
  let whole := s.takeWhile Char.isDigit
  let (fraction, rest) := match s.dropWhile Char.isDigit with
    | '.' :: rest => (rest.takeWhile Char.isDigit, rest.dropWhile Char.isDigit)
    | rest => ([], rest)
  if whole.isEmpty && fraction.isEmpty then none
  else (readExponent? rest).map fun e => (valueOf (whole ++ fraction), e - fraction.length)

def readUnsigned? (s : List Char) : Option Float :=
  if sameWord s ['i', 'n', 'f'] || sameWord s ['i', 'n', 'f', 'i', 'n', 'i', 't', 'y'] then
    some (1.0 / 0.0)
  else if sameWord s ['n', 'a', 'n'] then some (0.0 / 0.0)
  else (readDecimal? s).map fun (m, e) => nearest m e

def read? : List Char → Option Float
  | '-' :: s => (readUnsigned? s).map Float.neg
  | '+' :: s => readUnsigned? s
  | s => readUnsigned? s

/-- Reads a finite float. -/
def readFinite? (s : List Char) : Option Float := (read? s).filter Double.isFinite

end Stencil.FloatText
