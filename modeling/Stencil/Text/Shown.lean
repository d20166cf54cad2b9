import Stencil.Number.Digits
import Stencil.Text.PrintTable

/-!
Text quoted for messages.

`shownText` puts a text between double quotes. Quotes, backslashes and line controls are written
with a backslash, and characters that would not show, or would join the character before them, by
their code point in hexadecimal digits.
-/

namespace Stencil

def hexDigit (d : Nat) : Char := if d < 10 then digitChar d else Char.ofNat (87 + d)

def hexDigitsFrom : Nat → Nat → List Char → List Char
  | 0, _, done => done
  | fuel + 1, n, done =>
    if n < 16 then hexDigit n :: done
    else hexDigitsFrom fuel (n / 16) (hexDigit (n % 16) :: done)

def hexDigits (n : Nat) : List Char := hexDigitsFrom (n.log2 + 1) n []

def shownChar (c : Char) : List Char :=
  match c with
  | '\x00' => ['\\', '0']
  | '\t' => ['\\', 't']
  | '\r' => ['\\', 'r']
  | '\n' => ['\\', 'n']
  | '\\' => ['\\', '\\']
  | '"' => ['\\', '"']
  | c =>
    if PrintTable.printable.holds c && !PrintTable.graphemeExtend.holds c then [c]
    else ['\\', 'u', '\x7b'] ++ hexDigits c.toNat ++ ['\x7d']

def shownText (s : List Char) : List Char := '"' :: s.flatMap shownChar ++ ['"']

end Stencil
