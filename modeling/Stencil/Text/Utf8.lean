/-!
Reading UTF-8.

`Utf8.decode` goes through the bytes once. It yields a character for each well-formed sequence and
`none` for each maximal part that starts no such sequence. A text is well formed when there is no
such part; the lossy reading puts U+FFFD in the place of each.
-/

namespace Stencil.Utf8

/-- Between characters, or inside one: how many bytes are missing, the range of the next one, and
the bits so far. -/
inductive State where
  | start
  | inside (missing : Nat) (least most : Nat) (code : Nat)

/-- The state after a first byte, or the character that it is, or nothing if it cannot be first. -/
def lead (b : Nat) : Option (Char ⊕ State) :=
  if b < 0x80 then some (.inl (Char.ofNat b))
  else if b < 0xC2 then none
  else if b < 0xE0 then some (.inr (.inside 1 0x80 0xBF (b % 32)))
  else if b == 0xE0 then some (.inr (.inside 2 0xA0 0xBF (b % 16)))
  else if b == 0xED then some (.inr (.inside 2 0x80 0x9F (b % 16)))
  else if b < 0xF0 then some (.inr (.inside 2 0x80 0xBF (b % 16)))
  else if b == 0xF0 then some (.inr (.inside 3 0x90 0xBF (b % 8)))
  else if b < 0xF4 then some (.inr (.inside 3 0x80 0xBF (b % 8)))
  else if b == 0xF4 then some (.inr (.inside 3 0x80 0x8F (b % 8)))
  else none

def first (b : Nat) : List (Option Char) × State :=
  match lead b with
  | some (.inl c) => ([some c], .start)
  | some (.inr s) => ([], s)
  | none => ([none], .start)

/-- What one more byte completes, and the state after it. A byte that cannot go on with the
character under way ends it as malformed and counts as a first byte. -/
def step (s : State) (b : Nat) : List (Option Char) × State :=
  match s with
  | .start => first b
  | .inside missing least most code =>
    if least ≤ b && b ≤ most then
      let code := code * 64 + b % 64
      if missing ≤ 1 then ([some (Char.ofNat code)], .start)
      else ([], .inside (missing - 1) 0x80 0xBF code)
    else
      let (out, s) := first b
      (none :: out, s)

def decodeFrom : State → List UInt8 → List (Option Char)
  | .start, [] => []
  | .inside .., [] => [none]
  | s, b :: bs =>
    let (out, s) := step s b.toNat
    out ++ decodeFrom s bs

def decode (bytes : List UInt8) : List (Option Char) := decodeFrom .start bytes

/-- The text that the bytes spell, if they are well formed. -/
def read? (bytes : List UInt8) : Option (List Char) := (decode bytes).mapM id

/-- The text with U+FFFD in the place of each malformed part. -/
def readLossy (bytes : List UInt8) : List Char := (decode bytes).map fun c? => c?.getD '\uFFFD'

end Stencil.Utf8
