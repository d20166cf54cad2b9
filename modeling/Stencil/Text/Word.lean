/-!
Names and words of ASCII letters.

A name starts with an ASCII letter or an underscore and goes on with letters, digits and
underscores. `splitName` takes the longest name off the front of a text; `dropWord?` takes a keyword
off, in any ASCII case, where no word character follows it.
-/

namespace Stencil

def isNameStart (c : Char) : Bool := c.isAlpha || c == '_'

def isNameChar (c : Char) : Bool := c.isAlphanum || c == '_'

/-- The longest name at the front of the text (empty if there is none) and the text after it. -/
def splitName : List Char → List Char × List Char
  | [] => ([], [])
  | c :: cs =>
    if isNameStart c then (c :: cs.takeWhile isNameChar, cs.dropWhile isNameChar)
    else ([], c :: cs)

/-- Whether the whole text is one name. -/
def isName : List Char → Bool
  | [] => false
  | c :: cs => isNameStart c && cs.all isNameChar

/-- ASCII letters in lower case; every other character as it is. -/
def lowerAscii (s : List Char) : List Char := s.map Char.toLower

def sameWord (s t : List Char) : Bool := lowerAscii s == lowerAscii t

/-- The text after `word`, in any ASCII case, where the word ends. -/
def dropWord? (word s : List Char) : Option (List Char) :=
  let rest := s.drop word.length
  if !sameWord (s.take word.length) word then none
  else if rest.head?.any isNameChar then none
  else some rest

theorem suffix_of_dropWord? {word s rest : List Char} (h : dropWord? word s = some rest) :
    rest <:+ s := by
  unfold dropWord? at h
  dsimp only at h
  split at h
  · cases h
  · split at h
    · cases h
    · cases h
      exact List.drop_suffix _ _

theorem splitName_append (s : List Char) : (splitName s).1 ++ (splitName s).2 = s := by
  cases s with
  | nil => rfl
  | cons c cs =>
    simp only [splitName]
    split
    · simp [List.takeWhile_append_dropWhile]
    · rfl

end Stencil
