/-!
Escaping for HTML.

The five characters that mean something in text and in quoted attribute values are written as
entities. The escape of a text is put together from those of its characters, so it splits where the
text does.
-/

namespace Stencil

def escapeChar : Char → List Char
  | '&' => ['&', 'a', 'm', 'p', ';']
  | '<' => ['&', 'l', 't', ';']
  | '>' => ['&', 'g', 't', ';']
  | '"' => ['&', 'q', 'u', 'o', 't', ';']
  | '\'' => ['&', '#', '0', '3', '9', ';']
  | c => [c]

def escape (s : List Char) : List Char := s.flatMap escapeChar

theorem escape_append (s t : List Char) : escape (s ++ t) = escape s ++ escape t :=
  List.flatMap_append

end Stencil
