import Stencil.Value.Basic

/-!
The text of a value.

This is what interpolation prints and what string functions work on: null is empty, collections are
their elements with commas between them. In an attribute a list becomes words with spaces between
them, and its null and false elements are left out.
-/

namespace Stencil.Value

mutual

def text : Value → String
  | null => ""
  | bool b => if b then "true" else "false"
  | int n => String.ofList (signedDigits n.toInt)
  | float x => String.ofList (FloatText.text x)
  | str s => s
  | decimal d => String.ofList d.text
  | date d => String.ofList d.text
  | dateTime t => String.ofList t.text
  | list items => listText items
  | map entries => mapText entries

def listText : List Value → String
  | [] => ""
  | v :: vs => listTextAfter v.text vs

def listTextAfter (done : String) : List Value → String
  | [] => done
  | v :: vs => listTextAfter (done ++ ", " ++ v.text) vs

def mapText : List (String × Value) → String
  | [] => ""
  | (_, v) :: rest => mapTextAfter v.text rest

def mapTextAfter (done : String) : List (String × Value) → String
  | [] => done
  | (_, v) :: rest => mapTextAfter (done ++ ", " ++ v.text) rest

end

/-- Null and false, which an attribute leaves out. -/
def isAbsent : Value → Bool
  | null | bool false => true
  | _ => false

def attributeText : Value → String
  | list items => " ".intercalate ((items.filter fun v => !v.isAbsent).map text)
  | v => v.text

end Stencil.Value
