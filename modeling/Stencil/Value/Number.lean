import Stencil.Value.Basic
import Stencil.Text.Blank

/-!
The numeric views of a value.

`toFloat?` and `toInt64?` read a value as a float or an integer where that makes sense; a text
counts as the number it spells, white space around it left out. A float beyond sixty-four bits
becomes the nearest integer that fits.
-/

namespace Stencil.Value

def toInt64? : Value → Option Int64
  | int n => some n
  | float x => (Double.integer? x).map clamp
  | decimal d => d.integer?.bind fit?
  | str s => readInt64? (trim s.toList)
  | _ => none

def toFloat? : Value → Option Float
  | int n => some (Float.ofInt n.toInt)
  | float x => some x
  | decimal d => some d.toFloat
  | str s => FloatText.readFinite? (trim s.toList)
  | _ => none

end Stencil.Value
