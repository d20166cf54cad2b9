import Stencil.Calendar
import Stencil.Entries
import Stencil.Number.Decimal.Basic
import Stencil.Number.Integer

/-!
Template values.

A value is what a template reads from its context and what an expression yields. Maps keep the order
in which their keys were inserted. Null, false, zero, the texts `""` and `"0"` and empty collections
count as false; everything else counts as true.
-/

namespace Stencil

inductive Value where
  | null
  | bool (b : Bool)
  | int (n : Int64)
  | float (x : Float)
  | str (s : String)
  | decimal (d : Decimal)
  | date (d : Date)
  | dateTime (t : DateTime)
  | list (items : List Value)
  | map (entries : List (String × Value))

instance : Inhabited Value := ⟨.null⟩

namespace Value

def typeName : Value → String
  | null => "null"
  | bool _ => "bool"
  | int _ => "int"
  | float _ => "float"
  | str _ => "string"
  | decimal _ => "decimal"
  | date _ => "date"
  | dateTime _ => "datetime"
  | list _ => "list"
  | map _ => "map"

def isNull : Value → Bool
  | null => true
  | _ => false

def isBool : Value → Bool
  | bool _ => true
  | _ => false

def isNumber : Value → Bool
  | int _ | float _ | decimal _ => true
  | _ => false

def truthy : Value → Bool
  | null => false
  | bool b => b
  | int n => n != 0
  | float x => !Double.isZero x
  | decimal d => !d.isZero
  | str s => s != "" && s != "0"
  | list items => !items.isEmpty
  | map entries => !entries.isEmpty
  | date _ | dateTime _ => true

def str? : Value → Option String
  | str s => some s
  | _ => none

/-- The number of elements of a collection or of characters of a text. -/
def size? : Value → Option Nat
  | str s => some s.length
  | list items => some items.length
  | map entries => some entries.length
  | _ => none

/-- A map entry by its key, or a list element by the decimal text of its index. -/
def get? (v : Value) (key : String) : Option Value :=
  match v with
  | map entries => Entries.get? entries key
  | list items => (readIndex? key.toList).bind fun i => items[i]?
  | _ => none

def indexed (items : List Value) : List (Value × Value) :=
  items.zipIdx.map fun (v, i) => (int (Int64.ofNat i), v)

theorem map_snd_indexed (items : List Value) : (indexed items).map (·.2) = items := by
  simp [indexed, Function.comp_def]

theorem getElem?_indexed (items : List Value) (i : Nat) :
    (indexed items)[i]? = items[i]?.map fun v => (int (Int64.ofNat i), v) := by
  simp [indexed, Function.comp_def]

/-- The keys and elements of a collection in its own order; a list has its indices as keys. -/
def entries? : Value → Option (List (Value × Value))
  | list items => some (indexed items)
  | map entries => some (entries.map fun (k, v) => (str k, v))
  | _ => none

/-- The keys and elements of a value, of which a value that is no collection has none. -/
def entriesOrNone (v : Value) : List (Value × Value) := v.entries?.getD []

end Value

end Stencil
