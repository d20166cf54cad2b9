import Stencil.Host.Emission

/-!
Values from typed host values.

A `HostValue` is a value of one of the types that turn into template values directly. Integers that
do not fit sixty-four bits become the nearest float. Ordered maps keep the order of insertion,
sorted ones are in the order of their keys by code point.

A record becomes a map of its fields in their declared order. Marks on a field give it another key,
of which the last one counts, or leave it out.
-/

namespace Stencil

inductive HostValue where
  | bool (b : Bool)
  | integer (n : Int)
  | single (x : Float32)
  | double (x : Float)
  | char (c : Char)
  | str (s : String)
  | decimal (d : Decimal)
  | date (d : Date)
  | dateTime (t : DateTime)
  | unit
  | none
  | some (h : HostValue)
  | list (items : List HostValue)
  | orderedMap (entries : List (String × HostValue))
  | sortedMap (entries : List (String × HostValue))
  /-- A template value, which stays as it is. -/
  | value (v : Value)

namespace HostValue

def sortEntries (entries : Entries Value) : Entries Value :=
  entries.mergeSort fun a b => (Value.textOrder a.1.toList b.1.toList).isLE

mutual

def toValue : HostValue → Value
  | bool b => .bool b
  | integer n => Emission.ofInteger n
  | single x => .float x.toFloat
  | double x => .float x
  | char c => .str (String.singleton c)
  | str s => .str s
  | decimal d => .decimal d
  | date d => .date d
  | dateTime t => .dateTime t
  | unit | none => .null
  | some h => toValue h
  | list items => .list (itemsToValues items)
  | orderedMap entries => .map (entriesToValues [] entries)
  | sortedMap entries => .map (sortEntries (entriesToValues [] entries))
  | value v => v

def itemsToValues : List HostValue → List Value
  | [] => []
  | h :: hs => toValue h :: itemsToValues hs

def entriesToValues (done : Entries Value) : List (String × HostValue) → Entries Value
  | [] => done
  | (k, h) :: rest => entriesToValues (Entries.insert k (toValue h) done) rest

end

end HostValue

/-- A remark on a record field. -/
inductive FieldMark where
  | key (name : String)
  | skip

structure RecordField where
  name : String
  marks : List FieldMark
  value : HostValue

namespace RecordField

def key (f : RecordField) : String :=
  f.marks.foldl (fun k m => match m with | .key name => name | .skip => k) f.name

def skipped (f : RecordField) : Bool :=
  f.marks.any fun m => match m with | .skip => true | .key _ => false

end RecordField

/-- The map of the fields that are not skipped. -/
def recordValue (fields : List RecordField) : Value :=
  .map (Entries.ofList
    ((fields.filter fun f => !f.skipped).map fun f => (f.key, f.value.toValue)))

end Stencil
