import Stencil.Context
import Stencil.Text.Utf8
import Stencil.Value.Text

/-!
Values from data that describes itself.

An `Emission` is what a host value says about itself: plain data, optional data, variants,
sequences, maps and records. `toValue` collects it. Options and wrappers add nothing, a variant
without contents is its name, sequences of every kind are lists, records are maps in the order of
their fields. Map keys must be scalars and count by their text; the last value of a key wins and
keeps its first place. A map may also give its keys and values one at a time: a value then belongs
to the key that is waiting for one, and a key without a value is lost.
-/

namespace Stencil

/-- What a map gives at a time. -/
inductive MapPart (α : Type) where
  | key (k : α)
  | value (v : α)

inductive Emission where
  | bool (b : Bool)
  | signed (n : Int64)
  | unsigned (n : UInt64)
  /-- An integer of 128 bits, signed or not. -/
  | wide (signed : Bool)
  | single (x : Float32)
  | double (x : Float)
  | char (c : Char)
  | str (s : String)
  | bytes (bs : List UInt8)
  | none
  | some (e : Emission)
  | unit
  | emptyRecord
  | emptyVariant (name : String)
  | wrapper (e : Emission)
  | wrapperVariant (name : String) (e : Emission)
  | sequence (items : List Emission)
  | tuple (items : List Emission)
  | namedTuple (items : List Emission)
  | tupleVariant (name : String) (items : List Emission)
  | map (entries : List (Emission × Emission))
  /-- A map that gives its keys and values one at a time, in any order. -/
  | mapParts (parts : List (MapPart Emission))
  | record (fields : List (String × Emission))
  | recordVariant (name : String) (fields : List (String × Emission))
  /-- A host value that reports an error of its own. -/
  | fail (message : String)

inductive EmissionError where
  | unsupported (signed : Bool)
  | custom (message : String)
  | keyNotScalar
  | missingKey

def EmissionError.message : EmissionError → String
  | unsupported true => "Serialization Error: i128 is not supported"
  | unsupported false => "Serialization Error: u128 is not supported"
  | custom m => "Serialization Error: " ++ m
  | keyNotScalar => "Serialization Error: Map key must be a scalar"
  | missingKey => "Serialization Error: Missing key for value"

namespace Emission

/-- A map that gives a value without a key. -/
def loneValue (e : Emission) : Emission := .mapParts [.value e]

def ofDecimal (d : Decimal) : Emission := .str (String.ofList d.text)

def ofDate (d : Date) : Emission := .str (String.ofList d.text)

def ofDateTime (t : DateTime) : Emission := .str (String.ofList t.dataText)

/-- An integer, or the nearest float if it does not fit. -/
def ofInteger (n : Int) : Value :=
  match fit? n with
  | .some k => .int k
  | .none => .float (Float.ofInt n)

/-- The text of a value as a map key. -/
def keyText? : Value → Option String
  | .null | .list _ | .map _ => .none
  | v => .some v.text

mutual

def toValue : Emission → Except EmissionError Value
  | bool b => .ok (.bool b)
  | signed n => .ok (.int n)
  | unsigned n => .ok (ofInteger n.toNat)
  | wide s => .error (.unsupported s)
  | single x => .ok (.float x.toFloat)
  | double x => .ok (.float x)
  | char c => .ok (.str (String.singleton c))
  | str s => .ok (.str s)
  | bytes bs => .ok (.str (String.ofList (Utf8.readLossy bs)))
  | none | unit | emptyRecord => .ok .null
  | some e | wrapper e | wrapperVariant _ e => toValue e
  | emptyVariant name => .ok (.str name)
  | sequence items | tuple items | namedTuple items | tupleVariant _ items =>
    match itemsToValues items with
    | .ok vs => .ok (.list vs)
    | .error e => .error e
  | map entries =>
    match entriesToValues [] entries with
    | .ok es => .ok (.map es)
    | .error e => .error e
  | mapParts parts =>
    match partsToValues .none [] parts with
    | .ok es => .ok (.map es)
    | .error e => .error e
  | record fields | recordVariant _ fields =>
    match fieldsToValues [] fields with
    | .ok es => .ok (.map es)
    | .error e => .error e
  | fail message => .error (.custom message)

def itemsToValues : List Emission → Except EmissionError (List Value)
  | [] => .ok []
  | e :: es =>
    match toValue e with
    | .error e => .error e
    | .ok v =>
      match itemsToValues es with
      | .error e => .error e
      | .ok vs => .ok (v :: vs)

/-- Adds the entries of a map to those before them, each key before its value. -/
def entriesToValues (done : Entries Value) :
    List (Emission × Emission) → Except EmissionError (Entries Value)
  | [] => .ok done
  | (k, e) :: rest =>
    match toValue k with
    | .error e => .error e
    | .ok k =>
      match keyText? k with
      | .none => .error .keyNotScalar
      | .some name =>
        match toValue e with
        | .error e => .error e
        | .ok v => entriesToValues (Entries.insert name v done) rest

/-- Adds the values of a map under their keys; `pending` is the key that waits for its value. -/
def partsToValues (pending : Option String) (done : Entries Value) :
    List (MapPart Emission) → Except EmissionError (Entries Value)
  | [] => .ok done
  | .key k :: rest =>
    match toValue k with
    | .error e => .error e
    | .ok k =>
      match keyText? k with
      | .none => .error .keyNotScalar
      | .some name => partsToValues (.some name) done rest
  | .value e :: rest =>
    match toValue e with
    | .error e => .error e
    | .ok v =>
      match pending with
      | .none => .error .missingKey
      | .some name => partsToValues .none (Entries.insert name v done) rest

def fieldsToValues (done : Entries Value) :
    List (String × Emission) → Except EmissionError (Entries Value)
  | [] => .ok done
  | (name, e) :: rest =>
    match toValue e with
    | .error e => .error e
    | .ok v => fieldsToValues (Entries.insert name v done) rest

end

end Emission

/-- Why data cannot be a context. -/
inductive ContextError where
  | emission (e : EmissionError)
  /-- The data is of some other kind than a record or map. -/
  | notAMap (kind : String)

def ContextError.message : ContextError → String
  | emission e => e.message
  | notAMap kind =>
    "Invalid Context: expected a struct or map at the top level, got " ++ kind

/-- The context whose names are the fields of a record or the keys of a map. -/
def Context.ofEmission (e : Emission) : Except ContextError Context :=
  match e.toValue with
  | .error e => .error (.emission e)
  | .ok (.map entries) => .ok ⟨entries⟩
  | .ok v => .error (.notAMap v.typeName)

end Stencil
