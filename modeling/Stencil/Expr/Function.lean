import Stencil.Expr.Arith
import Stencil.Text.CaseMap
import Stencil.Text.Split

/-!
The functions that expressions can call.

A call names one of a fixed list of functions; some have a second name. `apply` checks the number of
arguments and works on evaluated values. Texts are handled by characters, collections by their
elements in their own order.
-/

namespace Stencil.Expr

inductive Function where
  | count | empty | isset | default
  | upper | lower | capitalize | trim
  | join | split | explode | replace | strReplace | substr
  | abs | round | floor | ceil | min | max
  | keys | values | first | last | contains | inArray | range
  deriving DecidableEq

namespace Function

def table : List (String × Function) :=
  [("count", count), ("len", count), ("length", count), ("empty", empty), ("isset", isset),
   ("default", default), ("upper", upper), ("strtoupper", upper), ("lower", lower),
   ("strtolower", lower), ("capitalize", capitalize), ("ucfirst", capitalize), ("trim", trim),
   ("join", join), ("implode", join), ("split", split), ("explode", explode),
   ("replace", replace), ("str_replace", strReplace), ("substr", substr), ("abs", abs),
   ("round", round), ("floor", floor), ("ceil", ceil), ("min", min), ("max", max),
   ("keys", keys), ("values", values), ("first", first), ("last", last),
   ("contains", contains), ("in_array", inArray), ("range", range)]

def ofName? (name : String) : Option Function := table.lookup name

/-- Whether the argument at this position may fail, which then counts as null. -/
def forgives (name : String) (position : Nat) : Bool :=
  match ofName? name with
  | some isset => true
  | some empty | some default => position == 0
  | _ => false

abbrev Result := Except EvalError Value

def countError (name : String) (expected : ArgCount) (args : List Value) : Result :=
  .error (.wrongArgCount name expected args.length)

def withOne (name : String) (args : List Value) (f : Value → Result) : Result :=
  match args with
  | [a] => f a
  | _ => countError name (.exactly 1) args

def withTwo (name : String) (args : List Value) (f : Value → Value → Result) : Result :=
  match args with
  | [a, b] => f a b
  | _ => countError name (.exactly 2) args

def withThree (name : String) (args : List Value) (f : Value → Value → Value → Result) : Result :=
  match args with
  | [a, b, c] => f a b c
  | _ => countError name (.exactly 3) args

def onText (name : String) (args : List Value) (f : List Char → List Char) : Result :=
  withOne name args fun v => .ok (.str (String.ofList (f v.text.toList)))

def integerArg (name : String) (v : Value) : Except EvalError Int64 :=
  match v.toInt64? with
  | some n => .ok n
  | none => .error (.typeFault (.expectedInteger name v.typeName))

/-- The texts of the elements, or of the value itself if it is no collection. -/
def elementTexts (v : Value) : List String :=
  match v.entries? with
  | some entries => entries.map fun (_, e) => e.text
  | none => [v.text]

/-- Joins a collection; a text before a value that is no text is taken for the separator. -/
def joinValues (first : Value) (second? : Option Value) : Value :=
  match first, second? with
  | v, none => .str ("".intercalate (elementTexts v))
  | .str s, some (.str sep) => .str (sep.intercalate (elementTexts (.str s)))
  | .str sep, some v => .str (sep.intercalate (elementTexts v))
  | v, some sep => .str (sep.text.intercalate (elementTexts v))

/-- The parts between separators; an empty separator splits between all characters. -/
def splitText (s sep : String) : Value :=
  if sep == "" then .list (s.toList.map fun c => .str (String.singleton c))
  else .list ((pieces sep.toList s.toList).map fun p => .str (String.ofList p))

def replaceText (subject search new : Value) : Value :=
  .str (String.ofList (replaceAll search.text.toList new.text.toList subject.text.toList))

/-- The characters from `start` on, which may count from the end. A length below zero leaves that
many characters off the end. -/
def slice (s : List Char) (start : Int) (length? : Option Int) : List Char :=
  let total : Int := s.length
  let p := if start < 0 then Max.max (total + start) 0 else Min.min start total
  let q := match length? with
    | none => total
    | some n => if n < 0 then Max.max (total + n) p else Min.min (p + n) total
  (s.take q.toNat).drop p.toNat

def substring (name : String) (args : List Value) : Result :=
  match args with
  | s :: start :: rest =>
    if 1 < rest.length then countError name (.between 2 3) args
    else
      match integerArg name start with
      | .error e => .error e
      | .ok n =>
        let cut (length? : Option Int) : Result :=
          .ok (.str (String.ofList (slice s.text.toList n.toInt length?)))
        match rest with
        | [] | [.null] => cut none
        | length :: _ =>
          match integerArg name length with
          | .error e => .error e
          | .ok k => cut (some k.toInt)
  | _ => countError name (.between 2 3) args

def onNumber (name : String) (args : List Value) (f : Number → Except EvalError Number) : Result :=
  withOne name args fun v =>
    match toNumber v with
    | .error e => .error e
    | .ok n => asValue (f n)

def absolute : Number → Except EvalError Number
  | .int n => intResult n.toInt.natAbs
  | .float x => .ok (.float (Double.absolute x))
  | .decimal d => .ok (.decimal d.abs)

def roundNumber (places : Nat) : Number → Number
  | .int n => .int n
  | .float x =>
    let factor := Float.ofNat (tenTo places)
    .float (Double.round (x * factor) / factor)
  | .decimal d => .decimal (d.round places)

def floorNumber : Number → Number
  | .int n => .int n
  | .float x => .float (Double.floor x)
  | .decimal d => .decimal d.floor

def ceilNumber : Number → Number
  | .int n => .int n
  | .float x => .float (Double.ceil x)
  | .decimal d => .decimal d.ceil

/-- Rounds to a number of places from 0 to 15, 0 if none is given. -/
def rounded (name : String) (args : List Value) : Result :=
  let rounding (v : Value) (places : Nat) : Result :=
    match toNumber v with
    | .error e => .error e
    | .ok n => .ok (roundNumber places n).toValue
  match args with
  | [v] => rounding v 0
  | [v, p] =>
    match integerArg name p with
    | .error e => .error e
    | .ok p => rounding v (Min.min p.toInt.toNat 15)
  | _ => countError name (.between 1 2) args

/-- Goes through the values and keeps the present best unless one stands to it as `wanted`. -/
def extremeFrom (name : String) (wanted : Ordering) : Value → List Value → Result
  | best, [] => .ok best
  | best, v :: vs =>
    match v.order? best with
    | some o => extremeFrom name wanted (if o == wanted then v else best) vs
    | none => .error (.typeFault (.incomparableIn name v.typeName best.typeName))

/-- The first extreme of the arguments, or of the elements of a single collection. -/
def extreme (name : String) (wanted : Ordering) (args : List Value) : Result :=
  let items := match args with
    | [v] => (v.entries?.map fun es => es.map (·.2)).getD [v]
    | _ => args
  if args.isEmpty then countError name (.atLeast 1) args
  else
    match items with
    | [] => .ok .null
    | v :: vs => extremeFrom name wanted v vs

/-- The character, or the element, that `pick` takes. -/
def picked (pick : {α : Type} → List α → Option α) : Value → Value
  | .str s =>
    match pick s.toList with
    | some c => .str (String.singleton c)
    | none => .null
  | v =>
    match pick v.entriesOrNone with
    | some (_, e) => e
    | none => .null

def holds (haystack needle : Value) : Bool :=
  match haystack with
  | .str s => occursIn needle.text.toList s.toList
  | v => v.entriesOrNone.any fun (_, e) => e.looseEq needle

/-- The integers from `start` to `stop` in steps of the size of `step`, toward `stop`; an overflow if
one of them does not fit. -/
def progression (start stop step : Int) : Result :=
  let size : Nat := step.natAbs
  if size == 0 then .error (.typeFault .zeroStep)
  else
    let length := (stop - start).natAbs / size + 1
    if maxRangeLength < length then .error (.typeFault .rangeTooLong)
    else
      let stride : Int := if stop < start then -size else size
      match (List.range length).mapM fun (i : Nat) => fit? (start + i * stride) with
      | some elements => .ok (.list (elements.map .int))
      | none => .error .overflow

def rangeOf (name : String) (args : List Value) : Result :=
  match args with
  | start :: stop :: rest =>
    if 1 < rest.length then countError name (.between 2 3) args
    else
      match integerArg name start with
      | .error e => .error e
      | .ok start =>
        match integerArg name stop with
        | .error e => .error e
        | .ok stop =>
          match rest with
          | [] => progression start.toInt stop.toInt 1
          | step :: _ =>
            match integerArg name step with
            | .error e => .error e
            | .ok step =>
              if step == Int64.minValue then .error .overflow
              else progression start.toInt stop.toInt step.toInt
  | _ => countError name (.between 2 3) args

/-- The value of a function, called by `name`, at its arguments. -/
def apply (f : Function) (name : String) (args : List Value) : Result :=
  match f with
  | count =>
    withOne name args fun v =>
      .ok (.int (Int64.ofNat (if v.isNull then 0 else v.size?.getD 1)))
  | empty => withOne name args fun v => .ok (.bool (!v.truthy))
  | isset =>
    if args.isEmpty then countError name (.atLeast 1) args
    else .ok (.bool (args.all fun v => !v.isNull))
  | default =>
    withTwo name args fun v fallback =>
      match v with
      | .null | .str "" => .ok fallback
      | _ => .ok v
  | upper => onText name args CaseMap.upper
  | lower => onText name args CaseMap.lower
  | capitalize => onText name args CaseMap.capitalize
  | trim => onText name args Stencil.trim
  | join =>
    match args with
    | [v] => .ok (joinValues v none)
    | [v, sep] => .ok (joinValues v (some sep))
    | _ => countError name (.between 1 2) args
  | split => withTwo name args fun s sep => .ok (splitText s.text sep.text)
  | explode => withTwo name args fun sep s => .ok (splitText s.text sep.text)
  | replace => withThree name args fun subject search new => .ok (replaceText subject search new)
  | strReplace => withThree name args fun search new subject => .ok (replaceText subject search new)
  | substr => substring name args
  | abs => onNumber name args absolute
  | round => rounded name args
  | floor => onNumber name args fun n => .ok (floorNumber n)
  | ceil => onNumber name args fun n => .ok (ceilNumber n)
  | min => extreme name .lt args
  | max => extreme name .gt args
  | keys => withOne name args fun v => .ok (.list (v.entriesOrNone.map (·.1)))
  | values => withOne name args fun v => .ok (.list (v.entriesOrNone.map (·.2)))
  | first => withOne name args fun v => .ok (picked List.head? v)
  | last => withOne name args fun v => .ok (picked List.getLast? v)
  | contains => withTwo name args fun haystack needle => .ok (.bool (holds haystack needle))
  | inArray => withTwo name args fun needle haystack => .ok (.bool (holds haystack needle))
  | range => rangeOf name args

end Function

/-- Calls a function by its name in lower case. -/
def callFunction (name : String) (args : List Value) : Except EvalError Value :=
  match Function.ofName? name with
  | some f => f.apply name args
  | none => .error (.unknownFunction name)

end Stencil.Expr
