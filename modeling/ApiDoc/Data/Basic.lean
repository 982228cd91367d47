import ApiDoc.Calendar
import ApiDoc.Number.Binary64
import ApiDoc.Text.Quoted

/-!
# Data

Plain data as stored files and settings hold them: the null value, truth values, numbers, texts,
days and moments, lists, and maps whose entries keep their order.
-/

namespace ApiDoc

inductive Data where
  /-- The absent value. -/
  | null
  | bool (b : Bool)
  | int (n : Int)
  | real (x : Number.Binary64)
  | text (s : String)
  /-- A text with halves of surrogate pairs in it, by its code points. -/
  | codes (points : List Nat)
  | stamp (s : Calendar.Stamp)
  | list (items : List Data)
  /-- Keys with their values, in the order of entry. -/
  | map (entries : List (Data × Data))
deriving Repr, Inhabited

namespace Data

open Text (quote quoteCodes)

def record (fields : List (String × Data)) : Data :=
  .map (fields.map fun f => (.text f.1, f.2))

def ofText? : Option String → Data
  | none => .null
  | some s => .text s

/-- The value under a text key in a row of entries; the first one counts. -/
def lookup (key : String) : List (Data × Data) → Option Data
  | [] => none
  | (.text k, v) :: rest => if k = key then some v else lookup key rest
  | _ :: rest => lookup key rest

def get? (key : String) : Data → Option Data
  | .map entries => lookup key entries
  | _ => none

def isNull : Data → Bool
  | null => true
  | _ => false

def isMap : Data → Bool
  | map _ => true
  | _ => false

/-- Everything but null, false, zero and what is empty. -/
def isTruthy : Data → Bool
  | null => false
  | bool b => b
  | int n => n != 0
  | real x => x.isNaN || !x.isFinite || x.decode.1 != 0
  | text s => !s.isEmpty
  | codes points => !points.isEmpty
  | stamp _ => true
  | list items => !items.isEmpty
  | map entries => !entries.isEmpty

/-- The name of the type of a value in messages. -/
def typeName : Data → String
  | null => "NoneType"
  | bool _ => "bool"
  | int _ => "int"
  | real _ => "float"
  | text _ => "str"
  | codes _ => "str"
  | stamp s => "datetime." ++ s.kind
  | list _ => "list"
  | map _ => "dict"

/-- The name of the type of a value without the module that it belongs to. -/
def shortTypeName : Data → String
  | stamp s => s.kind
  | d => d.typeName

mutual

/-- A value written out as a literal: texts stand in quotes. -/
def literal : Data → String
  | null => "None"
  | bool b => if b then "True" else "False"
  | int n => toString n
  | real x => x.text
  | text s => quote s
  | codes points => quoteCodes points
  | stamp s => s.literal
  | list items => "[" ++ ", ".intercalate (literals items) ++ "]"
  | map entries => "\x7b" ++ ", ".intercalate (entryLiterals entries) ++ "\x7d"

def literals : List Data → List String
  | [] => []
  | d :: ds => literal d :: literals ds

def entryLiterals : List (Data × Data) → List String
  | [] => []
  | (k, v) :: rest => (literal k ++ ": " ++ literal v) :: entryLiterals rest

end

/-- A value as it is inserted into a page: a text stands for itself, and so does a stamp. For half of
a surrogate pair stands one other character. -/
def display : Data → String
  | text s => s
  | codes points =>
    String.ofList (points.map fun n => if n.isValidChar then Char.ofNat n else '\uFFFD')
  | stamp s => s.text
  | d => literal d

/-- A number as a quotient of integers; truth values count as one and zero. -/
def toQuotient? : Data → Option (Int × Nat)
  | bool b => some (if b then 1 else 0, 1)
  | int n => some (n, 1)
  | real x => if x.isFinite then some x.toQuotient else none
  | _ => none

/-- The same value: numbers are compared by size, whatever their kind, and maps without regard to
order. The fuel bounds the nesting. -/
def sameWithin : (fuel : Nat) → Data → Data → Bool
  | 0, _, _ => false
  | fuel + 1, a, b =>
    match a, b with
    | null, null => true
    | text s, text t => s == t
    | codes xs, codes ys => xs == ys
    | stamp s, stamp t => s == t
    | list xs, list ys => sameItems fuel xs ys
    | map xs, map ys =>
      xs.length == ys.length && xs.all fun x =>
        ys.any fun y => sameWithin fuel x.1 y.1 && sameWithin fuel x.2 y.2
    | real x, real y =>
      if x.isFinite && y.isFinite then
        let (m, d) := x.toQuotient
        let (n, e) := y.toQuotient
        m * e == n * d
      else x == y && !x.isNaN
    | a, b =>
      match toQuotient? a, toQuotient? b with
      | some (m, d), some (n, e) => m * e == n * d
      | _, _ => false
where
  sameItems (fuel : Nat) : List Data → List Data → Bool
    | [], [] => true
    | x :: xs, y :: ys => sameWithin fuel x y && sameItems fuel xs ys
    | _, _ => false

end Data

end ApiDoc
