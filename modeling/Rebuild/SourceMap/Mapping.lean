import Rebuild.SourceMap.Vlq
import Rebuild.Text.Basic

/-!
# Mappings

A mapping says where a position of generated code comes from.  Its origin refers to the tables of
sources and names by index; a name belongs to an origin and never stands alone.

In a map the mappings are one string: a line of generated code ends at `;`, a mapping at `,`, and
each mapping is the differences of its numbers to those of the mapping before it.

* `Mapping.decodeAll` reads the string, with every check that a reader makes, in their order.
* `Mapping.encodeAll` writes sorted mappings.
-/

namespace Rebuild.SourceMap

/-- A place in a source, with the name that is used there. -/
structure Origin where
  source : UInt32
  line : UInt32
  column : UInt32
  name : Option UInt32
  deriving DecidableEq, Repr, Inhabited

/-- A position in generated code and, unless it has none, its origin. -/
structure Mapping where
  line : UInt32
  column : UInt32
  origin : Option Origin
  deriving DecidableEq, Repr, Inhabited

/-! ## The order of mappings -/

/-- An index that may be missing, as a number: missing comes first. -/
def indexRank : Option UInt32 → Nat
  | none => 0
  | some i => i.toNat + 1

namespace Mapping

/-- The numbers by which mappings are ordered, the most significant first: the generated position,
then no origin before any origin, then the origin. -/
def key (m : Mapping) : List Nat :=
  match m.origin with
  | none => [m.line.toNat, m.column.toNat]
  | some o =>
    [m.line.toNat, m.column.toNat, o.source.toNat, o.line.toNat, o.column.toNat, indexRank o.name]

/-- Mappings are ordered by generated position, then by origin. -/
instance : Ord Mapping := ⟨compareOn key⟩

instance : Std.TransOrd Mapping := inferInstanceAs (Std.TransCmp (compareOn key))

/-- `a` does not come after `b`. -/
def notAfter (a b : Mapping) : Bool := (compare a b).isLE

/-- The mappings in order. -/
def sort (ms : List Mapping) : List Mapping := ms.mergeSort notAfter

/-! ## Reading -/

/-- The running numbers of an origin, which go on from one line to the next. -/
structure Cursor where
  source : Int := 0
  line : Int := 0
  column : Int := 0
  name : Int := 0
  deriving DecidableEq, Repr

/-- How many sources and names a map has. -/
structure Tables where
  sources : Nat
  names : Nat
  deriving DecidableEq, Repr

/-- A running number after a difference, which has to stay within 64 bits. -/
def advance (position : Int) (delta : Int64) : Except Fault Int :=
  let next := position + delta.toInt
  if Int64.minValue.toInt ≤ next ∧ next ≤ Int64.maxValue.toInt then .ok next
  else .error .positionOverflow

/-- A running number as a position of 32 bits. -/
def toPosition (value : Int) : Except Fault UInt32 :=
  if 0 ≤ value ∧ value < UInt32.size then .ok (UInt32.ofNat value.toNat) else .error .negativePosition

/-- The origin that three differences lead to. -/
def readOrigin (tables : Tables) (cursor : Cursor) (source line column : Int64) :
    Except Fault (Origin × Cursor) := do
  let nextSource ← advance cursor.source source
  let nextLine ← advance cursor.line line
  let nextColumn ← advance cursor.column column
  if nextSource < 0 ∨ (tables.sources : Int) ≤ nextSource then
    throw (.sourceOutOfRange nextSource tables.sources)
  let atLine ← toPosition nextLine
  let atColumn ← toPosition nextColumn
  return (⟨UInt32.ofNat nextSource.toNat, atLine, atColumn, none⟩,
    { cursor with source := nextSource, line := nextLine, column := nextColumn })

/-- The name that a difference leads to. -/
def readName (tables : Tables) (cursor : Cursor) (name : Int64) : Except Fault (UInt32 × Cursor) := do
  let next ← advance cursor.name name
  if next < 0 ∨ (tables.names : Int) ≤ next then
    throw (.nameOutOfRange next tables.names)
  return (UInt32.ofNat next.toNat, { cursor with name := next })

/-- The mapping that the fields of a segment lead to, with the running numbers after it. -/
def ofFields (tables : Tables) (line : UInt32) (column : Int) (cursor : Cursor) :
    List Int64 → Except Fault (Mapping × Int × Cursor)
  | [c] => do
    let next ← advance column c
    let atColumn ← toPosition next
    return (⟨line, atColumn, none⟩, next, cursor)
  | [c, s, l, k] => do
    let next ← advance column c
    let atColumn ← toPosition next
    let (origin, cursor) ← readOrigin tables cursor s l k
    return (⟨line, atColumn, some origin⟩, next, cursor)
  | [c, s, l, k, n] => do
    let next ← advance column c
    let atColumn ← toPosition next
    let (origin, cursor) ← readOrigin tables cursor s l k
    let (name, cursor) ← readName tables cursor n
    return (⟨line, atColumn, some { origin with name := some name }⟩, next, cursor)
  | fields => .error (.invalidSegment fields.length)

/-- The mappings of one line, whose segments are given; empty segments are none. -/
def decodeLine (tables : Tables) (line : UInt32) (column : Int) (cursor : Cursor) :
    List (List Char) → Except Fault (List Mapping × Cursor)
  | [] => .ok ([], cursor)
  | [] :: segments => decodeLine tables line column cursor segments
  | segment :: segments => do
    let fields ← Vlq.decode segment
    let (mapping, column, cursor) ← ofFields tables line column cursor fields
    let (mappings, cursor) ← decodeLine tables line column cursor segments
    return (mapping :: mappings, cursor)

/-- The mappings of lines from the number `line` on. -/
def decodeLines (tables : Tables) (line : UInt32) (cursor : Cursor) :
    List (List Char) → Except Fault (List Mapping)
  | [] => .ok []
  | text :: texts => do
    let (mappings, cursor) ← decodeLine tables line 0 cursor (Text.split ',' text)
    let rest ← decodeLines tables (line + 1) cursor texts
    return mappings ++ rest

/-- The mappings that a string writes, for tables of these sizes. -/
def decodeAll (tables : Tables) (text : List Char) : Except Fault (List Mapping) :=
  decodeLines tables 0 {} (Text.split ';' text)

/-! ## Writing -/

/-- The fields of an origin: the differences to the running numbers, and these after it. -/
def originFields (cursor : Cursor) (o : Origin) : List Int64 × Cursor :=
  let source : Int := o.source.toNat
  let line : Int := o.line.toNat
  let column : Int := o.column.toNat
  let fields := [Int64.ofInt (source - cursor.source), Int64.ofInt (line - cursor.line),
    Int64.ofInt (column - cursor.column)]
  match o.name with
  | none => (fields, { cursor with source, line, column })
  | some n =>
    let name : Int := n.toNat
    (fields ++ [Int64.ofInt (name - cursor.name)], { source, line, column, name })

/-- The fields of a mapping that follows `column` on its line. -/
def fields (column : Int) (cursor : Cursor) (m : Mapping) : List Int64 × Cursor :=
  let first := Int64.ofInt ((m.column.toNat : Int) - column)
  match m.origin with
  | none => ([first], cursor)
  | some o =>
    let (rest, cursor) := originFields cursor o
    (first :: rest, cursor)

/-- The text of mappings after some on line `line`: `column` is that of the last of them, and
`opened` says whether there is one. -/
def encodeFrom (line : Nat) (column : Int) (opened : Bool) (cursor : Cursor) :
    List Mapping → List Char
  | [] => []
  | m :: ms =>
    let gap := m.line.toNat - line
    let column := if gap = 0 then column else 0
    let (numbers, cursor) := fields column cursor m
    List.replicate gap ';' ++ (if gap = 0 && opened then [','] else []) ++ Vlq.encodeAll numbers ++
      encodeFrom (line + gap) m.column.toNat true cursor ms

/-- The text of mappings, which have to be sorted. -/
def encodeAll (ms : List Mapping) : List Char := encodeFrom 0 0 false {} ms

end Mapping
end Rebuild.SourceMap
