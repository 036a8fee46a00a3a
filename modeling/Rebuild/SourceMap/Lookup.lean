import Rebuild.SourceMap.Document

/-!
# Looking positions up

A `Resolver` answers where a position of generated code comes from: the last mapping of the line at
or before the column or, when all lie after it, the first of the line.  Mappings without an origin do
not count.
-/

namespace Rebuild.SourceMap

/-- Where a generated position comes from. -/
structure OriginalPosition where
  source : String
  line : UInt32
  column : UInt32
  name : Option String
  deriving DecidableEq, Repr

/-- What is needed to look positions up. -/
structure Resolver where
  /-- The sources, with the root of the map applied. -/
  sources : List String
  names : List String
  /-- The mappings that have an origin, in order. -/
  mappings : List Mapping
  deriving DecidableEq, Repr

/-- A source seen from the root of the map. -/
def underRoot (root source : String) : String :=
  if root.isEmpty || source.startsWith "/" then source
  else if root.endsWith "/" then root ++ source
  else root ++ "/" ++ source

/-- The mapping that answers for a column, out of the sorted mappings of its line. -/
def choose? (onLine : List Mapping) (column : UInt32) : Option Mapping :=
  match (onLine.filter (·.column ≤ column)).getLast? with
  | some m => some m
  | none => onLine.head?

namespace Resolver

/-- The resolver of a map. -/
def ofMap (map : SourceMap) : Except Fault Resolver := do
  let mappings ← map.decode
  return {
    sources := map.sources.map (underRoot (map.sourceRoot.getD ""))
    names := map.names
    mappings := Mapping.sort (mappings.filter (·.origin.isSome)) }

/-- The position that an origin refers to. -/
def resolve? (r : Resolver) (o : Origin) : Option OriginalPosition := do
  let source ← r.sources[o.source.toNat]?
  return ⟨source, o.line, o.column, o.name.bind fun n => r.names[n.toNat]?⟩

/-- Where a generated position comes from. -/
def find? (r : Resolver) (line column : UInt32) : Option OriginalPosition := do
  let mapping ← choose? (r.mappings.filter (·.line == line)) column
  let origin ← mapping.origin
  r.resolve? origin

end Resolver
end Rebuild.SourceMap
