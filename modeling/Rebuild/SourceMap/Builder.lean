import Rebuild.SourceMap.Document

/-!
# Building source maps

A `Builder` collects mappings that name their sources, and keeps each source and each name once, at
the index of its first mention.  Two builders merge with the generated lines of the second moved
down; what refers to a table is moved to the table of the first.
-/

namespace Rebuild.SourceMap

/-- A place in a source given by its name. -/
structure Place where
  source : String
  line : UInt32
  column : UInt32
  name : Option String := none
  deriving DecidableEq, Repr

/-- A position in generated code and the place that it comes from, if there is one. -/
structure Link where
  line : UInt32
  column : UInt32
  place : Option Place := none
  deriving DecidableEq, Repr

/-- A source and its text, where that is known. -/
structure Source where
  name : String
  content : Option String := none
  deriving DecidableEq, Repr

/-- A source map under construction. -/
structure Builder where
  file : Option String := none
  sourceRoot : Option String := none
  sources : List Source := []
  names : List String := []
  mappings : List Mapping := []
  deriving DecidableEq, Repr

namespace Builder

/-- The index of a name in a table. -/
def indexOf? (table : List String) (name : String) : Option Nat :=
  table.findIdx? (· == name)

/-- The names of the sources, by index. -/
def sourceNames (b : Builder) : List String := b.sources.map Source.name

/-! ## Adding -/

/-- The builder with the source in its table, and the source's index. -/
def addSource (b : Builder) (source : String) : Builder × UInt32 :=
  match indexOf? b.sourceNames source with
  | some i => (b, UInt32.ofNat i)
  | none => ({ b with sources := b.sources ++ [⟨source, none⟩] }, UInt32.ofNat b.sources.length)

/-- The builder with the name in its table, and the name's index. -/
def addName (b : Builder) (name : String) : Builder × UInt32 :=
  match indexOf? b.names name with
  | some i => (b, UInt32.ofNat i)
  | none => ({ b with names := b.names ++ [name] }, UInt32.ofNat b.names.length)

/-- The table with the text of one source replaced. -/
def replaceContent (sources : List Source) (source : String) (content : Option String) :
    List Source :=
  sources.map fun s => if s.name = source then { s with content } else s

/-- The builder with this text for the source, which it adds if need be. -/
def setContent (b : Builder) (source content : String) : Builder :=
  let b := (b.addSource source).1
  { b with sources := replaceContent b.sources source (some content) }

/-- The builder with one more mapping at the end. -/
def addLink (b : Builder) (link : Link) : Builder :=
  match link.place with
  | none => { b with mappings := b.mappings ++ [⟨link.line, link.column, none⟩] }
  | some place =>
    let (b, source) := b.addSource place.source
    let (b, name) : Builder × Option UInt32 :=
      match place.name with
      | none => (b, none)
      | some n => let (b, i) := b.addName n; (b, some i)
    let origin : Origin := ⟨source, place.line, place.column, name⟩
    { b with mappings := b.mappings ++ [⟨link.line, link.column, some origin⟩] }

/-! ## Starting from a map -/

/-- The builder with a source of a map and, if the map has it, its text. -/
def addWithContent (b : Builder) (source : String) (content : Option String) : Builder :=
  match content with
  | some text => b.setContent source text
  | none => (b.addSource source).1

/-- The sources of a map, each with the text that stands at its index. -/
def withContents : List String → List (Option String) → List (String × Option String)
  | [], _ => []
  | source :: sources, [] => (source, none) :: withContents sources []
  | source :: sources, text :: texts => (source, text) :: withContents sources texts

/-- A builder that goes on from a map. -/
def ofMap (map : SourceMap) : Except Fault Builder := do
  let start : Builder := { file := map.file, sourceRoot := map.sourceRoot }
  let b := (withContents map.sources (map.contents.getD [])).foldl
    (fun b (source, content) => b.addWithContent source content) start
  let b := map.names.foldl (fun b name => (b.addName name).1) b
  let mappings ← map.decode
  return { b with mappings }

/-! ## Merging -/

/-- Every entry added to the builder, and the index of each. -/
def addAll {α : Type} (add : Builder → α → Builder × UInt32) (b : Builder) :
    List α → Builder × List UInt32
  | [] => (b, [])
  | x :: xs =>
    let (b, i) := add b x
    let (b, is) := addAll add b xs
    (b, i :: is)

/-- The text of a source kept, or taken from `source` where there is none. -/
def keepContent (b : Builder) (source : Source) : Builder :=
  { b with
    sources := b.sources.map fun s =>
      if s.name = source.name ∧ s.content.isNone then { s with content := source.content } else s }

/-- An origin with its indices looked up in `sources` and `names`. -/
def moveOrigin? (sources names : List UInt32) (o : Origin) : Option Origin := do
  let source ← sources[o.source.toNat]?
  match o.name with
  | none => return { o with source, name := none }
  | some n => return { o with source, name := some (← names[n.toNat]?) }

/-- A mapping moved down, with its indices looked up. -/
def moveMapping? (sources names : List UInt32) (offset : UInt32) (m : Mapping) : Option Mapping :=
  match m.origin with
  | none => some { m with line := m.line + offset }
  | some o => (moveOrigin? sources names o).map fun o =>
      { m with line := m.line + offset, origin := some o }

/-- `b` with everything of `other`, whose generated lines move down by `offset`.  There is nothing
to merge if a mapping of `other` refers beyond its tables. -/
def merge? (b other : Builder) (offset : UInt32) : Option Builder := do
  let (b, sources) := addAll addSource b other.sourceNames
  let b := other.sources.foldl keepContent b
  let (b, names) := addAll addName b other.names
  let moved ← other.mappings.mapM (moveMapping? sources names offset)
  return { b with mappings := b.mappings ++ moved }

/-! ## The finished map -/

/-- The map: mappings in order, each once, and texts only if there is any. -/
def toMap (b : Builder) : SourceMap where
  file := b.file
  sourceRoot := b.sourceRoot
  sources := b.sourceNames
  contents := if b.sources.any (·.content.isSome) then some (b.sources.map Source.content) else none
  names := b.names
  mappings := String.ofList (Mapping.encodeAll (Mapping.sort b.mappings).eraseReps)

end Builder
end Rebuild.SourceMap
