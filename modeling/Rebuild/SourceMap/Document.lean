import Rebuild.SourceMap.Mapping
import Rebuild.Json.Decode
import Rebuild.Json.Printer
import Rebuild.Text.Utf8

/-!
# The source map document

A `SourceMap` is a document of version 3.  It is written as JSON, and delivered beside generated
code in one of two ways: embedded in a comment, in base 64, or as a document of its own that a
comment refers to.
-/

namespace Rebuild

/-- A source map of version 3. -/
structure SourceMap where
  file : Option String := none
  sourceRoot : Option String := none
  sources : List String
  /-- The text of each source where it is known, if the map carries texts at all. -/
  contents : Option (List (Option String)) := none
  names : List String
  mappings : String
  deriving DecidableEq, Repr, Inhabited

namespace SourceMap

/-! ## JSON -/

/-- The version of every document. -/
def version : Nat := 3

/-- The document as JSON. -/
def toJson (map : SourceMap) : Json :=
  .object <|
    [("version", Json.nat version)] ++
    Json.optionalMember "file" (map.file.map .string) ++
    Json.optionalMember "sourceRoot" (map.sourceRoot.map .string) ++
    [("sources", Json.strings map.sources)] ++
    Json.optionalMember "sourcesContent"
      (map.contents.map fun texts => .array (texts.map fun text => .ofOption (text.map .string))) ++
    [("names", Json.strings map.names), ("mappings", .string map.mappings)]

/-- The text of the document. -/
def render (map : SourceMap) : String := map.toJson.compact

/-- The names that the document knows. -/
def memberNames : List String :=
  ["version", "file", "sourceRoot", "sources", "sourcesContent", "names", "mappings"]

/-- The version and the map in a JSON value. -/
def ofJson? (value : Json) : Option (Nat × SourceMap) := do
  let r ← Json.record? memberNames value
  let version ← Json.Record.required? r "version" (Json.below? 256)
  let file ← Json.Record.optional? r "file" Json.string?
  let sourceRoot ← Json.Record.optional? r "sourceRoot" Json.string?
  let sources ← Json.Record.required? r "sources" (Json.list? Json.string?)
  let contents ←
    Json.Record.optional? r "sourcesContent" (Json.list? (Json.nullable? Json.string?))
  let names ← Json.Record.withDefault? r "names" (Json.list? Json.string?) []
  let mappings ← Json.Record.required? r "mappings" Json.string?
  return (version, { file, sourceRoot, sources, contents, names, mappings })

/-- The map that a text writes. -/
def parse (text : String) : Except Fault SourceMap :=
  match (Json.parse? text).bind ofJson? with
  | none => .error .badDocument
  | some (found, map) => if found = version then .ok map else .error (.unsupportedVersion found)

/-! ## Comments -/

/-- What a comment that embeds a map begins with. -/
def inlineStart : String := "//# sourceMappingURL=data:application/json;charset=utf-8;base64,"

/-- The comment that embeds the map. -/
def inlineComment (map : SourceMap) : String :=
  inlineStart ++ String.ofList (Text.Base64.encode map.render.toUTF8.toList)

/-- The map that a comment embeds. -/
def parseInline (comment : String) : Except Fault SourceMap :=
  match Text.dropStart? inlineStart.toList (Text.trim comment.toList) with
  | none => .error .notInline
  | some digits =>
    match Text.Base64.decode? digits with
    | none => .error .badBase64
    | some bytes => parse (Text.Utf8.decodeLossy bytes)

/-- The comment that refers to a document of its own. -/
def externalComment (url : String) : String := "//# sourceMappingURL=" ++ url

/-! ## Delivery -/

/-- How a map is delivered. -/
inductive Delivery where
  /-- In a comment. -/
  | inline
  /-- As a document at this address. -/
  | external (url : String)
  deriving DecidableEq, Repr

/-- Generated code with its comment, and the document that has to be written beside it. -/
structure Delivered where
  code : String
  document : Option String
  deriving DecidableEq, Repr

/-- The code, ended by a line break if it has any text, and the comment on a line of its own. -/
def withComment (code comment : String) : String :=
  code ++ (if code.isEmpty || code.endsWith "\n" then "" else "\n") ++ comment ++ "\n"

/-- The code with the map delivered. -/
def attach (map : SourceMap) (code : String) : Delivery → Delivered
  | .inline => ⟨withComment code map.inlineComment, none⟩
  | .external url => ⟨withComment code (externalComment url), some map.render⟩

/-! ## Mappings -/

/-- The mappings of the map. -/
def decode (map : SourceMap) : Except Fault (List Mapping) :=
  Mapping.decodeAll ⟨map.sources.length, map.names.length⟩ map.mappings.toList

end SourceMap
end Rebuild
