/-!
# What can be wrong with a source map

The causes for which a map is refused, and their wording.
-/

namespace Rebuild.SourceMap

/-- A reason to refuse a source map or a part of one. -/
inductive Fault where
  /-- A character of a mapping is no digit. -/
  | invalidDigit (c : Char)
  /-- The digits end where one more is due, or a number has too many of them. -/
  | truncatedVlq
  /-- A segment has this number of fields, which is not one, four or five. -/
  | invalidSegment (fields : Nat)
  /-- A mapping refers to a source beyond the table. -/
  | sourceOutOfRange (index : Int) (count : Nat)
  /-- A mapping refers to a name beyond the table. -/
  | nameOutOfRange (index : Int) (count : Nat)
  /-- A position is below zero, or does not fit 32 bits. -/
  | negativePosition
  /-- A running position leaves the range of 64 bits. -/
  | positionOverflow
  /-- The document has a version other than the supported one. -/
  | unsupportedVersion (version : Nat)
  /-- The text is no comment that embeds a map. -/
  | notInline
  /-- The document is no JSON, or not the JSON of a map. -/
  | badDocument
  /-- The embedded map is not in base 64. -/
  | badBase64
  deriving DecidableEq, Repr

/-- The wording of a fault.  The last two are described by the reader of the format in question. -/
def Fault.message : Fault → String
  | invalidDigit c => "Invalid base64 digit '" ++ c.toString ++ "' in mappings"
  | truncatedVlq => "Mappings end in the middle of a VLQ value"
  | invalidSegment fields => "Mapping segment has " ++ fields.repr ++ " fields, expected 1, 4 or 5"
  | sourceOutOfRange index count =>
    "Mapping references source " ++ index.repr ++ " but the map has " ++ count.repr ++ " sources"
  | nameOutOfRange index count =>
    "Mapping references name " ++ index.repr ++ " but the map has " ++ count.repr ++ " names"
  | negativePosition => "Negative position in mappings"
  | positionOverflow => "Position in mappings overflows"
  | unsupportedVersion version => "Unsupported source map version " ++ version.repr
  | notInline => "Not an inline source map comment"
  | badDocument => "Invalid source map document"
  | badBase64 => "Invalid base64 in source map comment"

end Rebuild.SourceMap
