import Rebuild.Proofs.Json.Compact
import Rebuild.Proofs.Json.Records
import Rebuild.Proofs.SourceMap.Reopening
import Rebuild.Proofs.Text.Base64
import Rebuild.Proofs.Text.Utf8
import Rebuild.SourceMap.Document

/-!
# Maps read back

What is written of a map is read back, in each form in which it leaves the program.

* **Mappings.**  `decode_encodeAll_iff`: sorted mappings come back from the string of a map exactly if
  they stay within its tables.
* **The document.**  `parse_render`: a member that is left out reads as nothing.
* **The comment.**  `parseInline_inlineComment`: its bytes are text, and it has no blanks at its ends.
* **Delivery.**  The comment is a line of its own after those of the code (`lines_withComment`), so
  that a map is read back from what was delivered: `delivered_reads_back`.
-/

namespace Rebuild
namespace SourceMap

/-! ## Mappings -/

/-- **Sorted mappings are read back** from the string that writes them, exactly if they stay within the
tables of the map. -/
theorem decode_encodeAll_iff (map : SourceMap) {ms : List Mapping}
    (hsorted : ms.Pairwise fun m m' => (compare m m').isLE) :
    { map with mappings := String.ofList (Mapping.encodeAll ms) }.decode = .ok ms
      ↔ ∀ m ∈ ms, m.Within ⟨map.sources.length, map.names.length⟩ := by
  refine ⟨within_of_decode, fun hwithin => ?_⟩
  rw [decode, String.toList_ofList]
  exact Mapping.decodeAll_encodeAll (hsorted.imp Mapping.ahead_of_notAfter) hwithin

/-- A mapping without an origin, one that is repeated, lines without any, and origins and names that go
back. -/
theorem decode_encodeAll_backwards :
    let map : SourceMap := { sources := ["a", "b"], names := ["x", "y"], mappings := "" }
    let back : Mapping := ⟨4, 0, some ⟨0, 1, 2, some 0⟩⟩
    let ms : List Mapping := [⟨1, 0, none⟩, ⟨1, 7, some ⟨1, 9, 4, some 1⟩⟩, back, back]
    ms.Pairwise (fun m m' => (compare m m').isLE)
      ∧ { map with mappings := String.ofList (Mapping.encodeAll ms) }.decode = .ok ms := by
  intro map back ms
  have hsorted : ms.Pairwise fun m m' => (compare m m').isLE := by decide
  refine ⟨hsorted, (decode_encodeAll_iff map hsorted).2 ?_⟩
  simp [map, ms, back, Mapping.Within]

/-! ## The document -/

variable (map : SourceMap)

lemma ofJson?_toJson : ofJson? map.toJson = some (version, map) := by
  have hversion : Json.below? 256 (Json.nat version) = some version := Json.below?_nat (by decide)
  have htext : ∀ text, Json.nullable? Json.string? (.string text) = some (some text) := fun _ => rfl
  have hcontents : ∀ texts : List (Option String),
      Json.nullable? (Json.list? (Json.nullable? Json.string?))
        (.array (texts.map fun text => .ofOption (text.map .string))) = some (some texts) := by
    intro texts
    rw [Json.nullable?, Json.list?_map Json.nullable?_string]
    · rfl
    · simp
  rw [ofJson?, toJson, Json.record?_object]
  · simp only [Option.bind_eq_bind, Option.bind_some, List.append_assoc, List.cons_append,
      List.nil_append, Json.Record.required?_cons, Json.Record.optional?_cons,
      Json.Record.withDefault?_cons, Json.Record.required?_optionalMember,
      Json.Record.optional?_optionalMember, Json.Record.withDefault?_optionalMember,
      Json.Record.optional?_optionalMember_self, Json.Record.lookup_cons,
      Json.Record.lookup_optionalMember, List.lookup_nil, String.reduceEq, ne_eq, not_false_eq_true,
      if_true, if_false, hversion, htext, hcontents, implies_true, Json.list?_strings]
    rfl
  · -- The names are written in the order in which the document lists them.
    have hnames : memberNames.Nodup := by decide
    refine hnames.sublist ?_
    simp only [List.map_append]
    exact ((((List.Sublist.refl ["version"]).append Json.Record.names_optionalMember).append
      Json.Record.names_optionalMember).append (.refl ["sources"])).append
      Json.Record.names_optionalMember |>.append (.refl ["names", "mappings"])

lemma plain_toJson : Json.Plain Json.maxDepth map.toJson := by
  have hcontents : ∀ v ∈ map.contents.map fun texts =>
      Json.array (texts.map fun text => .ofOption (text.map .string)), Json.Plain 126 v := by
    intro v hv
    obtain ⟨texts, -, rfl⟩ := Option.map_eq_some_iff.1 hv
    refine .array fun v hv => ?_
    obtain ⟨text, -, rfl⟩ := List.mem_map.1 hv
    cases text <;> exact .scalar trivial
  have htext : ∀ text : Option String, ∀ v ∈ text.map Json.string, Json.Plain 126 v := by
    intro text v hv
    obtain ⟨s, -, rfl⟩ := Option.map_eq_some_iff.1 hv
    exact .scalar trivial
  refine .object ?_
  simp only [List.forall_mem_append, List.forall_mem_cons, List.not_mem_nil, false_implies,
    implies_true, and_true]
  exact ⟨⟨⟨⟨⟨.scalar ⟨by decide, by decide⟩, Json.plain_optionalMember (htext _)⟩,
    Json.plain_optionalMember (htext _)⟩, Json.plain_strings 125 _⟩,
    Json.plain_optionalMember hcontents⟩, Json.plain_strings 125 _, .scalar trivial⟩

/-- **The document is read back.** -/
theorem parse_render : parse map.render = .ok map := by
  rw [parse, render, Json.parse?_compact map.plain_toJson, Option.bind_some, ofJson?_toJson]
  exact if_pos rfl

/-! ## The comment -/

lemma toList_inlineComment : map.inlineComment.toList
    = inlineStart.toList ++ Text.Base64.encode map.render.toUTF8.toList := by
  rw [inlineComment, String.toList_append, String.toList_ofList]

lemma slashes_prefix_inlineComment : "//".toList <+: map.inlineComment.toList := by
  have hstart : "//".toList <+: inlineStart.toList := by decide
  rw [toList_inlineComment]
  exact hstart.trans (List.prefix_append _ _)

lemma not_mem_inlineComment : '\n' ∉ map.inlineComment.toList := by
  have hstart : '\n' ∉ inlineStart.toList := by decide
  rw [toList_inlineComment, List.mem_append, not_or]
  exact ⟨hstart, fun h => absurd (Text.Base64.isBlank_of_mem_encode h) (by decide)⟩

/-- The comment has no blank at its ends. -/
lemma trim_inlineComment : Text.trim map.inlineComment.toList = map.inlineComment.toList := by
  rw [toList_inlineComment]
  have hstart : inlineStart.toList.getLast? = some ',' := by decide
  refine Text.trim_eq_self ?_ ?_
  · intro c hc
    cases hc
    decide
  · intro c hc
    rw [List.getLast?_append, Option.mem_def, Option.or_eq_some_iff] at hc
    rcases hc with hdigit | ⟨-, hc⟩
    · exact Text.Base64.isBlank_of_mem_encode (List.mem_of_getLast? hdigit)
    · cases hstart.symm.trans hc
      decide

/-- **The comment is read back.** -/
theorem parseInline_inlineComment : parseInline map.inlineComment = .ok map := by
  rw [parseInline, trim_inlineComment, toList_inlineComment, Text.dropStart?_append]
  simp only [Text.Base64.decode?_encode, Text.Utf8.decodeLossy_toUTF8, parse_render]

/-! ## Delivery -/

/-- The comment is a line of its own, after those of the code. -/
lemma lines_withComment {code comment : String} (h : '\n' ∉ comment.toList) :
    Text.lines (withComment code comment).toList = Text.lines code.toList ++ [comment.toList] := by
  have hcomment : Text.split '\n' comment.toList = [comment.toList] := Text.split_of_not_mem h
  have htext : ∀ between : String, (code ++ between ++ comment ++ "\n").toList
      = (code.toList ++ between.toList ++ comment.toList) ++ ['\n'] := by
    intro between
    simp
  rw [withComment, htext, Text.lines_append_break]
  by_cases hempty : code.toList = []
  · have hcode : code = "" := String.toList_inj.1 hempty
    simp [hcode, hcomment]
  by_cases hend : ['\n'] <:+ code.toList
  · obtain ⟨before, hbefore⟩ := hend
    have hbreak : code.endsWith "\n" = true := (Text.endsWith_iff code "\n").2 ⟨before, hbefore⟩
    rw [hbreak, Bool.or_true, if_pos rfl, ← hbefore, Text.lines_append_break]
    simpa [hcomment] using Text.split_append_sep '\n' before comment.toList
  · have hopen : (code.isEmpty || code.endsWith "\n") = false := by
      rw [Bool.or_eq_false_iff, Bool.eq_false_iff, Bool.eq_false_iff]
      exact ⟨fun h => hempty (by simpa using h), fun h => hend ((Text.endsWith_iff code "\n").1 h)⟩
    rw [hopen, if_neg Bool.false_ne_true, Text.lines_eq_split hempty hend]
    simpa [hcomment] using Text.split_append_sep '\n' code.toList comment.toList

/-- **What is emitted is read back.**  The document and the comment are read as the map.  Delivered
inside the code, the comment is the one line more that the code has then; delivered beside it, the
document is read as the map. -/
theorem delivered_reads_back (code url : String) :
    parse map.render = .ok map
      ∧ parseInline map.inlineComment = .ok map
      ∧ (code.toList <+: (map.attach code .inline).code.toList
        ∧ ∃ comment : String, Text.lines (map.attach code .inline).code.toList
            = Text.lines code.toList ++ [comment.toList]
          ∧ "//".toList <+: comment.toList ∧ parseInline comment = .ok map)
      ∧ ∃ document, (map.attach code (.external url)).document = some document
        ∧ parse document = .ok map := by
  have hcode : code.toList <+: (map.attach code .inline).code.toList := by
    rw [attach, withComment, String.append_assoc, String.append_assoc, String.toList_append]
    exact List.prefix_append _ _
  exact ⟨map.parse_render, map.parseInline_inlineComment,
    ⟨hcode, map.inlineComment, lines_withComment map.not_mem_inlineComment,
      map.slashes_prefix_inlineComment, map.parseInline_inlineComment⟩,
    map.render, rfl, map.parse_render⟩

end SourceMap
end Rebuild
