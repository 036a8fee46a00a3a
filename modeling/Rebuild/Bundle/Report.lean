import Rebuild.Bundle.Artifact
import Rebuild.Bundle.Treemap
import Rebuild.Imports.Package
import Rebuild.Path.Json
import Std.Data.TreeMap

/-!
# Reports on bundles

What a bundle of artifacts weighs, by unit and by package.  Every artifact belongs to exactly one unit;
a package has the size of all artifacts that refer to it.

* `BundleReport.ofArtifacts` makes the report.  It takes the measure of compressed contents as a
  function.
* `BundleReport.toJson` writes it, with shares in percent.
-/

namespace Rebuild

/-- What a unit weighs. -/
structure UnitSize where
  id : String
  size : Nat
  gzipSize : Nat
  /-- The artifacts of the unit, in their order. -/
  files : List Path
  deriving DecidableEq, Repr

/-- Who refers to a package. -/
structure PackageUse where
  name : String
  /-- How many artifacts refer to it. -/
  references : Nat
  /-- What these weigh together. -/
  size : Nat
  deriving DecidableEq, Repr

/-- What a bundle weighs. -/
structure BundleReport where
  totalSize : Nat
  totalGzipSize : Nat
  fileCount : Nat
  /-- The units, the heaviest first. -/
  units : List UnitSize
  /-- The packages, the one with the most references first. -/
  packages : List PackageUse
  treemap : Treemap

/-- The share of a part, in percent. -/
def percentage (part total : Nat) : Float :=
  if total = 0 then 0.0
  else (UInt64.ofNat part).toFloat * 100.0 / (UInt64.ofNat total).toFloat

namespace UnitSize

/-- The order of units: by falling size, then by name. -/
def comesFirst (a b : UnitSize) : Bool :=
  ((compare b.size a.size).then (compare a.id b.id)).isLE

/-- A unit with its artifacts, weighed. -/
def ofArtifacts (measure : String → Nat) (id : String) (members : List Artifact) : UnitSize where
  id
  size := (members.map Artifact.size).foldr (· + ·) 0
  gzipSize := (members.map fun a => measure a.content).foldr (· + ·) 0
  files := members.map (·.path)

end UnitSize

namespace PackageUse

/-- The order of packages: by falling references, falling size, then by name. -/
def comesFirst (a b : PackageUse) : Bool :=
  ((compare b.references a.references).then
    ((compare b.size a.size).then (compare a.name b.name))).isLE

end PackageUse

namespace BundleReport

/-- Artifacts by unit, in the order of the units' names. -/
abbrev Groups := Std.TreeMap String (List Artifact) compare

/-- The artifacts by unit. -/
def groups (known : Option (List String)) (artifacts : List Artifact) : Groups :=
  artifacts.foldl (fun groups a =>
    let unit := match known with
      | some ids => Artifact.knownUnit a.path ids
      | none => Artifact.unitOf a.path
    groups.insert unit (groups.getD unit [] ++ [a])) ∅

/-- The packages that the artifacts refer to. -/
def packageUses (artifacts : List Artifact) : List PackageUse :=
  let uses : Std.TreeMap String PackageUse compare :=
    artifacts.foldl (fun uses a =>
      (Imports.packages a.content).foldl (fun uses name =>
        let use := uses.getD name ⟨name, 0, 0⟩
        uses.insert name { use with references := use.references + 1, size := use.size + a.size })
        uses) ∅
  uses.values.mergeSort PackageUse.comesFirst

/-- The treemap of grouped artifacts. -/
def treemapOf (groups : Groups) : Treemap :=
  .branch "bundle" <| groups.toList.map fun (id, members) =>
    .branch id (members.map fun a => .leaf a.path.text a.size)

/-- The report on artifacts, by known units or by those that the paths tell of. -/
def ofArtifacts (measure : String → Nat) (known : Option (List String))
    (artifacts : List Artifact) : BundleReport :=
  let groups := groups known artifacts
  let units := groups.toList.map fun (id, members) => UnitSize.ofArtifacts measure id members
  { totalSize := (artifacts.map Artifact.size).foldr (· + ·) 0
    totalGzipSize := (artifacts.map fun a => measure a.content).foldr (· + ·) 0
    fileCount := artifacts.length
    units := units.mergeSort UnitSize.comesFirst
    packages := packageUses artifacts
    treemap := treemapOf groups }

/-- The unit of a name. -/
def unit? (r : BundleReport) (id : String) : Option UnitSize := r.units.find? (·.id == id)

/-- The package of a name. -/
def package? (r : BundleReport) (name : String) : Option PackageUse :=
  r.packages.find? (·.name == name)

/-- How much smaller the contents become: the compressed size over the size. -/
def compressionRatio (r : BundleReport) : Float :=
  if r.totalSize = 0 then 0.0
  else (UInt64.ofNat r.totalGzipSize).toFloat / (UInt64.ofNat r.totalSize).toFloat

/-- A report as JSON. -/
def toJson (r : BundleReport) : Json :=
  let share (size : Nat) : Json := .number (.float (percentage size r.totalSize).toBits)
  .object
    [("totalSize", Json.nat r.totalSize), ("totalGzipSize", Json.nat r.totalGzipSize),
      ("fileCount", Json.nat r.fileCount),
      ("units", .array (r.units.map fun u =>
        .object [("id", .string u.id), ("size", Json.nat u.size), ("gzipSize", Json.nat u.gzipSize),
          ("percentage", share u.size), ("files", Path.listToJson u.files)])),
      ("dependencies", .array (r.packages.map fun d =>
        .object [("name", .string d.name), ("references", Json.nat d.references),
          ("size", Json.nat d.size), ("percentage", share d.size)])),
      ("treemap", r.treemap.toJson)]

end BundleReport
end Rebuild
