import Rebuild.Text.Basic

/-!
# File paths

A `Path` is the text it was written as.  What it names is the list of its components, and two
paths are ordered and identified by their components only: `a//b` and `a/b` are one key of a map.

* **Reading.**  `Path.components` cuts at `/`; empty pieces vanish, and `.` vanishes unless it
  opens a relative path.
* **Writing.**  `Path.ofComponents` puts one `/` between two components.
* **Taking apart.**  `Path.join`, `Path.parent?` and `Path.relativeTo?` keep the text of the parts
  that they keep.
-/

namespace Rebuild

/-! ## Components -/

/-- One step of a path. -/
inductive Component where
  /-- The root that an absolute path starts at. -/
  | root
  /-- `.`, which only opens a relative path. -/
  | current
  /-- `..`. -/
  | parent
  /-- The name of a file or directory. -/
  | name (text : String)
  deriving DecidableEq, Repr, Inhabited

namespace Component

/-- The text of a component where it stands between two slashes. -/
def text : Component → String
  | root => ""
  | current => "."
  | parent => ".."
  | name t => t

/-- The place of a kind of component in the order: root, `.`, `..`, names. -/
def rank : Component → Nat
  | root => 0
  | current => 1
  | parent => 2
  | name _ => 3

/-- By rank, and names by their characters. -/
instance : Ord Component := ⟨compareLex (compareOn rank) (compareOn text)⟩

instance : Std.TransOrd Component :=
  inferInstanceAs (Std.TransCmp (compareLex (compareOn rank) (compareOn text)))

instance : Std.LawfulEqOrd Component where
  eq_of_compare {a b} h := by
    have h' : (compareOn rank a b).then (compareOn text a b) = .eq := h
    rw [Ordering.then_eq_eq] at h'
    have hr : a.rank = b.rank := Std.LawfulEqOrd.eq_of_compare h'.1
    have ht : a.text = b.text := Std.LawfulEqOrd.eq_of_compare h'.2
    cases a <;> cases b <;> simp_all [rank, text]

/-- A piece between two slashes; empty pieces and `.` are no steps. -/
def ofPiece? (piece : List Char) : Option Component :=
  if piece = [] ∨ piece = ['.'] then none
  else if piece = ['.', '.'] then some parent
  else some (name (String.ofList piece))

/-- The piece that a text opens with: before the first slash, an empty piece is the root, and `.`
is a step. -/
def ofFirstPiece? (absolute : Bool) (piece : List Char) : Option Component :=
  if piece = [] then (if absolute then some root else none)
  else if piece = ['.'] then some current
  else ofPiece? piece

end Component

/-! ## Paths -/

/-- A path, as it was written. -/
structure Path where
  /-- The text of the path. -/
  text : String
  deriving DecidableEq, Repr, Inhabited

namespace Path

/-- A piece of the text, and the component that it is. -/
abbrev Piece := List Char × Option Component

/-- The text begins with a slash. -/
def isAbsolute (p : Path) : Bool :=
  p.text.toList.head? == some '/'

/-- The text cut at its slashes, with what each piece means. -/
def pieces (p : Path) : List Piece :=
  match Text.split '/' p.text.toList with
  | [] => []
  | first :: rest =>
    (first, Component.ofFirstPiece? p.isAbsolute first) ::
      rest.map fun piece => (piece, Component.ofPiece? piece)

/-- The steps of a path. -/
def components (p : Path) : List Component :=
  p.pieces.filterMap Prod.snd

/-- Paths are ordered by their components, and compare equal when these agree. -/
instance : Ord Path := ⟨compareOn components⟩

instance : Std.TransOrd Path := inferInstanceAs (Std.TransCmp (compareOn components))

/-- Two paths compare equal exactly when they have the same components. -/
theorem compare_eq_iff {p q : Path} : compare p q = .eq ↔ p.components = q.components :=
  ⟨fun h => Std.LawfulEqOrd.eq_of_compare (α := List Component) h,
   fun h => by
    have : compare p q = compare p.components q.components := rfl
    rw [this, h]
    exact Std.ReflOrd.compare_self⟩

/-- The two paths name the same steps. -/
def same (p q : Path) : Bool :=
  p.components == q.components

/-- The text of a list of components. -/
def render : List Component → String
  | .root :: rest => "/" ++ "/".intercalate (rest.map Component.text)
  | steps => "/".intercalate (steps.map Component.text)

/-- The path with these components and no superfluous slash. -/
def ofComponents (steps : List Component) : Path :=
  ⟨render steps⟩

/-! ## Taking apart and putting together -/

/-- `q` seen from the directory `p`: an absolute `q` stands for itself, and joining the empty path
leaves a slash at the end. -/
def join (p q : Path) : Path :=
  if q.isAbsolute then q
  else if p.text.isEmpty || p.text.endsWith "/" then ⟨p.text ++ q.text⟩
  else ⟨p.text ++ "/" ++ q.text⟩

/-- The pieces up to the last one that is a component. -/
def trimPieces (ps : List Piece) : List Piece :=
  (ps.reverse.dropWhile (·.2.isNone)).reverse

/-- The text of pieces; the root alone is a slash. -/
def ofPieces (ps : List Piece) : Path :=
  if ps.map Prod.snd = [some .root] then ⟨"/"⟩
  else ⟨String.ofList (Text.join ['/'] (ps.map Prod.fst))⟩

/-- The path without its last component; the root and the empty path have no parent. -/
def parent? (p : Path) : Option Path :=
  match (trimPieces p.pieces).reverse with
  | [] => none
  | (_, some .root) :: _ => none
  | _ :: before => some (ofPieces (trimPieces before.reverse))

/-- The pieces of a path below the directory with components `base`. -/
def dropPieces : List Component → List Piece → Option (List Piece)
  | [], ps => some ps
  | _ :: _, [] => none
  | base, (_, none) :: ps => dropPieces base ps
  | c :: base, (_, some d) :: ps => if c = d then dropPieces base ps else none

/-- The path seen from the directory `base`, if it starts with the components of `base`. -/
def relativeTo? (base p : Path) : Option Path :=
  if base.components = [] then some (ofPieces (trimPieces p.pieces))
  else (dropPieces base.components p.pieces).map fun rest =>
    ofPieces (trimPieces (rest.dropWhile (·.2.isNone)))

end Path
end Rebuild
