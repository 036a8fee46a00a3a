import Rebuild.Json.Decode
import Rebuild.Json.Printer

/-!
# Treemaps

A tree with a size at every node, for drawing.  A branch that is built from its children weighs what
they weigh together, and has the heaviest first.
-/

namespace Rebuild

/-- A node of a treemap; a leaf has no children. -/
inductive Treemap where
  | node (name : String) (size : Nat) (children : List Treemap)
  deriving Repr, Inhabited

namespace Treemap

/-- The name of a node. -/
def name : Treemap → String
  | node name _ _ => name

/-- The size of a node. -/
def size : Treemap → Nat
  | node _ size _ => size

/-- The children of a node. -/
def children : Treemap → List Treemap
  | node _ _ children => children

/-- A leaf. -/
def leaf (name : String) (size : Nat) : Treemap := node name size []

/-- The order of children: by falling size, then by name. -/
def comesFirst (a b : Treemap) : Bool :=
  ((compare b.size a.size).then (compare a.name b.name)).isLE

/-- A branch of these children. -/
def branch (name : String) (children : List Treemap) : Treemap :=
  node name ((children.map size).foldr (· + ·) 0) (children.mergeSort comesFirst)

/-- The node has no children. -/
def isLeaf (t : Treemap) : Bool := t.children.isEmpty

mutual

/-- How many nodes the longest way down meets. -/
def depth : Treemap → Nat
  | node _ _ children => depthBelow children + 1

/-- The greatest depth among the nodes. -/
def depthBelow : List Treemap → Nat
  | [] => 0
  | t :: ts => max t.depth (depthBelow ts)

end

mutual

/-- A node as JSON. -/
def toJson : Treemap → Json
  | node name size children =>
    .object <|
      [("name", .string name), ("size", Json.nat size)] ++
      match children with
      | [] => []
      | t :: ts => [("children", .array (t.toJson :: listToJson ts))]

/-- Nodes as JSON. -/
def listToJson : List Treemap → List Json
  | [] => []
  | t :: ts => t.toJson :: listToJson ts

end

/-- The node in a JSON value that is nested at most so deep. -/
def ofJsonWithin? : Nat → Json → Option Treemap
  | 0, _ => none
  | depth + 1, value => do
    let r ← Json.recordWith? 1 ["name", "size", "children"] value
    return node (← Json.Record.required? r "name" Json.string?)
      (← Json.Record.required? r "size" Json.word64?)
      (← Json.Record.withDefault? r "children" (Json.list? (ofJsonWithin? depth)) [])

/-- The node in a JSON value. -/
def ofJson? (value : Json) : Option Treemap := ofJsonWithin? Json.maxDepth value

end Treemap
end Rebuild
