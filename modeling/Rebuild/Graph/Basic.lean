import Rebuild.Path.Map
import Rebuild.Reach
import Rebuild.Digest.Basic
import Rebuild.Json.Basic

/-!
# The graph of dependencies

Which file needs which.  A node holds the files that it needs and, kept in step with them, the files
that need it; a node that was built also holds what was recorded then.  A node stays as long as it
was built or has an edge.

* **Changing.**  `Graph.setDependencies`, `Graph.recordBuild` and `Graph.remove`.
* **Asking.**  `Graph.affected` lists what a change reaches, nearest first.
* **Repair.**  `Graph.ofNodes` takes any nodes at all, and computes the reverse edges anew.
-/

namespace Rebuild

/-- A file in the graph. -/
structure GraphNode where
  path : Path
  /-- The files that this one needs. -/
  dependencies : PathSet := ∅
  /-- The files that need this one. -/
  dependents : PathSet := ∅
  /-- The digest of the file when it was built last. -/
  inputDigest : Option Digest := none
  /-- The digest of what came out of it then. -/
  outputDigest : Option Digest := none
  /-- Whatever was noted then. -/
  metadata : Option Json := none

/-- Files and the edges between them. -/
structure Graph where
  nodes : PathMap GraphNode := ∅

namespace Graph

/-- The graph without files. -/
def empty : Graph := {}

/-- The node of a file. -/
def node? (g : Graph) (p : Path) : Option GraphNode := g.nodes[p]?

/-- The file has a node. -/
def contains (g : Graph) (p : Path) : Bool := g.nodes.contains p

/-- How many files have nodes. -/
def size (g : Graph) : Nat := g.nodes.size

/-- The files that a file needs. -/
def dependencies (g : Graph) (p : Path) : List Path :=
  match g.node? p with
  | some n => n.dependencies.toList
  | none => []

/-- The files that need a file. -/
def dependents (g : Graph) (p : Path) : List Path :=
  match g.node? p with
  | some n => n.dependents.toList
  | none => []

/-! ## Changing -/

/-- The graph with a node for the file. -/
def ensure (g : Graph) (p : Path) : Graph := ⟨g.nodes.ensure p { path := p }⟩

/-- The graph with the node of a file changed, if there is one. -/
def adjust (g : Graph) (p : Path) (f : GraphNode → GraphNode) : Graph := ⟨g.nodes.adjust p f⟩

/-- A node that was never built and has no edges. -/
def isOrphan (n : GraphNode) : Bool :=
  n.inputDigest.isNone && n.dependencies.isEmpty && n.dependents.isEmpty

/-- The graph without the node of the file, if that is an orphan. -/
def pruneOrphan (g : Graph) (p : Path) : Graph :=
  match g.node? p with
  | some n => if isOrphan n then ⟨g.nodes.erase p⟩ else g
  | none => g

/-- `p` no longer needs `dropped`, as `dropped` sees it. -/
def dropEdge (p : Path) (g : Graph) (dropped : Path) : Graph :=
  (g.adjust dropped fun n => { n with dependents := n.dependents.erase p }).pruneOrphan dropped

/-- `p` needs `added`, as `added` sees it. -/
def addEdge (p : Path) (g : Graph) (added : Path) : Graph :=
  (g.ensure added).adjust added fun n => { n with dependents := n.dependents.insert p }

/-- The graph in which `p` needs exactly these files. -/
def setDependencies (g : Graph) (p : Path) (needed : List Path) : Graph :=
  let new := PathSet.ofPaths needed
  let g := g.ensure p
  let dropped := (g.dependencies p).filter fun d => !new.contains d
  let g := dropped.foldl (dropEdge p) g
  let g := new.toList.foldl (addEdge p) g
  g.adjust p fun n => { n with dependencies := new }

/-- The graph with a successful build of `p` recorded. -/
def recordBuild (g : Graph) (p : Path) (input output : Digest) (metadata : Option Json) : Graph :=
  (g.ensure p).adjust p fun n =>
    { n with inputDigest := some input, outputDigest := some output, metadata }

/-- The node without its build. -/
def forgetBuild (n : GraphNode) : GraphNode :=
  { n with inputDigest := none, outputDigest := none, metadata := none }

/-- The graph without what `p` needs and without its build; the node goes unless other files need
it. -/
def remove (g : Graph) (p : Path) : Graph :=
  ((g.setDependencies p []).adjust p forgetBuild).pruneOrphan p

/-! ## Asking -/

/-- All files that need some file. -/
def allDependents (g : Graph) : List Path :=
  g.nodes.values.flatMap fun n => n.dependents.toList

/-- The changed files and all that need one of them, directly or not, each once and nearest first. -/
def affected (g : Graph) (changed : List Path) : List Path :=
  Reach.order g.dependents g.allDependents changed

/-! ## Repair -/

/-- Every edge, as the file that needs and the file that is needed. -/
def edges (g : Graph) : List (Path × Path) :=
  g.nodes.toList.flatMap fun (p, n) => n.dependencies.toList.map fun d => (p, d)

/-- The graph whose reverse edges are exactly its edges turned round. -/
def rebuildDependents (g : Graph) : Graph :=
  let bare : Graph := ⟨g.nodes.map fun _ n => { n with dependents := ∅ }⟩
  g.edges.foldl (fun g (p, d) => addEdge p g d) bare

/-- The graph of these nodes, whatever dependents they claim to have. -/
def ofNodes (nodes : PathMap GraphNode) : Graph := rebuildDependents ⟨nodes⟩

/-- Every edge is known at both its ends. -/
def isConsistent (g : Graph) : Bool :=
  g.nodes.toList.all fun (p, n) =>
    (n.dependencies.toList.all fun d => (g.node? d).any (·.dependents.contains p)) &&
    (n.dependents.toList.all fun d => (g.node? d).any (·.dependencies.contains p))

end Graph
end Rebuild
