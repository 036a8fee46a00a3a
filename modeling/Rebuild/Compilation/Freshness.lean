import Rebuild.Cache.Basic

/-!
# Which outputs of the cache still hold

`Cache.fresh` finds the entry of a file whose content and direct dependencies are as they were.  What
lies deeper is `Division.demote`: an output is not taken from the cache when the same pass compiles
something that it depends on, directly or through other files of the pass.
-/

namespace Rebuild

/-- The entry of a file that need not be compiled, and the cache with the question counted. -/
def Cache.fresh (c : Cache) (tree : FileTree) (p : Path) : Cache × Option CacheEntry :=
  match c.get tree p with
  | (asked, some entry) => (asked, if c.needsRecompilation tree p then none else some entry)
  | (asked, none) => (asked, none)

/-- A file with its entry in the cache. -/
abbrev Hit := Path × CacheEntry

/-- The files of a pass, in two parts. -/
structure Division where
  /-- The files whose outputs the cache has. -/
  hits : List Hit := []
  /-- The files to compile. -/
  misses : List Path := []

namespace Division

/-- The file needs one of these. -/
def needsAny (graph : Graph) (stale : PathSet) (h : Hit) : Bool :=
  (graph.dependencies h.1).any stale.contains

/-- The division in which no hit needs a miss: hits that do are misses too, until there are none. -/
def demoteFrom (graph : Graph) (hits : List Hit) (misses : List Path) : Division :=
  let stale := PathSet.ofPaths misses
  let demoted := hits.filter (needsAny graph stale)
  if h : demoted = [] then ⟨hits, misses⟩
  else
    have : (hits.filter fun x => !needsAny graph stale x).length < hits.length := by
      obtain ⟨x, hx⟩ := List.exists_mem_of_ne_nil _ h
      have hmem := List.mem_filter.1 hx
      refine List.length_filter_lt_length_iff_exists.2 ⟨x, hmem.1, ?_⟩
      simp [hmem.2]
    demoteFrom graph (hits.filter fun x => !needsAny graph stale x)
      (misses ++ demoted.map Prod.fst)
termination_by hits.length
decreasing_by exact this

/-- The division in which no hit needs a miss. -/
def demote (graph : Graph) (d : Division) : Division := demoteFrom graph d.hits d.misses

end Division
end Rebuild
