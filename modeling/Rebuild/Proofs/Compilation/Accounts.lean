import Rebuild.Proofs.Compilation.Ending
import Rebuild.Proofs.Compilation.Interleaving
import Rebuild.Proofs.Files.Places

/-!
# What becomes of the files of a pass

While nobody edits the files, every file of a pass comes to stand in one place of its report, with
what the compiler makes of it as it is.

* **The cache.**  `Cache.Right`: an entry has the output that the compiler made of the content whose
  digest it has.  Storing keeps this, so an entry that is fresh has the right output
  (`Cache.Right.made?_of_fresh`).
* **The report.**  `Tally`: what a report says of the files that are in it so far.  It holds of the
  files that are served or cannot be read (`tally_served`), and recording the outcomes of the others
  keeps it (`Tally.recordAll`).
* **Histories.**  `Workshop.BuiltBy`: any passes, in any order of their tasks and with any end.
* **Endpoint.**  `files_accounted_for`.
-/

namespace Rebuild

section

variable {compile : Path → String → Verdict} {known : Set ByteArray} {tree : FileTree} {p : Path}

/-! ## What the compiler makes of a file -/

namespace Compilation

/-- The output of a file as it is, if it has one. -/
def made? (compile : Path → String → Verdict) (tree : FileTree) (p : Path) : Option String :=
  match tree.readText p with
  | .ok content => output? (compile p content)
  | .error _ => none

/-- The file as it is cannot be read as a text, or the compiler refuses it or breaks down over it.
-/
def Fails (compile : Path → String → Verdict) (tree : FileTree) (p : Path) : Prop :=
  (∃ cause, tree.readText p = .error cause) ∨ ∃ content, tree.readText p = .ok content
    ∧ ((∃ message, compile p content = .refused message)
      ∨ ∃ message, compile p content = .crashed message)

lemma made?_of_readText {content : String} (h : tree.readText p = .ok content) :
    made? compile tree p = output? (compile p content) := by
  rw [made?, h]

lemma fails_iff : Fails compile tree p ↔ made? compile tree p = none := by
  rw [Fails]
  cases hread : tree.readText p with
  | error cause => simp [made?, hread]
  | ok content =>
      rw [made?_of_readText hread]
      cases hverdict : compile p content <;> simp [output?, hverdict]

lemma made?_eq_some_iff {output : String} : made? compile tree p = some output ↔
    ∃ content ds, tree.readText p = .ok content ∧ compile p content = .compiled output ds := by
  cases hread : tree.readText p with
  | error cause => simp [made?, hread]
  | ok content =>
      rw [made?_of_readText hread]
      cases hverdict : compile p content <;> simp [output?, hverdict]

end Compilation

/-! ## The cache -/

open Compilation

/-- Every entry has the output that the compiler makes of some known content, and the digest of that
content. -/
def Cache.Right (compile : Path → String → Verdict) (known : Set ByteArray) (c : Cache) : Prop :=
  ∀ (p : Path) (e : CacheEntry), p.normalize = p → c.entries[p]? = some e →
    ∃ bytes ∈ known, ∃ content, String.fromUTF8? bytes = some content
      ∧ Digest.ofBytes bytes = e.inputDigest ∧ output? (compile p content) = some e.output

namespace Cache.Right

variable {c c' : Cache}

lemma of_sameContent (h : c.Right compile known) (hsame : c.SameContent c') :
    c'.Right compile known := by
  intro p e hp hentry
  rw [hsame.entries] at hentry
  exact h p e hp hentry

/-- Storing the output of a file as it is. -/
lemma stored (h : c.Right compile known) (hwithin : Within known tree) {output : String}
    {ds : List Path} {metadata : Option Json} {e : CacheEntry}
    (hstored : c.Stored tree p output ds metadata c' e)
    (hmade : made? compile tree p = some output) : c'.Right compile known := by
  intro q e' hq hentry
  rw [hstored.entries q hq] at hentry
  split_ifs at hentry with hqp
  · cases hentry
    subst hqp
    obtain ⟨content, ds, hread, hverdict⟩ := made?_eq_some_iff.1 hmade
    obtain ⟨bytes, hbytes, hcontent⟩ := FileTree.readText_eq_ok_iff.1 hread
    obtain ⟨bytes', hbytes', hdigest⟩ := currentDigest?_eq_some_iff.1 hstored.now
    cases hbytes.symm.trans hbytes'
    refine ⟨bytes, hwithin q bytes hbytes, content, hcontent, hdigest, ?_⟩
    rw [hverdict, hstored.output_eq]
    rfl
  · exact h q e' hq hentry

/-- **A fresh entry has the output of the file as it is.** -/
lemma made?_of_fresh (h : c.Right compile known) (hknown : Set.InjOn Digest.ofBytes known)
    (hwithin : Within known tree) (hp : p.normalize = p) {e : CacheEntry}
    (hfresh : c.Fresh tree p e) : made? compile tree p = some e.output := by
  obtain ⟨bytes, hmem, content, hcontent, hdigest, houtput⟩ := h p e hp hfresh.entry
  obtain ⟨bytes', hread, hnow⟩ := currentDigest?_eq_some_iff.1 hfresh.now
  obtain rfl : bytes' = bytes := hknown (hwithin p _ hread) hmem (hnow.trans hdigest.symm)
  rw [made?_of_readText (FileTree.readText_eq_ok_iff.2 ⟨_, hread, hcontent⟩), houtput]

end Cache.Right

/-! ## The report -/

/-- The files of a report, as often as they are in it. -/
def CompileReport.listed (r : CompileReport) : List Path :=
  r.compiled ++ (r.cached ++ r.errors.map FileError.path)

namespace Compilation

/-- What a report says of these files: each is in one place, the outputs are those of the files that
did not fail, as they are, and the others have none. -/
structure Tally (compile : Path → String → Verdict) (tree : FileTree) (r : CompileReport)
    (files : List Path) : Prop where
  perm : r.listed.Perm files
  normal : ∀ p ∈ files, p.normalize = p
  keys : ∀ p, p ∈ r.outputs ↔ ∃ q ∈ r.succeeded, compare q p = .eq
  right : ∀ p ∈ r.succeeded, r.outputs[p]? = made? compile tree p
  failed : ∀ p ∈ r.errors.map FileError.path, made? compile tree p = none

namespace Tally

variable {r : CompileReport} {files : List Path}

lemma of_perm (h : Tally compile tree r files) {files' : List Path} (hperm : files.Perm files') :
    Tally compile tree r files' :=
  ⟨h.perm.trans hperm, fun p hp => h.normal p (hperm.mem_iff.2 hp), h.keys, h.right, h.failed⟩

lemma mem_files (h : Tally compile tree r files) {q : Path} (hq : q ∈ r.succeeded) : q ∈ files := by
  refine h.perm.mem_iff.1 ?_
  rw [CompileReport.listed, ← List.append_assoc]
  exact List.mem_append_left _ hq

/-- One more file that is compiled. -/
lemma addCompiled (h : Tally compile tree r files) (hp : p.normalize = p) (hnew : p ∉ files)
    {output : String} (hmade : made? compile tree p = some output) :
    Tally compile tree (r.addCompiled p output) (p :: files) := by
  have hsucceeded : ∀ q, q ∈ (r.addCompiled p output).succeeded ↔ q = p ∨ q ∈ r.succeeded := by
    intro q
    simp only [CompileReport.addCompiled, CompileReport.succeeded, List.mem_append,
      List.mem_singleton]
    tauto
  refine ⟨?_, ?_, fun q => ?_, fun q hq => ?_, h.failed⟩
  · have hperm : (p :: r.listed).Perm (p :: files) := h.perm.cons p
    refine List.Perm.trans ?_ hperm
    show (r.compiled ++ [p] ++ (r.cached ++ r.errors.map FileError.path)).Perm _
    rw [List.append_assoc]
    exact List.perm_middle
  · exact List.forall_mem_cons.2 ⟨hp, h.normal⟩
  · show q ∈ r.outputs.put p output ↔ _
    rw [PathMap.mem_put, h.keys q]
    simp [hsucceeded]
  · show (r.outputs.put p output)[q]? = _
    rcases (hsucceeded q).1 hq with rfl | hold
    · rw [PathMap.getElem?_put_self, hmade]
    · have hmem := h.mem_files hold
      have hne : compare p q ≠ .eq := by
        intro heq
        rw [Path.eq_of_compare hp (h.normal q hmem) heq] at hnew
        exact hnew hmem
      rw [PathMap.getElem?_put_of_ne _ _ hne, h.right q hold]

/-- One more file that fails. -/
lemma addError (h : Tally compile tree r files) (hp : p.normalize = p) (message : String)
    (hmade : made? compile tree p = none) :
    Tally compile tree (r.addError p message) (p :: files) := by
  refine ⟨?_, ?_, h.keys, h.right, fun q hq => ?_⟩
  · have hperm : (r.listed ++ [p]).Perm (p :: files) :=
      (List.perm_append_singleton p _).trans (h.perm.cons p)
    simpa [CompileReport.listed, CompileReport.addError] using hperm
  · exact List.forall_mem_cons.2 ⟨hp, h.normal⟩
  · simp only [CompileReport.addError, List.map_append, List.map_cons, List.map_nil,
      List.mem_append, List.mem_singleton] at hq
    rcases hq with hq | rfl
    · exact h.failed q hq
    · exact hmade

end Tally

/-! ## Serving and reading -/

lemma mem_serve {hits : List Hit} {m : PathMap String} :
    p ∈ hits.foldl (fun m h => m.put h.1 h.2.output) m ↔
      p ∈ m ∨ ∃ q ∈ hits.map Prod.fst, compare q p = .eq := by
  induction hits generalizing m with
  | nil => simp
  | cons h hits ih =>
      rw [List.foldl_cons, ih, PathMap.mem_put]
      simp only [List.map_cons, List.exists_mem_cons_iff]
      tauto

/-- Each file is a task or an error, not both. -/
lemma perm_read (sight : Sight) (fresh : String) (ps : List Path) :
    ((ps.filterMap (taskFor sight fresh)).map Task.path
      ++ (ps.filterMap (readFault sight)).map FileError.path).Perm ps := by
  induction ps with
  | nil => exact .refl _
  | cons p ps ih =>
      simp only [List.filterMap_cons, taskFor, readFault] at ih ⊢
      cases (sight (.read p)).readText p with
      | ok content => exact ih.cons p
      | error cause => exact List.perm_middle.trans (ih.cons p)

lemma made?_of_readFault {e : FileError} (h : readFault (fun _ => tree) p = some e) :
    e.path = p ∧ made? compile tree p = none := by
  rw [readFault] at h
  rw [made?]
  cases hread : tree.readText p with
  | ok content => simp [hread] at h
  | error cause =>
      simp only [hread, Option.some.injEq] at h
      subst h
      exact ⟨rfl, rfl⟩

/-- The files that are served and those that cannot be read. -/
lemma tally_served {d : Division} (hnormal : ∀ p ∈ d.hits.map Prod.fst ++ d.misses, p.normalize = p)
    (hnodup : (d.hits.map Prod.fst).Nodup)
    (hhits : ∀ p e, (p, e) ∈ d.hits → made? compile tree p = some e.output) :
    Tally compile tree (served (fun _ => tree) d) (d.hits.map Prod.fst
      ++ (d.misses.filterMap (readFault fun _ => tree)).map FileError.path) := by
  have hnormal_hits : ∀ h ∈ d.hits, h.1.normalize = h.1 := fun h hh =>
    hnormal _ (List.mem_append_left _ (List.mem_map.2 ⟨h, hh, rfl⟩))
  have hfault : ∀ p ∈ (d.misses.filterMap (readFault fun _ => tree)).map FileError.path,
      p ∈ d.misses ∧ made? compile tree p = none := by
    intro p hp
    obtain ⟨e, he, rfl⟩ := List.mem_map.1 hp
    obtain ⟨q, hq, hfault⟩ := List.mem_filterMap.1 he
    obtain ⟨hpath, hmade⟩ := made?_of_readFault hfault
    rw [hpath]
    exact ⟨hq, hmade⟩
  refine ⟨.refl _, fun p hp => ?_, fun p => ?_, fun p hp => ?_, fun p hp => (hfault p hp).2⟩
  · rcases List.mem_append.1 hp with hhit | hmiss
    · exact hnormal p (List.mem_append_left _ hhit)
    · exact hnormal p (List.mem_append_right _ (hfault p hmiss).1)
  · rw [served, mem_serve]
    simp [CompileReport.succeeded]
  · obtain ⟨⟨q, e⟩, hhit, rfl⟩ := List.mem_map.1 (show p ∈ d.hits.map Prod.fst from hp)
    rw [served, hhits q e hhit]
    exact outputs_of_mem hnormal_hits hnodup hhit ∅

/-! ## Recording -/

/-- The task has the content of its file as it is. -/
structure ReadFrom (tree : FileTree) (t : Task) : Prop where
  normal : t.path.normalize = t.path
  content : tree.readText t.path = .ok t.content

variable {c c' : Cache} {r r' : CompileReport} {now : Timestamp}

/-- The outcome of a task is stored if the compiler has an output for its file, and otherwise it is
an error. -/
lemma record_of_readFrom {t : Task} (ht : ReadFrom tree t) {outcome : Outcome}
    (hanswers : Answers (compilerOf compile) t outcome)
    (h : record (fun _ => tree) now (c, r) t.path outcome = .ok (c', r')) :
    (∃ output ds metadata e, made? compile tree t.path = some output
      ∧ c.Stored tree t.path output ds metadata c' e ∧ r' = r.addCompiled t.path output)
    ∨ (made? compile tree t.path = none ∧ c' = c ∧ ∃ m, r' = r.addError t.path m) := by
  have hmade : made? compile tree t.path = output? (compilerOf compile t) :=
    made?_of_readText ht.content
  rcases record_ok hanswers h with
    ⟨output, reported, metadata, hverdict, -, hstore, rfl⟩ | ⟨rfl, ⟨m, rfl⟩, hunread⟩
  · obtain ⟨e, hstored⟩ := Cache.exists_stored hstore
    rw [ht.normal] at hstored
    rw [hverdict] at hmade
    exact Or.inl ⟨output, _, _, e, hmade, hstored, rfl⟩
  · refine Or.inr ⟨?_, rfl, m, rfl⟩
    cases hverdict : compilerOf compile t with
    | refused message =>
        rw [hmade, hverdict]
        rfl
    | crashed message =>
        rw [hmade, hverdict]
        rfl
    | compiled output ds =>
        -- The file can be read, so that its output would have been stored.
        obtain ⟨bytes, hbytes, -⟩ := FileTree.readText_eq_ok_iff.1 ht.content
        have hdigest : Cache.currentDigest? tree t.path = some (Digest.ofBytes bytes) :=
          Cache.currentDigest?_eq_some_iff.2 ⟨bytes, hbytes, rfl⟩
        cases hanswers with
        | turnedAway e he => simp [record, he] at h
        | concluded hconcludes =>
            rw [hverdict] at hconcludes
            cases hconcludes
            have hnone := hunread _ rfl rfl
            rw [ht.normal] at hnone
            cases hnone.symm.trans hdigest

/-- Recording keeps every entry right, whether or not it comes to its end. -/
lemma right_recordAll (hwithin : Within known tree) {tasks : List Task} {outcomes : List Outcome}
    (hanswers : List.Forall₂ (Answers (compilerOf compile)) tasks outcomes)
    (hread : ∀ t ∈ tasks, ReadFrom tree t) (h : c.Right compile known) :
    (recordAll (fun _ => tree) now (c, r) ((tasks.map Task.path).zip outcomes)).1.Right compile
      known := by
  induction hanswers generalizing c r with
  | nil => exact h
  | @cons t outcome tasks outcomes hanswer _ ih =>
      have hrest := fun u hu => hread u (List.mem_cons_of_mem _ hu)
      rw [List.map_cons, List.zip_cons_cons, recordAll]
      cases hrecord : record (fun _ => tree) now (c, r) t.path outcome with
      | error e => exact h
      | ok next =>
          rcases record_of_readFrom (hread t List.mem_cons_self) hanswer hrecord with
            ⟨output, ds, metadata, e, hmade, hstored, -⟩ | ⟨-, hsame, -⟩
          · exact ih hrest (h.stored hwithin hstored hmade)
          · exact ih hrest (hsame ▸ h)

/-- Recording puts the file of every task in its place. -/
lemma Tally.recordAll {files : List Path} {tasks : List Task} {outcomes : List Outcome}
    (h : Tally compile tree r files)
    (hanswers : List.Forall₂ (Answers (compilerOf compile)) tasks outcomes)
    (hread : ∀ t ∈ tasks, ReadFrom tree t) (hnodup : (tasks.map Task.path ++ files).Nodup)
    (hok : (recordAll (fun _ => tree) now (c, r) ((tasks.map Task.path).zip outcomes)).2 = .ok r') :
    Tally compile tree r' (tasks.map Task.path ++ files) := by
  induction hanswers generalizing c r files with
  | nil =>
      cases hok
      exact h
  | @cons t outcome tasks outcomes hanswer _ ih =>
      have ht := hread t List.mem_cons_self
      have hrest := fun u hu => hread u (List.mem_cons_of_mem _ hu)
      obtain ⟨hnew, hnodup'⟩ := List.nodup_cons.1 hnodup
      -- The file moves from those to come to those that are in the report.
      have hperm : (tasks.map Task.path ++ t.path :: files).Perm
          (t.path :: (tasks.map Task.path ++ files)) := List.perm_middle
      rw [List.map_cons, List.zip_cons_cons, Compilation.recordAll] at hok
      cases hrecord : record (fun _ => tree) now (c, r) t.path outcome with
      | error e =>
          rw [hrecord] at hok
          cases hok
      | ok next =>
          rw [hrecord] at hok
          refine (ih ?_ hrest (hperm.nodup_iff.2 hnodup) hok).of_perm hperm
          rcases record_of_readFrom ht hanswer hrecord with
            ⟨output, ds, metadata, e, hmade, -, hreport⟩ | ⟨hmade, -, m, hreport⟩
          · rw [hreport]
            exact h.addCompiled ht.normal (fun hold => hnew (List.mem_append_right _ hold)) hmade
          · rw [hreport]
            exact h.addError ht.normal m hmade

/-! ## Passes -/

variable {s : Surroundings} {options : CompileOptions} {w w' : Workshop} {files : List Path}
  {result : Except BuildError CompileReport} {report : CompileReport}

lemma normalize_of_mem_divided {sight : Sight}
    (h : p ∈ (divided sight options.force w.cache files).hits.map Prod.fst
      ++ (divided sight options.force w.cache files).misses) : p.normalize = p :=
  normalize_of_mem_inputs ((perm_divided sight options.force w.cache files).mem_iff.1 h)

lemma readFrom_of_mem_passTasks {t : Task}
    (h : t ∈ passTasks s (fun _ => tree) options w files) : ReadFrom tree t := by
  obtain ⟨p, hp, htask⟩ := List.mem_filterMap.1 h
  have hpath := path_of_taskFor htask
  subst hpath
  refine ⟨normalize_of_mem_divided (List.mem_append_right _ hp), ?_⟩
  rw [taskFor] at htask
  cases hread : tree.readText t.path with
  | error cause => simp [hread] at htask
  | ok content =>
      simp only [hread, Option.some.injEq] at htask
      rw [← htask]

/-- The report before the tasks are run. -/
lemma tally_served_divided (hcache : w.cache.Right compile known)
    (hknown : Set.InjOn Digest.ofBytes known) (hwithin : Within known tree) :
    Tally compile tree
      (served (fun _ => tree) (divided (fun _ => tree) options.force w.cache files))
      ((divided (fun _ => tree) options.force w.cache files).hits.map Prod.fst
        ++ ((divided (fun _ => tree) options.force w.cache files).misses.filterMap
          (readFault fun _ => tree)).map FileError.path) := by
  have hperm := perm_divided (fun _ => tree) options.force w.cache files
  refine tally_served (fun p hp => normalize_of_mem_divided hp)
    (List.nodup_append.1 (hperm.nodup_iff.2 (nodup_inputs files))).1 fun p e hhit => ?_
  obtain ⟨hp, hanswer⟩ := answerFor_of_hit hhit
  have hnormal := normalize_of_mem_inputs hp
  rw [answerFor] at hanswer
  split_ifs at hanswer
  have hfresh := Cache.fresh?_eq_some_iff.1 hanswer
  rw [hnormal] at hfresh
  exact hcache.made?_of_fresh hknown hwithin hnormal hfresh

/-- A pass keeps the pool sound and every entry right, however it ends. -/
lemma right_of_ends (hpool : w.pool.Sound) (hcache : w.cache.Right compile known)
    (hcompiler : s.compiler = compilerOf compile) (hwithin : Within known tree)
    (hends : Ends s (fun _ => tree) options w files tree w' result) :
    w'.pool.Sound ∧ w'.cache.Right compile known := by
  obtain ⟨f, hsteps, hended, rfl, -⟩ := hends
  have hcarries := (carries_flight hpool).steps hsteps
  have hanswers := hcarries.answers hended
  rw [hcompiler] at hanswers
  refine ⟨hcarries.sound, right_recordAll hwithin hanswers (fun t => readFrom_of_mem_passTasks) ?_⟩
  exact hcache.of_sameContent (divide_fst _ _ _ _)

/-- **One pass** that ends well puts each of its files in one place. -/
lemma tally_of_ends (hpool : w.pool.Sound) (hcache : w.cache.Right compile known)
    (hknown : Set.InjOn Digest.ofBytes known) (hcompiler : s.compiler = compilerOf compile)
    (hwithin : Within known tree)
    (hends : Ends s (fun _ => tree) options w files tree w' (.ok report)) :
    Tally compile tree report (inputs files) := by
  obtain ⟨f, hsteps, hended, rfl, hresult⟩ := hends
  have hanswers := ((carries_flight hpool).steps hsteps).answers hended
  rw [hcompiler] at hanswers
  -- The tasks, the served files and those that cannot be read are all the files.
  have hread := perm_read (fun _ => tree) s.fresh
    (divided (fun _ => tree) options.force w.cache files).misses
  have hperm := ((List.perm_append_comm_assoc _ _ _).trans (hread.append_left _)).trans
    (perm_divided (fun _ => tree) options.force w.cache files)
  refine Tally.of_perm (Tally.recordAll (tally_served_divided hcache hknown hwithin) hanswers
    (fun t => readFrom_of_mem_passTasks) ?_ (eq_of_saveResult hresult)) hperm
  exact hperm.nodup_iff.2 (nodup_inputs files)

end Compilation

/-! ## Histories -/

/-- What passes make of a workshop with a cold cache.  Each finds the files as others have left
them, and nobody edits them before it ends; its tasks come to their end in any order, and it may
fail.  Between two passes the pool may be another one. -/
inductive Workshop.BuiltBy (compile : Path → String → Verdict) (known : Set ByteArray) :
    Workshop → Prop where
  | cold {size capacity : Nat} {pool : Pool} (directory : Path) (concurrency : Nat)
      (hpool : Pool.start size capacity = .ok pool) :
      BuiltBy compile known { cache := { directory }, pool, concurrency }
  | pool {w : Workshop} {pool : Pool} (hsound : pool.Sound) (h : BuiltBy compile known w) :
      BuiltBy compile known { w with pool }
  | pass {w w' : Workshop} {s : Surroundings} {options : CompileOptions} {files : List Path}
      {tree : FileTree} {result : Except BuildError CompileReport} (h : BuiltBy compile known w)
      (hcompiler : s.compiler = compilerOf compile) (hwithin : Within known tree)
      (hends : Ends s (fun _ => tree) options w files tree w' result) : BuiltBy compile known w'

/-- **After any passes** the pool is sound and every entry is right. -/
lemma Workshop.BuiltBy.right {w : Workshop} (h : w.BuiltBy compile known) :
    w.pool.Sound ∧ w.cache.Right compile known := by
  induction h with
  | cold directory concurrency hpool =>
      refine ⟨Pool.sound_start hpool, fun p e _ hentry => ?_⟩
      simp at hentry
  | pool hsound _ ih => exact ⟨hsound, ih.2⟩
  | pass _ hcompiler hwithin hends ih => exact right_of_ends ih.1 ih.2 hcompiler hwithin hends

namespace Compilation

/-- Each file of a pass is in one place of the report, once, and no other file is.  The outputs are
those of the files that did not fail, and each is what the compiler makes of its file as it is.  The
errors are about the files that fail. -/
structure Accounts (compile : Path → String → Verdict) (tree : FileTree) (files : List Path)
    (report : CompileReport) : Prop where
  once : (report.compiled ++ (report.cached ++ report.errors.map FileError.path)).Nodup
  all : ∀ p, p ∈ report.compiled ++ (report.cached ++ report.errors.map FileError.path) ↔
    p ∈ files.map Path.normalize
  keys : ∀ p, p ∈ report.outputs ↔ ∃ q ∈ report.compiled ++ report.cached, compare q p = .eq
  right : ∀ p ∈ report.compiled ++ report.cached, ∃ content output ds,
    tree.readText p = .ok content ∧ compile p content = .compiled output ds
      ∧ report.outputs[p]? = some output
  errors : ∀ p, p ∈ report.errors.map FileError.path ↔
    p ∈ files.map Path.normalize ∧ Fails compile tree p

lemma Tally.accounts {files : List Path} {report : CompileReport}
    (h : Tally compile tree report (inputs files)) : Accounts compile tree files report := by
  have hmem : ∀ p, p ∈ report.listed ↔ p ∈ files.map Path.normalize :=
    fun p => h.perm.mem_iff.trans mem_inputs
  have hright : ∀ p ∈ report.succeeded, ∃ output, made? compile tree p = some output
      ∧ report.outputs[p]? = some output := by
    intro p hp
    have hkey := (h.keys p).2 ⟨p, hp, Path.compare_self p⟩
    obtain ⟨output, houtput⟩ :=
      Option.isSome_iff_exists.1 (Std.TreeMap.mem_iff_isSome_getElem?.1 hkey)
    exact ⟨output, (h.right p hp).symm.trans houtput, houtput⟩
  refine ⟨h.perm.nodup_iff.2 (nodup_inputs files), hmem, h.keys, fun p hp => ?_, fun p => ?_⟩
  · obtain ⟨output, hmade, houtput⟩ := hright p hp
    obtain ⟨content, ds, hread, hverdict⟩ := made?_eq_some_iff.1 hmade
    exact ⟨content, output, ds, hread, hverdict, houtput⟩
  · rw [fails_iff, ← hmem, CompileReport.listed, ← List.append_assoc]
    constructor
    · intro hp
      exact ⟨List.mem_append_right _ hp, h.failed p hp⟩
    · rintro ⟨hp, hnone⟩
      refine (List.mem_append.1 hp).resolve_left fun hsucceeded => ?_
      obtain ⟨output, hmade, -⟩ := hright p hsucceeded
      cases hnone.symm.trans hmade

/-- **Every file of a pass is accounted for.**  After any passes over one cache, a pass that ends
well puts each of its files in one place of its report, and serves or compiles what is right for the
file as it is. -/
theorem files_accounted_for {s : Surroundings} {options : CompileOptions} {w w' : Workshop}
    {files : List Path} {report : CompileReport} (hknown : Set.InjOn Digest.ofBytes known)
    (hw : w.BuiltBy compile known) (hcompiler : s.compiler = compilerOf compile)
    (hwithin : Within known tree)
    (hends : Ends s (fun _ => tree) options w files tree w' (.ok report)) :
    Accounts compile tree files report :=
  (tally_of_ends hw.right.1 hw.right.2 hknown hcompiler hwithin hends).accounts

end Compilation
end

/-! ## A pass with a file of each kind

Of `a` and `b`, `b` is refused at first and then edited.  The second pass finds `a` as it was,
compiles `b`, breaks down over `c`, and does not find `d`. -/

namespace Compilation
namespace Mixed

/-- The output is the content, of which two are special. -/
def compile (_ : Path) (content : String) : Verdict :=
  if content = "refuse" then .refused "refused"
  else if content = "crash" then .crashed none
  else .compiled content []

/-- All contents of the files. -/
def known : Set ByteArray := bytesOf ["1", "2", "refuse", "crash"]

def tree : FileTree := .ofTexts [("a", "1"), ("b", "refuse"), ("c", "crash")]

/-- After `b` is edited. -/
def edited : FileTree := .ofTexts [("a", "1"), ("b", "2"), ("c", "crash")]

def surroundings : Surroundings where
  compiler := compilerOf compile
  now := ⟨"2024-01-02T03:04:05Z"⟩
  fresh := "0"

def cold : Workshop where
  cache := { directory := ⟨"cache"⟩ }
  pool := { size := 1, capacity := 4, workers := [{ id := 0 }], nextWorker := 1 }
  concurrency := 2

/-- After a pass over `a` and `b`. -/
def warm : Workshop := (runAndSave surroundings {} tree cold [⟨"a"⟩, ⟨"b"⟩]).2.1

/-- The files of the second pass, `a` in two spellings. -/
def files : List Path := [⟨"./a"⟩, ⟨"b"⟩, ⟨"c"⟩, ⟨"a"⟩, ⟨"d"⟩]

/-- The second pass. -/
def second : FileTree × Workshop × Except BuildError CompileReport :=
  runAndSave surroundings {} edited warm files

lemma injOn_known : Set.InjOn Digest.ofBytes known := injOn_bytesOf (by decide +kernel)

lemma within_known {texts : List (String × String)}
    (h : ∀ f ∈ texts, f.2 ∈ ["1", "2", "refuse", "crash"]) : Within known (.ofTexts texts) :=
  FileTree.within_ofTexts fun f hf => mem_bytesOf (h f hf)

lemma builtBy_cold : cold.BuiltBy compile known := by
  have hpool : Pool.start 1 4 = .ok cold.pool := rfl
  exact .cold ⟨"cache"⟩ 2 hpool

lemma builtBy_warm : warm.BuiltBy compile known :=
  .pass builtBy_cold rfl (within_known (by simp)) (ends_runAndSave builtBy_cold.right.1)

lemma ends_second :
    Ends surroundings (fun _ => edited) {} warm files edited second.2.1 second.2.2 :=
  ends_runAndSave builtBy_warm.right.1

lemma evaluated : second.2.2.toOption.map
    (fun r => (r.compiled, r.cached, r.errors.map FileError.path))
      = some ([⟨"b"⟩], [⟨"a"⟩], [⟨"d"⟩, ⟨"c"⟩]) := by
  decide +kernel

end Mixed

/-- The second pass compiles one file, serves one and fails with two. -/
theorem files_accounted_for_mixed : ∃ w' report,
    Ends Mixed.surroundings (fun _ => Mixed.edited) {} Mixed.warm Mixed.files Mixed.edited w'
        (.ok report)
      ∧ report.compiled = [⟨"b"⟩] ∧ report.cached = [⟨"a"⟩]
      ∧ report.errors.map FileError.path = [⟨"d"⟩, ⟨"c"⟩]
      ∧ Accounts Mixed.compile Mixed.edited Mixed.files report := by
  have hends := Mixed.ends_second
  have hreport := Mixed.evaluated
  cases hresult : Mixed.second.2.2 with
  | error e =>
      rw [hresult] at hreport
      cases hreport
  | ok report =>
      rw [hresult] at hends hreport
      simp only [Except.toOption, Option.map_some, Option.some.injEq, Prod.mk.injEq] at hreport
      obtain ⟨hcompiled, hcached, herrors⟩ := hreport
      exact ⟨_, report, hends, hcompiled, hcached, herrors,
        files_accounted_for Mixed.injOn_known Mixed.builtBy_warm rfl (Mixed.within_known (by simp))
          hends⟩

end Compilation
end Rebuild
