import Mathlib.Data.List.Nodup
import EmbeddedSql.Proofs.Files.Destination
import EmbeddedSql.Proofs.Run.Schedule

namespace EmbeddedSql

namespace Node

inductive Proper : Node → Prop
  | file (content : Content) : Proper (.file content)
  | directory {es : List (Text × Node)} (nodup : (es.map Prod.fst).Nodup)
      (names : ∀ e ∈ es, IsEntryName e.1) (children : ∀ e ∈ es, Proper e.2) :
      Proper (.directory es)

theorem lookup_of_mem {es : List (Text × Node)} (hnodup : (es.map Prod.fst).Nodup) {name : Text}
    {node : Node} (h : (name, node) ∈ es) : es.lookup name = some node := by
  induction es with
  | nil => cases h
  | cons e es ih =>
      obtain ⟨other, child⟩ := e
      obtain ⟨hfirst, hnodup⟩ := List.nodup_cons.1 hnodup
      rcases List.mem_cons.1 h with hhere | hlater
      · obtain ⟨rfl, rfl⟩ := Prod.mk.inj hhere
        exact List.lookup_cons_self
      · have hne : (name == other) = false := by
          refine beq_eq_false_iff_ne.2 ?_
          rintro rfl
          exact hfirst (List.mem_map.2 ⟨(name, node), hlater, rfl⟩)
        rw [List.lookup_cons, hne]
        exact ih hnodup hlater

theorem mem_of_lookup {es : List (Text × Node)} {name : Text} {node : Node}
    (h : es.lookup name = some node) : (name, node) ∈ es := by
  obtain ⟨front, back, rfl, -⟩ := List.lookup_eq_some_iff.1 h
  simp

theorem Proper.find? {n m : Node} {l : Location} (h : n.Proper) (hfind : n.find? l = some m) :
    m.Proper := by
  induction l generalizing n with
  | nil =>
      obtain rfl := Option.some.inj hfind
      exact h
  | cons name l ih =>
      obtain ⟨child, hchild, hrest⟩ := Option.bind_eq_some_iff.1 hfind
      cases h with
      | file content => cases hchild
      | directory nodup names children => exact ih (children _ (mem_of_lookup hchild)) hrest

end Node

structure FileSystem.Leads (fs : FileSystem) (path p : Path) : Prop where
  spelling : path.spelling ≠ []
  located : ∃ l content, fs.locate? p = some l ∧ fs.root.find? l = some (.file content)
  components : ∃ names, p.components = path.components ++ List.map .name names

section

variable {fs : FileSystem} {excluded : Path → Bool}

mutual

theorem Node.sources_leads {path : Path} {l : Location} (hl : fs.locate? path = some l) :
    ∀ n : Node, n.Proper → fs.root.find? l = some n →
      ∀ p ∈ n.sources excluded path, fs.Leads path p
  | .file content => by
      intro _ hnode p hp
      simp only [Node.sources] at hp
      split at hp
      · obtain rfl : p = path := by simpa using hp
        exact ⟨FileSystem.spelling_ne_nil_of_locate? hl, ⟨l, content, hl, hnode⟩, [], by simp⟩
      · cases hp
  | .directory es => by
      intro hproper hnode p hp
      simp only [Node.sources] at hp
      split at hp
      · cases hp
      · exact entrySources_leads hl hnode hproper es (fun _ => id) p hp

theorem entrySources_leads {path : Path} {l : Location} {es : List (Text × Node)}
    (hl : fs.locate? path = some l) (hnode : fs.root.find? l = some (.directory es))
    (hproper : (Node.directory es).Proper) :
    ∀ rest : List (Text × Node), (∀ e ∈ rest, e ∈ es) →
      ∀ p ∈ entrySources excluded path rest, fs.Leads path p
  | [], _ => by simp [entrySources]
  | (name, node) :: rest, hrest => by
      intro p hp
      simp only [entrySources] at hp
      rcases List.mem_append.1 hp with hp | hp
      · split at hp
        · cases hp
        · obtain _ | ⟨nodup, names, children⟩ := hproper
          have hmem := hrest (name, node) (by simp)
          have hname := names _ hmem
          obtain ⟨hjoin, hchild⟩ :=
            FileSystem.locate?_join hl hnode hname (Node.lookup_of_mem nodup hmem)
          obtain ⟨-, hlocated, below, hbelow⟩ :=
            node.sources_leads hjoin (children _ hmem) hchild p hp
          have hspelling := FileSystem.spelling_ne_nil_of_locate? hl
          refine ⟨hspelling, hlocated, name :: below, ?_⟩
          rw [hbelow, Path.components_join hspelling hname]
          simp
      · exact entrySources_leads hl hnode hproper rest (fun e he => hrest e (by simp [he])) p hp

end

end

theorem inputSources_leads {fs : FileSystem} {excluded : Path → Bool} {input p : Path}
    (hproper : fs.root.Proper) (h : p ∈ inputSources fs excluded input) :
    ∃ path ∈ inputPaths fs input, fs.Leads path p := by
  obtain ⟨path, hpath, hsource⟩ := List.mem_flatMap.1 h
  refine ⟨path, hpath, ?_⟩
  cases hl : fs.locate? path with
  | none => simp [FileSystem.node?, hl] at hsource
  | some l =>
      cases hn : fs.root.find? l with
      | none => simp [FileSystem.node?, hl, hn] at hsource
      | some n =>
          have hp : p ∈ n.sources excluded path := by
            simpa [FileSystem.node?, hl, hn] using hsource
          exact n.sources_leads hl (hproper.find? hn) hn p hp

namespace FileSystem

variable {fs : FileSystem} {path p : Path} {paths : List Path}

namespace Leads

theorem locate? (h : fs.Leads path p) :
    fs.locate? p = some (p.destination fs.workingDirectory) := by
  obtain ⟨l, content, hl, -⟩ := h.located
  rw [hl, eq_destination_of_locate? hl]

theorem isFile (h : fs.Leads path p) : fs.isFile p = true := by
  obtain ⟨l, content, hl, hfile⟩ := h.located
  simp [FileSystem.isFile, node?, hl, hfile, Node.isDirectory]

theorem noParent (h : fs.Leads path p) (hpath : .parent ∉ path.components) :
    .parent ∉ p.components := by
  obtain ⟨names, hnames⟩ := h.components
  simp [hnames, hpath]

theorem head? (h : fs.Leads path p) : p.components.head? = path.components.head? := by
  obtain ⟨names, hnames⟩ := h.components
  obtain ⟨first, later, hfirst⟩ := Path.exists_components h.spelling
  simp [hnames, hfirst]

end Leads

theorem distinct_iff_destination (hpaths : Path.Increasing paths)
    (hlocated : ∀ p ∈ paths, fs.locate? p = some (p.destination fs.workingDirectory)) :
    fs.Distinct paths ↔ ∀ p ∈ paths, ∀ q ∈ paths,
      p.destination fs.workingDirectory = q.destination fs.workingDirectory →
        p.components = q.components := by
  constructor
  · intro hdistinct p hp q hq hsame
    by_contra hne
    refine hdistinct.ne hp hq (fun hpq => hne (congrArg Path.components hpq)) ?_
    rw [hlocated p hp, hlocated q hq, hsame]
  · intro hinjective
    refine List.Pairwise.imp_of_mem ?_ hpaths
    intro p q hp hq hlt hsame
    rw [hlocated p hp, hlocated q hq] at hsame
    exact Path.components_ne_of_compare_lt hlt (hinjective p hp q hq (Option.some.inj hsame))

theorem distinct_iff_countP (hlocated : ∀ p ∈ paths, (fs.locate? p).isSome = true) :
    fs.Distinct paths ↔ ∀ l, paths.countP (fun p => fs.locate? p = some l) ≤ 1 := by
  have hcount : ∀ place, (paths.map fs.locate?).count place =
      paths.countP fun p => fs.locate? p = place := by
    intro place
    rw [List.count, List.countP_map]
    refine List.countP_congr ?_
    simp
  have hnodup : fs.Distinct paths ↔ ∀ place, (paths.map fs.locate?).count place ≤ 1 :=
    List.pairwise_map.symm.trans List.nodup_iff_count_le_one
  simp only [hnodup, hcount]
  refine ⟨fun h l => h (some l), ?_⟩
  intro h place
  cases place with
  | some l => exact h l
  | none =>
      -- The count says nothing about paths that lead nowhere, and there are none.
      have hnone : paths.countP (fun p => fs.locate? p = none) = 0 := by
        refine List.countP_eq_zero.2 ?_
        intro p hp
        have hsome := hlocated p hp
        cases hl : fs.locate? p with
        | none => simp [hl] at hsome
        | some l => simp
      omega

end FileSystem

theorem formatFiles_paths (v : Vocabulary) (s : Settings) (fs : FileSystem) (paths : List Path) :
    (formatFiles v s fs paths).report.results.map FileResult.path = paths := by
  induction paths using List.reverseRecOn with
  | nil => rfl
  | append_singleton paths p ih =>
      rw [formatFiles_concat]
      dsimp only [Report.add]
      rw [List.map_append, ih, List.map_singleton, formatFile_path]

structure Path.Uniform (paths : List Path) : Prop where
  noParent : ∀ p ∈ paths, .parent ∉ p.components
  start : ∀ p ∈ paths, ∀ q ∈ paths,
    p.components.head?.map Component.rank = q.components.head?.map Component.rank

theorem Path.Uniform.components_eq {fs : FileSystem} {inputs : List Path} {path path' p q : Path}
    (h : Path.Uniform inputs) (hpath : path ∈ inputs) (hpath' : path' ∈ inputs)
    (hp : fs.Leads path p) (hq : fs.Leads path' q)
    (hsame : p.destination fs.workingDirectory = q.destination fs.workingDirectory) :
    p.components = q.components := by
  refine Path.components_eq_of_destination_eq (FileSystem.spelling_ne_nil_of_locate? hp.locate?)
    (FileSystem.spelling_ne_nil_of_locate? hq.locate?) (hp.noParent (h.noParent path hpath))
    (hq.noParent (h.noParent path' hpath')) ?_ hsame
  rw [hp.head?, hq.head?]
  exact h.start path hpath path' hpath'

theorem run_handles_once_iff (s : Settings) (fs : FileSystem) (inputs : List Path) {v : Vocabulary}
    {patterns : List (List Glob)} (hproper : fs.root.Proper) (hv : s.vocabulary = .ok v)
    (hpatterns : excludePatterns s.exclude = .ok patterns) :
    ∃ paths outcome, matchingPaths fs s inputs = .ok paths ∧ run s fs inputs = .ok outcome ∧
      outcome.report.results.map FileResult.path = paths ∧ Path.Increasing paths ∧
      (∀ p ∈ paths, fs.isFile p = true ∧
        fs.locate? p = some (p.destination fs.workingDirectory)) ∧
      (∀ input ∈ inputs, ∀ p ∈ inputSources fs (isExcluded patterns) input,
        ∃ q ∈ paths, fs.locate? q = fs.locate? p) ∧
      (fs.Distinct paths ↔
        ∀ l, outcome.report.results.countP (fun r => fs.locate? r.path = some l) ≤ 1) ∧
      (fs.Distinct paths ↔ ∀ p ∈ paths, ∀ q ∈ paths,
        p.destination fs.workingDirectory = q.destination fs.workingDirectory →
          p.components = q.components) ∧
      (Path.Uniform (inputs.flatMap (inputPaths fs)) → fs.Distinct paths) := by
  obtain ⟨paths, hpaths⟩ := exists_matchingPaths fs inputs hpatterns
  obtain ⟨patterns', hpatterns', hincreasing, hsound, hcomplete⟩ := exists_of_matchingPaths hpaths
  obtain rfl : patterns = patterns' := Except.ok.inj (hpatterns.symm.trans hpatterns')
  have hleads : ∀ p ∈ paths, ∃ path ∈ inputs.flatMap (inputPaths fs), fs.Leads path p := by
    intro p hp
    obtain ⟨input, hinput, hsource⟩ := hsound p hp
    obtain ⟨path, hpath, hlead⟩ := inputSources_leads hproper hsource
    exact ⟨path, List.mem_flatMap.2 ⟨input, hinput, hpath⟩, hlead⟩
  have hlocated : ∀ p ∈ paths, fs.locate? p = some (p.destination fs.workingDirectory) := by
    intro p hp
    obtain ⟨path, -, hlead⟩ := hleads p hp
    exact hlead.locate?
  have hresults := formatFiles_paths v s fs paths
  have hdestination := FileSystem.distinct_iff_destination hincreasing hlocated
  refine ⟨paths, formatFiles v s fs paths, hpaths, ?_, hresults, hincreasing, ?_, ?_, ?_,
    hdestination, ?_⟩
  · simp [run, hv, hpaths, bind, Except.bind, pure, Except.pure]
  · intro p hp
    obtain ⟨path, -, hlead⟩ := hleads p hp
    exact ⟨hlead.isFile, hlead.locate?⟩
  · intro input hinput p hp
    obtain ⟨q, hq, hcomponents⟩ := hcomplete input hinput p hp
    obtain ⟨path, -, hlead⟩ := inputSources_leads hproper hp
    refine ⟨q, hq, ?_⟩
    rw [hlocated q hq, hlead.locate?, Path.destination, hcomponents, Path.destination]
  · rw [FileSystem.distinct_iff_countP fun p hp => by rw [hlocated p hp, Option.isSome_some]]
    nth_rewrite 1 [← hresults]
    simp only [List.countP_map, Function.comp_def]
  · intro huniform
    refine hdestination.2 ?_
    intro p hp q hq hsame
    obtain ⟨path, hpath, hlead⟩ := hleads p hp
    obtain ⟨path', hpath', hlead'⟩ := hleads q hq
    exact huniform.components_eq hpath hpath' hlead hlead' hsame

theorem run_handles_once_iff_nested :
    let fs : FileSystem :=
      { root := .directory
          [(['a', '.', 'p', 'y'], .file (.text "sql = 'select 1'".toList)),
            (['d'], .directory [(['b', '.', 'j', 's'], .file (.text "f()".toList))])] }
    ∃ outcome, run {} fs [⟨['d']⟩, ⟨['a', '.', 'p', 'y']⟩, ⟨['d', '/', 'b', '.', 'j', 's']⟩] =
        .ok outcome ∧
      ∀ l, outcome.report.results.countP (fun r => fs.locate? r.path = some l) ≤ 1 := by
  intro fs
  have hbelow : Node.Proper (.directory [(['b', '.', 'j', 's'], .file (.text "f()".toList))]) :=
    .directory (by decide) (by decide) (List.forall_mem_singleton.2 (.file _))
  have hproper : fs.root.Proper := .directory (by decide) (by decide)
    (List.forall_mem_cons.2 ⟨.file _, List.forall_mem_singleton.2 hbelow⟩)
  obtain ⟨paths, outcome, -, hrun, -, -, -, -, hcount, -, huniform⟩ := run_handles_once_iff {} fs
    [⟨['d']⟩, ⟨['a', '.', 'p', 'y']⟩, ⟨['d', '/', 'b', '.', 'j', 's']⟩] hproper rfl rfl
  refine ⟨outcome, hrun, hcount.1 (huniform ⟨?_, ?_⟩)⟩
  · decide +kernel
  · decide +kernel

theorem run_handles_twice :
    let fs : FileSystem :=
      { root := .directory [(['a', '.', 'p', 'y'], .file (.text "sql = 'select 1'".toList))] }
    fs.root.Proper ∧
      ∃ outcome, run {} fs [⟨['a', '.', 'p', 'y']⟩, ⟨['.', '/', 'a', '.', 'p', 'y']⟩] =
          .ok outcome ∧
        outcome.report.results.map (fun r => fs.locate? r.path) =
          [some [['a', '.', 'p', 'y']], some [['a', '.', 'p', 'y']]] ∧
        outcome.report.summary = "2 file(s) processed, 1 reformatted, 1 unchanged" := by
  intro fs
  have hproper : fs.root.Proper :=
    .directory (by decide) (by decide) (List.forall_mem_singleton.2 (.file _))
  refine ⟨hproper, _, rfl, ?_, ?_⟩
  · decide +kernel
  · decide +kernel

end EmbeddedSql
