import Mathlib.Data.List.Induction
import Mathlib.Data.List.Pairwise
import Mathlib.Data.List.Perm.Basic
import EmbeddedSql.Proofs.Files.Order
import EmbeddedSql.Proofs.Files.Writing
import EmbeddedSql.Run

namespace EmbeddedSql

section

variable {excluded : Path → Bool}

mutual

theorem Node.sources_language (path : Path) :
    ∀ n : Node, ∀ p ∈ n.sources excluded path, p.language?.isSome = true
  | .file _ => by
      intro p hp
      simp only [Node.sources] at hp
      split at hp
      next h =>
        obtain rfl : p = path := by simpa using hp
        exact (Bool.and_eq_true_iff.1 h).2
      · cases hp
  | .directory es => by
      intro p hp
      simp only [Node.sources] at hp
      split at hp
      · cases hp
      · exact entrySources_language path es p hp

theorem entrySources_language (directory : Path) :
    ∀ es : List (Text × Node), ∀ p ∈ entrySources excluded directory es,
      p.language?.isSome = true
  | [] => by simp [entrySources]
  | (name, node) :: rest => by
      intro p hp
      simp only [entrySources] at hp
      rcases List.mem_append.1 hp with hp | hp
      · split at hp
        · cases hp
        · exact node.sources_language (directory.join name) p hp
      · exact entrySources_language directory rest p hp

end

end

theorem matchingPaths_language {fs : FileSystem} {s : Settings} {inputs paths : List Path}
    (h : matchingPaths fs s inputs = .ok paths) :
    ∀ p ∈ paths, ∃ language, p.language? = some language := by
  obtain ⟨patterns, -, -, hpaths, -⟩ := exists_of_matchingPaths h
  intro p hp
  obtain ⟨input, -, hinput⟩ := hpaths p hp
  obtain ⟨path, -, hpath⟩ := List.mem_flatMap.1 hinput
  refine Option.isSome_iff_exists.1 ?_
  cases hn : fs.node? path with
  | none => simp [hn] at hpath
  | some n => exact n.sources_language path p (by simpa [hn] using hpath)

def rewritten? (v : Vocabulary) (s : Settings) (fs : FileSystem) (p : Path) : Option Text :=
  match p.language?, fs.read p with
  | some language, .ok source =>
      let formatted := (formatSourceWith v s language source).formatted
      if formatted = source || s.check || s.diff || fs.isReadOnly p then none else some formatted
  | _, _ => none

section

variable {v : Vocabulary} {s : Settings} {fs fs' : FileSystem} {p : Path}

theorem formatFile_of_read {language : HostLanguage} {source : Text}
    (hlanguage : p.language? = some language) (hread : fs.read p = .ok source) :
    formatFile v s fs p =
      let out := formatSourceWith v s language source
      let failures := out.failures.map QuotingError.message
      let denied := FileResult.failed p ("Write error: " ++ WriteFault.denied.message)
      if out.formatted = source then
        { files := fs, result := { path := p, status := .unchanged, failures := failures } }
      else if fs.isReadOnly p && !s.check && !s.diff then
        { files := fs, result := { denied with failures := failures } }
      else
        { files := if s.check || s.diff then fs else fs.put p out.formatted
          result := { path := p, status := .changed, failures := failures }
          shown := if s.diff then some ⟨p, source, out.formatted⟩ else none } := by
  unfold formatFile
  rw [hlanguage, hread]
  dsimp only
  split
  · rfl
  · rw [FileSystem.write_of_read hread]
    cases s.check <;> cases s.diff <;> cases fs.isReadOnly p <;> rfl

theorem formatFile_files : (formatFile v s fs p).files =
    match rewritten? v s fs p with
    | some t => fs.put p t
    | none => fs := by
  unfold rewritten?
  cases hlanguage : p.language? with
  | none => simp [formatFile, hlanguage]
  | some language =>
      cases hread : fs.read p with
      | error e => simp [formatFile, hlanguage, hread]
      | ok source =>
          rw [formatFile_of_read hlanguage hread]
          dsimp only
          by_cases hsame : (formatSourceWith v s language source).formatted = source
          · simp [hsame]
          · cases s.check <;> cases s.diff <;> cases fs.isReadOnly p <;> simp [hsame]

theorem formatFile_congr (htree : fs.SameTree fs') (h : fs'.read p = fs.read p) :
    (formatFile v s fs' p).result = (formatFile v s fs p).result ∧
      rewritten? v s fs' p = rewritten? v s fs p := by
  constructor
  · cases hlanguage : p.language? with
    | none => simp [formatFile, hlanguage]
    | some language =>
        cases hread : fs.read p with
        | error e => simp [formatFile, hlanguage, h, hread]
        | ok source =>
            rw [formatFile_of_read hlanguage hread, formatFile_of_read hlanguage (h.trans hread),
              htree.isReadOnly]
            dsimp only
            split
            · rfl
            · split <;> rfl
  · rw [rewritten?, rewritten?, h, htree.isReadOnly]

theorem formatFile_path : (formatFile v s fs p).result.path = p := by
  cases hlanguage : p.language? with
  | none => simp [formatFile, hlanguage, FileResult.failed]
  | some language =>
      cases hread : fs.read p with
      | error e => simp [formatFile, hlanguage, hread, FileResult.failed]
      | ok source =>
          rw [formatFile_of_read hlanguage hread]
          dsimp only
          split
          · rfl
          · split <;> rfl

theorem exists_of_rewritten? {t : Text} (h : rewritten? v s fs p = some t) :
    ∃ language source, p.language? = some language ∧ fs.read p = .ok source ∧
      t = (formatSourceWith v s language source).formatted ∧ t ≠ source ∧
      s.check = false ∧ s.diff = false ∧ fs.isReadOnly p = false := by
  unfold rewritten? at h
  split at h
  next language source hlanguage hread =>
    dsimp only at h
    split at h
    · cases h
    next hkept =>
      obtain rfl := Option.some.inj h
      simp only [Bool.or_eq_true, decide_eq_true_eq, not_or, Bool.not_eq_true] at hkept
      obtain ⟨⟨⟨hne, hcheck⟩, hdiff⟩, hwritable⟩ := hkept
      exact ⟨language, source, hlanguage, hread, rfl, hne, hcheck, hdiff, hwritable⟩
  · cases h

structure FileResult.Tells (result : FileResult) (s : Settings) (source : Text)
    (revised : SourceOutcome) (readOnly : Bool) : Prop where
  failures : result.failures = revised.failures.map QuotingError.message
  unchanged : result.status = .unchanged ↔ revised.formatted = source
  changed : result.status = .changed ↔
    revised.formatted ≠ source ∧ (s.check = true ∨ s.diff = true ∨ readOnly = false)
  error : result.error =
    if result.status = .error then some ("Write error: " ++ WriteFault.denied.message) else none

theorem formatFile_tells {language : HostLanguage} {source : Text}
    (hlanguage : p.language? = some language) (hread : fs.read p = .ok source) :
    (formatFile v s fs p).result.Tells s source (formatSourceWith v s language source)
      (fs.isReadOnly p) := by
  rw [formatFile_of_read hlanguage hread]
  by_cases hsame : (formatSourceWith v s language source).formatted = source
  · simp only [hsame, if_true]
    exact ⟨rfl, by simp [hsame], by simp [hsame], rfl⟩
  · simp only [hsame, if_false]
    cases hdenied : fs.isReadOnly p && !s.check && !s.diff with
    | true =>
        simp only [Bool.and_eq_true, Bool.not_eq_true'] at hdenied
        obtain ⟨⟨hreadOnly, hcheck⟩, hdiff⟩ := hdenied
        exact ⟨rfl, by simp [FileResult.failed, hsame],
          by simp [FileResult.failed, hreadOnly, hcheck, hdiff], rfl⟩
    | false =>
        have hwritten : s.check = true ∨ s.diff = true ∨ fs.isReadOnly p = false := by
          cases hcheck : s.check <;> cases hdiff : s.diff <;> simp_all
        exact ⟨rfl, by simp [hsame], by simp [hsame, hwritten], rfl⟩

end

/-- What the files of `done` have become, in terms of what all files were before. -/
structure Formatted (v : Vocabulary) (s : Settings) (fs : FileSystem) (done : List Path)
    (fs' : FileSystem) : Prop where
  sameTree : fs.SameTree fs'
  rewritten : ∀ p ∈ done, ∀ t l, rewritten? v s fs p = some t → fs.locate? p = some l →
    fs'.holds l = some (some (.text t))
  kept : ∀ l, (∀ p ∈ done, fs.locate? p = some l → rewritten? v s fs p = none) →
    fs'.holds l = fs.holds l

def FileSystem.Distinct (fs : FileSystem) (paths : List Path) : Prop :=
  paths.Pairwise fun p q => fs.locate? p ≠ fs.locate? q

namespace Formatted

variable {v : Vocabulary} {s : Settings} {fs fs' fs'' : FileSystem} {done : List Path} {p : Path}

theorem start (v : Vocabulary) (s : Settings) (fs : FileSystem) : Formatted v s fs [] fs :=
  ⟨.refl fs, by simp, fun _ _ => rfl⟩

theorem read (h : Formatted v s fs done fs') (hp : ∀ q ∈ done, fs.locate? q ≠ fs.locate? p) :
    fs'.read p = fs.read p := by
  refine FileSystem.read_congr h.sameTree ?_
  intro l hl
  refine h.kept l ?_
  intro q hq hql
  exact absurd (hql.trans (Option.mem_def.1 hl).symm) (hp q hq)

theorem step (h : Formatted v s fs done fs') (hp : ∀ q ∈ done, fs.locate? q ≠ fs.locate? p) :
    Formatted v s fs (done ++ [p]) (formatFile v s fs' p).files := by
  have hread := h.read hp
  rw [formatFile_files, (formatFile_congr h.sameTree hread).2]
  cases hnew : rewritten? v s fs p with
  | none =>
      refine ⟨h.sameTree, ?_, ?_⟩
      · intro q hq t l ht hl
        rcases List.mem_append.1 hq with hq | hq
        · exact h.rewritten q hq t l ht hl
        · obtain rfl : q = p := by simpa using hq
          simp [hnew] at ht
      · intro l hl
        exact h.kept l fun q hq => hl q (by simp [hq])
  | some t =>
      obtain ⟨language, source, -, hsource, -⟩ := exists_of_rewritten? hnew
      obtain ⟨l, hl, hold⟩ := FileSystem.exists_of_read (hread.trans hsource)
      have hl' : fs.locate? p = some l := (h.sameTree.locate? p).symm.trans hl
      refine ⟨h.sameTree.trans (FileSystem.put_sameTree t hl hold), ?_, ?_⟩
      · intro q hq u k hu hk
        dsimp only
        rw [FileSystem.holds_put t hl hold]
        rcases List.mem_append.1 hq with hq | hq
        · have hne : k ≠ l := by
            rintro rfl
            exact hp q hq (hk.trans hl'.symm)
          rw [if_neg hne]
          exact h.rewritten q hq u k hu hk
        · obtain rfl : q = p := by simpa using hq
          obtain rfl : k = l := Option.some.inj (hk.symm.trans hl')
          obtain rfl : u = t := Option.some.inj (hu.symm.trans hnew)
          rw [if_pos rfl]
      · intro k hk
        dsimp only
        rw [FileSystem.holds_put t hl hold]
        have hne : k ≠ l := by
          rintro rfl
          have hnone := hk p (by simp) hl'
          simp [hnew] at hnone
        rw [if_neg hne]
        exact h.kept k fun q hq => hk q (by simp [hq])

theorem holds_eq {done' : List Path} (h : Formatted v s fs done fs')
    (h' : Formatted v s fs done' fs'') (hperm : done'.Perm done) (l : Location) :
    fs''.holds l = fs'.holds l := by
  by_cases hl : ∃ p ∈ done, fs.locate? p = some l ∧ ∃ t, rewritten? v s fs p = some t
  · obtain ⟨p, hp, hloc, t, ht⟩ := hl
    rw [h.rewritten p hp t l ht hloc, h'.rewritten p (hperm.mem_iff.2 hp) t l ht hloc]
  · have hnone : ∀ p ∈ done, fs.locate? p = some l → rewritten? v s fs p = none := by
      intro p hp hloc
      refine Option.eq_none_iff_forall_ne_some.2 ?_
      intro t ht
      exact hl ⟨p, hp, hloc, t, ht⟩
    rw [h.kept l hnone, h'.kept l fun p hp => hnone p (hperm.mem_iff.1 hp)]

end Formatted

structure Execution where
  files : FileSystem
  results : Path → Option FileResult := fun _ => none

namespace Execution

def step (v : Vocabulary) (s : Settings) (e : Execution) (p : Path) : Execution :=
  let step := formatFile v s e.files p
  ⟨step.files, fun q => if q = p then some step.result else e.results q⟩

def run (v : Vocabulary) (s : Settings) (fs : FileSystem) (order : List Path) : Execution :=
  order.foldl (step v s) { files := fs }

theorem run_concat (v : Vocabulary) (s : Settings) (fs : FileSystem) (order : List Path)
    (p : Path) : run v s fs (order ++ [p]) = step v s (run v s fs order) p :=
  List.foldl_concat ..

def report (e : Execution) (paths : List Path) : Report := ⟨paths.filterMap e.results⟩

end Execution

theorem formatFiles_concat (v : Vocabulary) (s : Settings) (fs : FileSystem) (paths : List Path)
    (p : Path) : formatFiles v s fs (paths ++ [p]) =
      let out := formatFiles v s fs paths
      let step := formatFile v s out.files p
      ⟨step.files, out.report.add step.result, out.shown ++ step.shown.toList⟩ :=
  List.foldl_concat ..

namespace FileSystem.Distinct

variable {v : Vocabulary} {s : Settings} {fs : FileSystem} {paths order : List Path}

theorem concat {p : Path} (h : fs.Distinct (order ++ [p])) :
    fs.Distinct order ∧ ∀ q ∈ order, fs.locate? q ≠ fs.locate? p := by
  obtain ⟨horder, -, hp⟩ := List.pairwise_append.1 h
  exact ⟨horder, fun q hq => hp q hq p (by simp)⟩

theorem ne {p q : Path} (h : fs.Distinct paths) (hp : p ∈ paths) (hq : q ∈ paths) (hpq : p ≠ q) :
    fs.locate? p ≠ fs.locate? q := by
  have : Std.Symm fun p q => fs.locate? p ≠ fs.locate? q := ⟨fun _ _ => Ne.symm⟩
  exact List.Pairwise.forall h hp hq hpq

theorem perm (h : fs.Distinct paths) (horder : order.Perm paths) : fs.Distinct order :=
  (horder.pairwise_iff Ne.symm).2 h

theorem formatFiles (v : Vocabulary) (s : Settings) (h : fs.Distinct paths) :
    Formatted v s fs paths (formatFiles v s fs paths).files ∧
      (EmbeddedSql.formatFiles v s fs paths).report.results =
        paths.map fun p => (formatFile v s fs p).result := by
  induction paths using List.reverseRecOn with
  | nil => exact ⟨.start v s fs, rfl⟩
  | append_singleton paths p ih =>
      obtain ⟨hpaths, hp⟩ := h.concat
      obtain ⟨hdone, hresults⟩ := ih hpaths
      rw [formatFiles_concat]
      refine ⟨hdone.step hp, ?_⟩
      dsimp only [Report.add]
      rw [hresults, (formatFile_congr hdone.sameTree (hdone.read hp)).1, List.map_append]
      rfl

theorem execution (v : Vocabulary) (s : Settings) (h : fs.Distinct order) :
    Formatted v s fs order (Execution.run v s fs order).files ∧
      ∀ q, (Execution.run v s fs order).results q =
        if q ∈ order then some (formatFile v s fs q).result else none := by
  induction order using List.reverseRecOn with
  | nil => exact ⟨.start v s fs, fun q => rfl⟩
  | append_singleton order p ih =>
      obtain ⟨horder, hp⟩ := h.concat
      obtain ⟨hdone, hresults⟩ := ih horder
      rw [Execution.run_concat]
      refine ⟨hdone.step hp, ?_⟩
      intro q
      dsimp only [Execution.step]
      rw [(formatFile_congr hdone.sameTree (hdone.read hp)).1, hresults q]
      by_cases hq : q = p
      · subst hq
        simp
      · simp [hq]

theorem report (v : Vocabulary) (s : Settings) (h : fs.Distinct paths) (horder : order.Perm paths) :
    (Execution.run v s fs order).report paths = (EmbeddedSql.formatFiles v s fs paths).report := by
  have hresults := ((h.perm horder).execution v s).2
  have hall : paths.filterMap (Execution.run v s fs order).results =
      paths.map fun p => (formatFile v s fs p).result := by
    rw [← List.filterMap_eq_map]
    refine List.filterMap_congr ?_
    intro p hp
    rw [hresults, if_pos (horder.mem_iff.2 hp)]
    rfl
  rw [Execution.report, hall, ← (h.formatFiles v s).2]

end FileSystem.Distinct

theorem run_any_order (s : Settings) (fs : FileSystem) (inputs : List Path) {v : Vocabulary}
    {paths order : List Path} (hv : s.vocabulary = .ok v)
    (hpaths : matchingPaths fs s inputs = .ok paths) (hdistinct : fs.Distinct paths)
    (hreadable : ∀ p ∈ paths, ∃ source, fs.read p = .ok source) (horder : order.Perm paths) :
    ∃ outcome, run s fs inputs = .ok outcome ∧
      (∀ l, (Execution.run v s fs order).files.holds l = outcome.files.holds l) ∧
      (Execution.run v s fs order).report paths = outcome.report ∧
      outcome.report.results.map FileResult.path = paths ∧
      (∀ result ∈ outcome.report.results, ∃ language source location revised,
        result.path.language? = some language ∧ fs.read result.path = .ok source ∧
        fs.locate? result.path = some location ∧
        formatSource s language source = .ok revised ∧
        result.Tells s source revised (fs.isReadOnly result.path) ∧
        (outcome.files.holds location ≠ fs.holds location ↔
          result.status = .changed ∧ s.check = false ∧ s.diff = false) ∧
        (outcome.files.holds location ≠ fs.holds location →
          outcome.files.holds location = some (some (.text revised.formatted)))) ∧
      ∀ l, (∀ p ∈ paths, fs.locate? p ≠ some l) → outcome.files.holds l = fs.holds l := by
  obtain ⟨hfiles, hresults⟩ := hdistinct.formatFiles v s
  refine ⟨formatFiles v s fs paths, ?_, ?_, hdistinct.report v s horder, ?_, ?_, ?_⟩
  · simp [run, hv, hpaths, bind, Except.bind, pure, Except.pure]
  · exact hfiles.holds_eq ((hdistinct.perm horder).execution v s).1 horder
  · rw [hresults, List.map_map]
    exact (List.map_congr_left fun p _ => formatFile_path).trans (List.map_id paths)
  · intro result hresult
    rw [hresults] at hresult
    obtain ⟨p, hp, rfl⟩ := List.mem_map.1 hresult
    obtain ⟨language, hlanguage⟩ := matchingPaths_language hpaths p hp
    obtain ⟨source, hsource⟩ := hreadable p hp
    obtain ⟨location, hlocation, hold⟩ := FileSystem.exists_of_read hsource
    have htells := formatFile_tells (v := v) (s := s) hlanguage hsource
    refine ⟨language, source, location, formatSourceWith v s language source, ?_⟩
    rw [formatFile_path]
    refine ⟨hlanguage, hsource, hlocation, ?_, htells, ?_⟩
    · simp [formatSource, hv, bind, Except.bind, pure, Except.pure]
    · cases hnew : rewritten? v s fs p with
      | some t =>
          obtain ⟨language', source', hlanguage', hsource', rfl, hne, hcheck, hdiff, hwritable⟩ :=
            exists_of_rewritten? hnew
          obtain rfl := Option.some.inj (hlanguage.symm.trans hlanguage')
          obtain rfl := Except.ok.inj (hsource.symm.trans hsource')
          have hnow := hfiles.rewritten p hp _ location hnew hlocation
          have hchanged := htells.changed.2 ⟨hne, .inr (.inr hwritable)⟩
          refine ⟨⟨fun _ => ⟨hchanged, hcheck, hdiff⟩, fun _ => ?_⟩, fun _ => hnow⟩
          rw [hnow, hold]
          simpa using hne
      | none =>
          have hkept : (formatFiles v s fs paths).files.holds location = fs.holds location := by
            refine hfiles.kept location ?_
            intro q hq hlq
            by_cases hqp : q = p
            · rw [hqp, hnew]
            · exact absurd (hlq.trans hlocation.symm) (hdistinct.ne hq hp hqp)
          have hsame : ¬((formatFile v s fs p).result.status = .changed ∧ s.check = false ∧
              s.diff = false) := by
            rintro ⟨hchanged, hcheck, hdiff⟩
            obtain ⟨hne, hwritable⟩ := htells.changed.1 hchanged
            simp [hcheck, hdiff] at hwritable
            simp [rewritten?, hlanguage, hsource, hne, hcheck, hdiff, hwritable] at hnew
          exact ⟨iff_of_false (fun h => h hkept) hsame, fun h => absurd hkept h⟩
  · intro l hl
    exact hfiles.kept l fun p hp hlp => absurd hlp (hl p hp)

theorem run_any_order_two :
    let fs : FileSystem :=
      { root := .directory
          [(['a', '.', 'p', 'y'], .file (.text "sql = 'select 1'".toList)),
            (['b', '.', 'j', 's'], .file (.text "f()".toList))] }
    ∃ outcome, run {} fs [⟨['b', '.', 'j', 's']⟩, ⟨['a', '.', 'p', 'y']⟩] = .ok outcome ∧
      ∀ l, (Execution.run ⟨.ansi, []⟩ {} fs
        [⟨['b', '.', 'j', 's']⟩, ⟨['a', '.', 'p', 'y']⟩]).files.holds l = outcome.files.holds l := by
  intro fs
  have hread : ∀ p ∈ [(⟨['a', '.', 'p', 'y']⟩ : Path), ⟨['b', '.', 'j', 's']⟩],
      ∃ source, fs.read p = .ok source := by
    simp only [List.mem_cons, List.not_mem_nil, or_false, forall_eq_or_imp, forall_eq]
    exact ⟨⟨_, rfl⟩, ⟨_, rfl⟩⟩
  have hdistinct : fs.Distinct [⟨['a', '.', 'p', 'y']⟩, ⟨['b', '.', 'j', 's']⟩] :=
    List.pairwise_pair.2 (by decide +kernel)
  obtain ⟨outcome, hrun, hfiles, -⟩ := run_any_order {} fs
    [⟨['b', '.', 'j', 's']⟩, ⟨['a', '.', 'p', 'y']⟩] rfl rfl hdistinct hread (List.Perm.swap ..)
  exact ⟨outcome, hrun, hfiles⟩

end EmbeddedSql
