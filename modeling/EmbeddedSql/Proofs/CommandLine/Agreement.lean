import EmbeddedSql.CommandLine
import EmbeddedSql.Proofs.Run.Schedule

namespace EmbeddedSql

theorem Report.exitCode_of_single {result : FileResult} (hresult : result.status ≠ .error)
    (check : Bool) : Report.exitCode ⟨[result]⟩ check =
      if !result.failures.isEmpty then 2
      else if check && result.status = .changed then 1 else 0 := by
  have herrors : Report.hasErrors ⟨[result]⟩ = !result.failures.isEmpty := by
    cases hfailures : result.failures <;>
      simp [Report.hasErrors, Report.count, Report.failures, hresult, hfailures]
  have hchanges : Report.hasChanges ⟨[result]⟩ = decide (result.status = .changed) := by
    by_cases hchanged : result.status = .changed <;>
      simp [Report.hasChanges, Report.count, hchanged]
  rw [Report.exitCode, herrors, hchanges]

section

variable {s : Settings} {fs : FileSystem} {p : Path} {language : HostLanguage} {source : Text}
  (hlanguage : p.language? = some language) (hread : fs.read p = .ok source)

include hlanguage hread

theorem matchingPaths_of_read {patterns : List (List Glob)}
    (hpatterns : excludePatterns s.exclude = .ok patterns)
    (hincluded : isExcluded patterns p = false) : matchingPaths fs s [p] = .ok [p] := by
  have hnode : fs.node? p = some (.file (.text source)) := by
    unfold FileSystem.read at hread
    split at hread <;> simp_all
  have hsources : inputSources fs (isExcluded patterns) p = [p] := by
    simp [inputSources, inputPaths, hnode, Node.sources, hincluded, hlanguage]
  simp [matchingPaths, hpatterns, hsources, Path.insert, bind, Except.bind, pure, Except.pure]

theorem formatFile_result (v : Vocabulary)
    (hwritable : s.check = false → fs.isReadOnly p = false) : (formatFile v s fs p).result =
    { path := p
      status := if (formatSourceWith v s language source).formatted = source then .unchanged
        else .changed
      failures := (formatSourceWith v s language source).failures.map QuotingError.message } := by
  have hwritten : (fs.isReadOnly p && !s.check && !s.diff) = false := by
    cases hcheck : s.check with
    | true => simp
    | false => simp [hwritable hcheck]
  rw [formatFile_of_read hlanguage hread, hwritten]
  dsimp only
  split <;> rfl

theorem read_formatFile (v : Vocabulary) (hcheck : s.check = false) (hdiff : s.diff = false)
    (hwritable : fs.isReadOnly p = false) :
    (formatFile v s fs p).files.read p =
      .ok (formatSourceWith v s language source).formatted := by
  obtain ⟨l, hl, hold⟩ := FileSystem.exists_of_read hread
  have hkept : (formatSourceWith v s language source).formatted = source ∨
      rewritten? v s fs p = some (formatSourceWith v s language source).formatted := by
    by_cases hsame : (formatSourceWith v s language source).formatted = source
    · exact .inl hsame
    · exact .inr (by simp [rewritten?, hlanguage, hread, hsame, hcheck, hdiff, hwritable])
  rw [formatFile_files]
  rcases hkept with hsame | hnew
  · rw [rewritten?, hlanguage, hread]
    simp [hsame, hread]
  · rw [hnew]
    dsimp only
    have hplace := (FileSystem.put_sameTree (formatSourceWith v s language source).formatted
      hl hold).locate? p
    rw [FileSystem.read_eq, hplace, hl, Option.bind_some, FileSystem.holds_put _ hl hold,
      if_pos rfl]

end

namespace CommandLine

theorem formatInput_eq (env : Environment) (r : Request) {s : Settings} {v : Vocabulary}
    {language : HostLanguage} {source : Text} (hv : s.vocabulary = .ok v)
    (hname : HostLanguage.ofName? r.language = some language)
    (hinput : env.input = .text source) :
    let out := formatSourceWith v s language source
    formatInput env r s = .ok {
      code :=
        if !out.failures.isEmpty then 2 else if s.check && out.formatted ≠ source then 1 else 0
      output := out.formatted
      errors := out.failures.flatMap fun e => line ("error: <stdin>: " ++ e.message)
      files := env.files } := by
  simp only [formatInput, hname, hinput, formatSource, hv]
  rfl

theorem formatInput_agrees_with_run (env : Environment) (r : Request) (s : Settings)
    {v : Vocabulary} {language : HostLanguage} {source : Text} {p : Path}
    {patterns : List (List Glob)} (hv : s.vocabulary = .ok v) (hdiff : s.diff = false)
    (hname : HostLanguage.ofName? r.language = some language)
    (hinput : env.input = .text source) (hlanguage : p.language? = some language)
    (hread : env.files.read p = .ok source)
    (hwritable : s.check = false → env.files.isReadOnly p = false)
    (hpatterns : excludePatterns s.exclude = .ok patterns)
    (hincluded : isExcluded patterns p = false) :
    ∃ printed outcome, formatInput env r s = .ok printed ∧ run s env.files [p] = .ok outcome ∧
      printed.code = outcome.report.exitCode s.check ∧
      (∃ messages : List String,
        printed.errors = messages.flatMap (fun m => line ("error: <stdin>: " ++ m)) ∧
        outcome.report.results.flatMap FileResult.failures = messages ∧
        outcome.report.errorLines =
          messages.map fun m => "error: " ++ String.ofList p.spelling ++ ": " ++ m) ∧
      (s.check = false → outcome.files.read p = .ok printed.output) := by
  have hrun : run s env.files [p] = .ok (formatFiles v s env.files [p]) := by
    rw [run, hv, matchingPaths_of_read hlanguage hread hpatterns hincluded]
    rfl
  have hresult := formatFile_result (s := s) hlanguage hread v hwritable
  have hreport : (formatFiles v s env.files [p]).report =
      ⟨[(formatFile v s env.files p).result]⟩ := rfl
  refine ⟨_, _, formatInput_eq env r hv hname hinput, hrun, ?_,
    ⟨(formatSourceWith v s language source).failures.map QuotingError.message, ?_, ?_, ?_⟩, ?_⟩
  · have hstatus : (formatFile v s env.files p).result.status ≠ .error := by
      rw [hresult]
      dsimp only
      split <;> decide
    rw [hreport, Report.exitCode_of_single hstatus, hresult, List.isEmpty_map]
    simp
  · rw [List.flatMap_map]
  · rw [hreport, hresult]
    simp
  · rw [hreport, hresult]
    simp [Report.errorLines]
  · intro hcheck
    exact read_formatFile hlanguage hread v hcheck hdiff (hwritable hcheck)

theorem formatInput_agrees_with_run_unwritable :
    let source := "sql = 'select a, b, c, d from t'".toList
    let p : Path := ⟨"a.py".toList⟩
    let env : Environment :=
      { files := { root := .directory [(p.spelling, .file (.text source))] }
        input := .text source }
    let s : Settings := { exclude := ["*.js".toList] }
    ∃ printed outcome, formatInput env {} s = .ok printed ∧ run s env.files [p] = .ok outcome ∧
      printed.code = outcome.report.exitCode false ∧
      outcome.files.read p = .ok printed.output := by
  intro source p env s
  have hpatterns : excludePatterns s.exclude =
      .ok [[.anyRun, .literal '.', .literal 'j', .literal 's']] := by cbv
  obtain ⟨printed, outcome, hprinted, hrun, hcode, -, hread⟩ :=
    formatInput_agrees_with_run env {} s (v := ⟨.ansi, []⟩) (p := p) rfl rfl rfl rfl rfl rfl
      (fun _ => rfl) hpatterns (by decide +kernel)
  exact ⟨printed, outcome, hprinted, hrun, hcode, hread rfl⟩

theorem formatInput_excluded :
    let source := "sql = 'select 1'".toList
    let p : Path := ⟨"a.py".toList⟩
    let env : Environment :=
      { files := { root := .directory [(p.spelling, .file (.text source))] }
        input := .text source }
    let s : Settings := { exclude := ["*.py".toList], check := true }
    s.vocabulary = .ok ⟨.ansi, []⟩ ∧ p.language? = some .python ∧ env.files.read p = .ok source ∧
      ∃ printed outcome, formatInput env {} s = .ok printed ∧ run s env.files [p] = .ok outcome ∧
        printed.code = 1 ∧ outcome.report.exitCode s.check = 0 := by
  intro source p env s
  have hprinted := formatInput_eq env {} (s := s) (v := ⟨.ansi, []⟩) rfl rfl rfl
  have hpatterns : excludePatterns s.exclude =
      .ok [[.anyRun, .literal '.', .literal 'p', .literal 'y']] := by cbv
  have hpaths : matchingPaths env.files s [p] = .ok [] := by
    rw [matchingPaths, hpatterns]
    rfl
  have hrun : run s env.files [p] = .ok { files := env.files } := by
    rw [run, hpaths]
    rfl
  refine ⟨rfl, rfl, rfl, _, _, hprinted, hrun, ?_, rfl⟩
  decide +kernel

end CommandLine

end EmbeddedSql
