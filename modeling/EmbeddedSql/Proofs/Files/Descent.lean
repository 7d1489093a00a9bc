import EmbeddedSql.Proofs.Run.Handling

namespace EmbeddedSql

namespace Path

variable {p q : Path}

def below (p : Path) (names : Location) : Path := names.foldl join p

theorem below_cons (p : Path) (name : Text) (names : Location) :
    p.below (name :: names) = (p.join name).below names := rfl

theorem below_concat (p : Path) (names : Location) (name : Text) :
    p.below (names ++ [name]) = (p.below names).join name :=
  List.foldl_concat ..

theorem spelling_join_ne_nil (hp : p.spelling ≠ []) (name : Text) :
    (p.join name).spelling ≠ [] := by
  unfold join
  split <;> simp [hp]

theorem spelling_below_ne_nil (hp : p.spelling ≠ []) (names : Location) :
    (p.below names).spelling ≠ [] := by
  induction names generalizing p with
  | nil => exact hp
  | cons name names ih => exact ih (spelling_join_ne_nil hp name)

theorem components_below {names : Location} (hp : p.spelling ≠ [])
    (hnames : ∀ name ∈ names, IsEntryName name) :
    (p.below names).components = p.components ++ names.map .name := by
  induction names generalizing p with
  | nil => simp [below]
  | cons name names ih =>
      obtain ⟨hname, hrest⟩ := List.forall_mem_cons.1 hnames
      rw [below_cons, ih (spelling_join_ne_nil hp name) hrest, components_join hp hname]
      simp

theorem fileName?_join {name : Text} (hp : p.spelling ≠ []) (hname : IsEntryName name) :
    (p.join name).fileName? = some name := by
  rw [fileName?, components_join hp hname, List.getLast?_concat]

theorem language?_join {name : Text} (hp : p.spelling ≠ []) (hname : IsEntryName name) :
    (p.join name).language? = (extensionOf? name).bind HostLanguage.ofExtension? := by
  rw [language?, extension?, fileName?_join hp hname, Option.bind_some]

end Path

/-- From a directory down along names, every entry on the way is shown and kept. -/
def Passable (excluded : Path → Bool) (d : Path) : Location → Prop
  | [] => True
  | name :: names =>
      isHidden name = false ∧ excluded (d.join name) = false ∧ Passable excluded (d.join name) names

theorem passable_iff {excluded : Path → Bool} {d : Path} {names : Location} :
    Passable excluded d names ↔ ∀ front name, front ++ [name] <+: names →
      isHidden name = false ∧ excluded (d.below (front ++ [name])) = false := by
  induction names generalizing d with
  | nil => simp [Passable]
  | cons first names ih =>
      rw [Passable, ih]
      constructor
      · rintro ⟨hhidden, hexcluded, hrest⟩ front name hbegins
        cases front with
        | nil =>
            obtain rfl : name = first := (List.cons_prefix_cons.1 hbegins).1
            exact ⟨hhidden, hexcluded⟩
        | cons other front =>
            obtain ⟨rfl, hbelow⟩ := List.cons_prefix_cons.1 hbegins
            exact hrest front name hbelow
      · intro h
        obtain ⟨hhidden, hexcluded⟩ := h [] first (List.prefix_append [first] names)
        refine ⟨hhidden, hexcluded, ?_⟩
        intro front name hbegins
        exact h (first :: front) name (List.cons_prefix_cons.2 ⟨rfl, hbegins⟩)

namespace Node

theorem eq_nil_of_find?_file {content : Content} {names : Location} {n : Node}
    (h : (file content).find? names = some n) : names = [] := by
  cases names with
  | nil => rfl
  | cons name names => cases h

theorem Proper.forall_isEntryName {n m : Node} {names : Location} (h : n.Proper)
    (hfind : n.find? names = some m) : ∀ name ∈ names, IsEntryName name := by
  induction names generalizing n with
  | nil => simp
  | cons name names ih =>
      obtain ⟨child, hchild, hrest⟩ := Option.bind_eq_some_iff.1 hfind
      cases h with
      | file content => cases hchild
      | directory nodup entryNames children =>
          have hmem := mem_of_lookup hchild
          exact List.forall_mem_cons.2 ⟨entryNames _ hmem, ih (children _ hmem) hrest⟩

end Node

section

variable {excluded : Path → Bool} {path p : Path}

theorem mem_entrySources {es : List (Text × Node)} :
    p ∈ entrySources excluded path es ↔
      ∃ e ∈ es, isHidden e.1 = false ∧ p ∈ e.2.sources excluded (path.join e.1) := by
  induction es with
  | nil => simp [entrySources]
  | cons e es ih =>
      obtain ⟨name, node⟩ := e
      rw [entrySources, List.mem_append, ih, List.exists_mem_cons_iff]
      refine or_congr_left ?_
      cases hhidden : isHidden name <;> simp

theorem Node.Proper.mem_sources {n : Node} (h : n.Proper) :
    p ∈ n.sources excluded path ↔ excluded path = false ∧
      ∃ names content, n.find? names = some (.file content) ∧ p = path.below names ∧
        p.language?.isSome = true ∧ Passable excluded path names := by
  induction h generalizing path with
  | file content =>
      rw [Node.sources]
      constructor
      · intro hp
        split at hp
        next hkept =>
          obtain ⟨hexcluded, hlanguage⟩ := Bool.and_eq_true_iff.1 hkept
          obtain rfl : p = path := List.mem_singleton.1 hp
          exact ⟨by simpa using hexcluded, [], content, rfl, rfl, hlanguage, trivial⟩
        · cases hp
      · rintro ⟨hexcluded, names, content', hfind, rfl, hlanguage, -⟩
        obtain rfl := Node.eq_nil_of_find?_file hfind
        have hlanguage : path.language?.isSome = true := hlanguage
        rw [hexcluded, hlanguage]
        exact List.mem_singleton.2 rfl
  | @directory es nodup entryNames children ih =>
      rw [Node.sources]
      constructor
      · intro hp
        split at hp
        · cases hp
        next hexcluded =>
          obtain ⟨⟨name, child⟩, hmem, hhidden, hp⟩ := mem_entrySources.1 hp
          obtain ⟨hchild, names, content, hfind, rfl, hlanguage, hpass⟩ := (ih _ hmem).1 hp
          refine ⟨Bool.eq_false_iff.2 hexcluded, name :: names, content, ?_, rfl, hlanguage,
            hhidden, hchild, hpass⟩
          exact Option.bind_eq_some_iff.2 ⟨child, Node.lookup_of_mem nodup hmem, hfind⟩
      · rintro ⟨hexcluded, names, content, hfind, rfl, hlanguage, hpass⟩
        rw [hexcluded, if_neg Bool.false_ne_true]
        cases names with
        | nil => cases hfind
        | cons name names =>
            obtain ⟨child, hchild, hrest⟩ := Option.bind_eq_some_iff.1 hfind
            obtain ⟨hhidden, hkept, hpass⟩ := hpass
            have hmem := Node.mem_of_lookup hchild
            refine mem_entrySources.2 ⟨(name, child), hmem, hhidden, (ih _ hmem).2 ?_⟩
            exact ⟨hkept, names, content, hrest, rfl, hlanguage, hpass⟩

end

theorem Path.mem_foldl_insert_iff {found : List Path} {p : Path}
    (hfound : ∀ q ∈ found, ∀ r ∈ found, q.components = r.components → q = r) :
    p ∈ found.foldl (fun ps p => p.insert ps) [] ↔ p ∈ found := by
  constructor
  · intro hp
    exact (mem_foldl_insert hp).resolve_right List.not_mem_nil
  · intro hp
    obtain ⟨q, hq, hcomponents⟩ := exists_mem_foldl_insert [] hp
    have hqfound := (mem_foldl_insert hq).resolve_right List.not_mem_nil
    rwa [← hfound q hqfound p hp hcomponents]

def sourcePaths (fs : FileSystem) (excluded : Path → Bool) (inputs : List Path) : List Path :=
  (inputs.flatMap (inputSources fs excluded)).foldl (fun ps p => p.insert ps) []

theorem matchingPaths_eq_sourcePaths (fs : FileSystem) {s : Settings} (inputs : List Path)
    {patterns : List (List Glob)} (h : excludePatterns s.exclude = .ok patterns) :
    matchingPaths fs s inputs = .ok (sourcePaths fs (isExcluded patterns) inputs) := by
  unfold matchingPaths
  rw [h]
  rfl

def excludedBy (byPath : Path → Bool) (byName : Text → Bool) (p : Path) : Bool :=
  byPath p || p.fileName?.any byName

theorem isExcluded_eq_excludedBy (patterns : List (List Glob)) :
    isExcluded patterns = excludedBy (fun p => patterns.any (Glob.matchesText · p.spelling))
      fun name => patterns.any (Glob.matchesText · name) := by
  funext p
  unfold isExcluded excludedBy
  cases p.fileName? with
  | none => simp
  | some name =>
      rw [Bool.eq_iff_iff]
      simp only [Option.any_some, Bool.or_eq_true, List.any_eq_true, and_or_left, exists_or]

section

variable {fs : FileSystem} {d p : Path} {es : List (Text × Node)} {excluded : Path → Bool}

theorem sources_eq_of_components_eq {n : Node} (hn : n.Proper) (hd : d.spelling ≠ []) {q : Path}
    (hp : p ∈ n.sources excluded d) (hq : q ∈ n.sources excluded d)
    (h : p.components = q.components) : p = q := by
  obtain ⟨-, names, content, hfind, rfl, -, -⟩ := hn.mem_sources.1 hp
  obtain ⟨-, names', content', hfind', rfl, -, -⟩ := hn.mem_sources.1 hq
  rw [Path.components_below hd (hn.forall_isEntryName hfind),
    Path.components_below hd (hn.forall_isEntryName hfind'), List.append_cancel_left_eq] at h
  rw [List.map_injective_iff.2 (fun _ _ => Component.name.inj) h]

theorem mem_sourcePaths_singleton {n : Node} (hproper : fs.root.Proper) (hd : fs.node? d = some n) :
    p ∈ sourcePaths fs excluded [d] ↔ p ∈ n.sources excluded d := by
  obtain ⟨l, hl, hn⟩ := Option.bind_eq_some_iff.1 hd
  have hsources : [d].flatMap (inputSources fs excluded) = n.sources excluded d := by
    simp [inputSources, inputPaths, hd]
  rw [sourcePaths, hsources]
  refine Path.mem_foldl_insert_iff ?_
  intro q hq r hr hcomponents
  exact sources_eq_of_components_eq (hproper.find? hn) (FileSystem.spelling_ne_nil_of_locate? hl)
    hq hr hcomponents

theorem excludedBy_below {byPath : Path → Bool} {byName : Text → Bool} {front : Location}
    {name : Text} (hd : d.spelling ≠ []) (hname : IsEntryName name) :
    excludedBy byPath byName (d.below (front ++ [name])) =
      (byPath (d.below (front ++ [name])) || byName name) := by
  have hfile : (d.below (front ++ [name])).fileName? = some name := by
    rw [Path.below_concat, Path.fileName?_join (Path.spelling_below_ne_nil hd front) hname]
  rw [excludedBy, hfile, Option.any_some]

theorem passable_excludedBy_iff {byPath : Path → Bool} {byName : Text → Bool} {names : Location}
    (hd : d.spelling ≠ []) (hnames : ∀ name ∈ names, IsEntryName name) :
    Passable (excludedBy byPath byName) d names ↔ ∀ front name, front ++ [name] <+: names →
      isHidden name = false ∧ byPath (d.below (front ++ [name])) = false ∧ byName name = false := by
  rw [passable_iff]
  refine forall₃_congr ?_
  intro front name hbegins
  have hname := hnames name (hbegins.subset (by simp))
  rw [excludedBy_below hd hname, Bool.or_eq_false_iff]

theorem mem_sourcePaths_below (byPath : Path → Bool) (byName : Text → Bool)
    (hproper : fs.root.Proper) (hd : fs.node? d = some (.directory es))
    (hkept : excludedBy byPath byName d = false) :
    Path.Increasing (sourcePaths fs (excludedBy byPath byName) [d]) ∧
      (∀ p, p ∈ sourcePaths fs (excludedBy byPath byName) [d] ↔
        ∃ names last content, p = d.below (names ++ [last]) ∧
          (Node.directory es).find? (names ++ [last]) = some (.file content) ∧
          ((Path.extensionOf? last).bind HostLanguage.ofExtension?).isSome = true ∧
          ∀ front name, front ++ [name] <+: names ++ [last] →
            isHidden name = false ∧ byPath (d.below (front ++ [name])) = false ∧
              byName name = false) ∧
      ∀ s patterns, excludePatterns s.exclude = .ok patterns →
        (byPath = fun p => patterns.any (Glob.matchesText · p.spelling)) →
        (byName = fun name => patterns.any (Glob.matchesText · name)) →
          matchingPaths fs s [d] = .ok (sourcePaths fs (excludedBy byPath byName) [d]) := by
  obtain ⟨l, hl, hn⟩ := Option.bind_eq_some_iff.1 hd
  have hspelling := FileSystem.spelling_ne_nil_of_locate? hl
  have hdirectory : (Node.directory es).Proper := hproper.find? hn
  refine ⟨Path.increasing_foldl_insert _ .nil, ?_, ?_⟩
  · intro p
    rw [mem_sourcePaths_singleton hproper hd, hdirectory.mem_sources]
    constructor
    · rintro ⟨-, names, content, hfind, rfl, hlanguage, hpass⟩
      have hnames := hdirectory.forall_isEntryName hfind
      obtain rfl | ⟨names, last, rfl⟩ := names.eq_nil_or_concat'
      · cases hfind
      · refine ⟨names, last, content, rfl, hfind, ?_,
          (passable_excludedBy_iff hspelling hnames).1 hpass⟩
        rwa [Path.below_concat, Path.language?_join (Path.spelling_below_ne_nil hspelling names)
          (hnames last (by simp))] at hlanguage
    · rintro ⟨names, last, content, rfl, hfind, hlanguage, hpass⟩
      have hnames := hdirectory.forall_isEntryName hfind
      refine ⟨hkept, names ++ [last], content, hfind, rfl, ?_,
        (passable_excludedBy_iff hspelling hnames).2 hpass⟩
      rwa [Path.below_concat, Path.language?_join (Path.spelling_below_ne_nil hspelling names)
        (hnames last (by simp))]
  · rintro s patterns hpatterns rfl rfl
    rw [matchingPaths_eq_sourcePaths fs [d] hpatterns, isExcluded_eq_excludedBy]

theorem mem_sourcePaths_below_vendor :
    let es : List (Text × Node) :=
      [("src".toList, .directory [("a.py".toList, .file (.text []))]),
        (".git".toList, .directory [("b.py".toList, .file (.text []))]),
        ("vendor".toList, .directory [("c.js".toList, .file (.text []))])]
    let fs : FileSystem := { root := .directory [("d".toList, .directory es)] }
    let byName := fun name : Text => name == "vendor".toList
    let paths := sourcePaths fs (excludedBy (fun _ => false) byName) [⟨"d".toList⟩]
    fs.root.Proper ∧ fs.node? ⟨"d".toList⟩ = some (.directory es) ∧
      excludedBy (fun _ => false) byName ⟨"d".toList⟩ = false ∧
      Path.Increasing paths ∧ ⟨"d/src/a.py".toList⟩ ∈ paths := by
  intro es fs byName paths
  have hfile (name : Text) (h : IsEntryName name) :
      Node.Proper (.directory [(name, .file (.text []))]) :=
    .directory (List.nodup_singleton _) (List.forall_mem_singleton.2 h)
      (List.forall_mem_singleton.2 (.file _))
  have hes : Node.Proper (.directory es) := by
    refine .directory (by decide) (by decide) ?_
    exact List.forall_mem_cons.2 ⟨hfile _ (by decide),
      List.forall_mem_cons.2 ⟨hfile _ (by decide),
        List.forall_mem_singleton.2 (hfile _ (by decide))⟩⟩
  have hproper : fs.root.Proper :=
    .directory (by decide) (by decide) (List.forall_mem_singleton.2 hes)
  have hd : fs.node? ⟨"d".toList⟩ = some (.directory es) := rfl
  have hkept : excludedBy (fun _ => false) byName ⟨"d".toList⟩ = false := by decide
  obtain ⟨hincreasing, hmem, -⟩ :=
    mem_sourcePaths_below (fun _ => false) byName hproper hd hkept
  refine ⟨hproper, hd, hkept, hincreasing, (hmem _).2 ?_⟩
  refine ⟨["src".toList], "a.py".toList, .text [], by decide, rfl, by decide, ?_⟩
  intro front name hbegins
  have hname := hbegins.subset (List.mem_append_right front (List.mem_singleton_self name))
  have hall : ∀ n ∈ ["src".toList] ++ ["a.py".toList], isHidden n = false ∧ byName n = false := by
    decide
  exact ⟨(hall name hname).1, rfl, (hall name hname).2⟩

end

end EmbeddedSql
