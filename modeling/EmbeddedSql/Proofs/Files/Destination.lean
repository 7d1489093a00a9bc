import EmbeddedSql.Proofs.Files.Writing

namespace EmbeddedSql

structure IsEntryName (name : Text) : Prop where
  ne_nil : name ≠ []
  ne_current : name ≠ ['.']
  ne_parent : name ≠ ['.', '.']
  noSlash : '/' ∉ name

instance (name : Text) : Decidable (IsEntryName name) :=
  decidable_of_iff (name ≠ [] ∧ name ≠ ['.'] ∧ name ≠ ['.', '.'] ∧ '/' ∉ name)
    ⟨fun ⟨hnil, hcurrent, hparent, hslash⟩ => ⟨hnil, hcurrent, hparent, hslash⟩,
      fun h => ⟨h.ne_nil, h.ne_current, h.ne_parent, h.noSlash⟩⟩

theorem IsEntryName.laterComponent? {name : Text} (h : IsEntryName name) :
    Path.laterComponent? name = some (.name name) := by
  simp [Path.laterComponent?, h.ne_nil, h.ne_current, h.ne_parent]

namespace Path

theorem pieces_slash (s t : Text) :
    pieces ⟨s ++ '/' :: t⟩ = pieces ⟨s⟩ ++ pieces ⟨t⟩ :=
  List.splitOnP_append_cons s t rfl

theorem pieces_entryName {name : Text} (h : IsEntryName name) : pieces ⟨name⟩ = [name] := by
  refine List.splitOnP_eq_singleton ?_
  intro c hc
  refine beq_eq_false_iff_ne.2 ?_
  rintro rfl
  exact h.noSlash hc

section

variable {p : Path} {name : Text} (hp : p.spelling ≠ [])

include hp

theorem isAbsolute_join (name : Text) : (p.join name).isAbsolute = p.isAbsolute := by
  obtain ⟨c, s, hs⟩ := List.exists_cons_of_ne_nil hp
  unfold join isAbsolute
  split <;> simp [hs]

variable (hname : IsEntryName name)

include hname

theorem pieces_join : ∃ front, front ≠ [] ∧ (p.join name).pieces = front ++ [name] ∧
    (p.pieces = front ∨ p.pieces = front ++ [[]]) := by
  have hempty : p.spelling.isEmpty = false := by simpa using hp
  unfold join
  rw [hempty, Bool.false_or]
  split
  next hlast =>
    obtain ⟨s, hs⟩ := List.getLast?_eq_some_iff.1 (beq_iff_eq.1 hlast)
    have hpieces : p.pieces = pieces ⟨s⟩ ++ [[]] := by
      rw [show p = ⟨s ++ '/' :: []⟩ from congrArg Path.mk hs, pieces_slash]
      rfl
    refine ⟨pieces ⟨s⟩, List.splitOnP_ne_nil _ _, ?_, .inr hpieces⟩
    rw [hs, List.append_assoc, List.singleton_append, pieces_slash, pieces_entryName hname]
  · refine ⟨p.pieces, List.splitOnP_ne_nil _ _, ?_, .inl rfl⟩
    rw [pieces_slash, pieces_entryName hname]

theorem components_join : (p.join name).components = p.components ++ [.name name] := by
  obtain ⟨front, hfront, hjoin, hpieces⟩ := pieces_join hp hname
  obtain ⟨first, later, rfl⟩ := List.exists_cons_of_ne_nil hfront
  have hempty : laterComponent? [] = none := rfl
  unfold components
  rw [hjoin, isAbsolute_join hp name]
  rcases hpieces with hpieces | hpieces
  · rw [hpieces]
    simp [hname.laterComponent?]
  · rw [hpieces]
    simp [hname.laterComponent?, hempty]

end

theorem pieces_of_isAbsolute {p : Path} (h : p.isAbsolute = true) :
    ∃ later, p.pieces = [] :: later := by
  obtain ⟨s, hs⟩ := List.head?_eq_some_iff.1 (beq_iff_eq.1 h)
  refine ⟨pieces ⟨s⟩, ?_⟩
  unfold pieces
  rw [hs]
  rfl

theorem pieces_of_not_isAbsolute {p : Path} (h : p.isAbsolute = false) (hp : p.spelling ≠ []) :
    ∃ first later, p.pieces = first :: later ∧ first ≠ [] := by
  obtain ⟨c, s, hs⟩ := List.exists_cons_of_ne_nil hp
  have hc : isSlash c = false := by simpa [isAbsolute, hs, isSlash] using h
  obtain ⟨u, us, hu⟩ := List.exists_cons_of_ne_nil (List.splitOnP_ne_nil isSlash s)
  refine ⟨c :: u, us, ?_, List.cons_ne_nil c u⟩
  unfold pieces
  rw [hs, List.splitOnP_cons_eq_if_modifyHead, hc, hu]
  rfl

theorem exists_components {p : Path} (hp : p.spelling ≠ []) :
    ∃ first later, p.components = first :: List.filterMap laterComponent? later := by
  unfold components
  cases habsolute : p.isAbsolute with
  | true =>
      obtain ⟨later, hpieces⟩ := pieces_of_isAbsolute habsolute
      exact ⟨.root, later, by simp [hpieces]⟩
  | false =>
      obtain ⟨first, later, hpieces, hfirst⟩ := pieces_of_not_isAbsolute habsolute hp
      rw [hpieces]
      by_cases hcurrent : first = ['.']
      · exact ⟨.current, later, by simp [hcurrent]⟩
      · by_cases hparent : first = ['.', '.']
        · exact ⟨.parent, later, by simp [laterComponent?, hparent]⟩
        · exact ⟨.name first, later, by simp [laterComponent?, hfirst, hcurrent, hparent]⟩

theorem laterComponent?_cases (piece : Text) :
    laterComponent? piece = none ∨ laterComponent? piece = some .parent ∨
      laterComponent? piece = some (.name piece) := by
  unfold laterComponent?
  split
  · exact .inl rfl
  · split
    · exact .inr (.inl rfl)
    · exact .inr (.inr rfl)

theorem exists_names {pieces : List Text} (h : .parent ∉ pieces.filterMap laterComponent?) :
    ∃ names, pieces.filterMap laterComponent? = List.map .name names := by
  induction pieces with
  | nil => exact ⟨[], rfl⟩
  | cons piece pieces ih =>
      rcases laterComponent?_cases piece with hpiece | hpiece | hpiece
      · rw [List.filterMap_cons_none hpiece] at h ⊢
        exact ih h
      · simp [hpiece] at h
      · rw [List.filterMap_cons_some hpiece] at h ⊢
        obtain ⟨names, hnames⟩ := ih fun hmem => h (List.mem_cons_of_mem _ hmem)
        exact ⟨piece :: names, by rw [hnames, List.map_cons]⟩

end Path

namespace Component

def lead (l : Location) : Component → Location
  | .root => []
  | .current => l
  | .parent => l.dropLast
  | .name n => l ++ [n]

end Component

namespace Path

def destination (start : Location) (p : Path) : Location :=
  p.components.foldl Component.lead start

theorem foldl_lead_names (l : Location) (names : List Text) :
    (names.map Component.name).foldl Component.lead l = l ++ names := by
  induction names generalizing l with
  | nil => simp
  | cons name names ih => simp [ih, Component.lead]

theorem components_eq_of_destination_eq {p q : Path} {l : Location} (hp : p.spelling ≠ [])
    (hq : q.spelling ≠ []) (hpparent : .parent ∉ p.components) (hqparent : .parent ∉ q.components)
    (hstart : p.components.head?.map Component.rank = q.components.head?.map Component.rank)
    (h : p.destination l = q.destination l) : p.components = q.components := by
  obtain ⟨first, later, hpcomponents⟩ := exists_components hp
  obtain ⟨first', later', hqcomponents⟩ := exists_components hq
  unfold destination at h
  rw [hpcomponents] at hpparent hstart h ⊢
  rw [hqcomponents] at hqparent hstart h ⊢
  obtain ⟨hfirst, hlater⟩ := not_or.1 (mt List.mem_cons.2 hpparent)
  obtain ⟨hfirst', hlater'⟩ := not_or.1 (mt List.mem_cons.2 hqparent)
  obtain ⟨names, hnames⟩ := exists_names hlater
  obtain ⟨names', hnames'⟩ := exists_names hlater'
  rw [hnames, hnames', List.foldl_cons, List.foldl_cons, foldl_lead_names, foldl_lead_names] at h
  rw [hnames, hnames']
  cases first <;> cases first' <;> simp_all [Component.rank, Component.lead]

end Path

namespace FileSystem

theorem follow_append (root : Node) (l : Location) (xs ys : List Text) :
    follow root l (xs ++ ys) = (follow root l xs).bind fun m => follow root m ys := by
  induction xs generalizing l with
  | nil => rfl
  | cons x xs ih =>
      rw [List.cons_append, follow, follow]
      split
      · simp only [ih]
        split
        · rfl
        · split
          · rfl
          · split <;> rfl
      · rfl

theorem follow_eq_some {root : Node} {l m : Location} {pieces : List Text}
    (h : follow root l pieces = some m) :
    m = (pieces.filterMap Path.laterComponent?).foldl Component.lead l := by
  induction pieces generalizing l with
  | nil => exact (Option.some.inj h).symm
  | cons piece pieces ih =>
      -- Pieces are told apart by the same tests as components, after the test for a directory.
      rw [follow] at h
      split at h
      · split at h
        next hskip =>
          have hnone : Path.laterComponent? piece = none := by
            rw [Path.laterComponent?, if_pos hskip]
          rw [List.filterMap_cons_none hnone]
          exact ih h
        next hskip =>
          split at h
          next hparent =>
            have hsome : Path.laterComponent? piece = some .parent := by
              rw [Path.laterComponent?, if_neg hskip, if_pos hparent]
            rw [List.filterMap_cons_some hsome]
            exact ih h
          next hparent =>
            split at h
            · have hsome : Path.laterComponent? piece = some (.name piece) := by
                rw [Path.laterComponent?, if_neg hskip, if_neg hparent]
              rw [List.filterMap_cons_some hsome]
              exact ih h
            · cases h
      · cases h

variable {fs : FileSystem} {p : Path} {l : Location}

theorem spelling_ne_nil_of_locate? (h : fs.locate? p = some l) : p.spelling ≠ [] := by
  intro hnil
  simp [locate?, hnil] at h

theorem eq_destination_of_locate? (h : fs.locate? p = some l) :
    l = p.destination fs.workingDirectory := by
  have hp := spelling_ne_nil_of_locate? h
  have hempty : p.spelling.isEmpty = false := by simpa using hp
  unfold locate? at h
  rw [hempty, if_neg Bool.false_ne_true] at h
  unfold Path.destination Path.components
  cases habsolute : p.isAbsolute with
  | true =>
      obtain ⟨later, hpieces⟩ := Path.pieces_of_isAbsolute habsolute
      rw [habsolute, if_pos rfl, hpieces] at h
      have hl := follow_eq_some h
      rw [List.filterMap_cons_none rfl] at hl
      rw [hpieces]
      exact hl
  | false =>
      obtain ⟨first, later, hpieces, -⟩ := Path.pieces_of_not_isAbsolute habsolute hp
      rw [habsolute, if_neg Bool.false_ne_true, hpieces] at h
      rw [hpieces, follow_eq_some h]
      by_cases hcurrent : first = ['.']
      · subst hcurrent
        rfl
      · cases hfirst : Path.laterComponent? first <;> simp [hcurrent, hfirst]

theorem locate?_join {es : List (Text × Node)} {name : Text} {child : Node}
    (hl : fs.locate? p = some l) (hdirectory : fs.root.find? l = some (.directory es))
    (hname : IsEntryName name) (hchild : es.lookup name = some child) :
    fs.locate? (p.join name) = some (l ++ [name]) ∧ fs.root.find? (l ++ [name]) = some child := by
  have hp := spelling_ne_nil_of_locate? hl
  obtain ⟨front, -, hjoin, hpieces⟩ := Path.pieces_join hp hname
  have hstep : follow fs.root l [name] = some (l ++ [name]) := by
    simp [follow, hdirectory, hname.ne_nil, hname.ne_current, hname.ne_parent, hchild]
  have hspelling : (p.join name).spelling.isEmpty = false := by
    unfold Path.join
    split <;> simp [hp]
  have hempty : p.spelling.isEmpty = false := by simpa using hp
  unfold locate? at hl ⊢
  rw [hempty, if_neg Bool.false_ne_true] at hl
  rw [hspelling, if_neg Bool.false_ne_true, hjoin, Path.isAbsolute_join hp name, follow_append]
  -- A slash at the end of `p` only asks for a directory, which is there.
  have hfront : follow fs.root (if p.isAbsolute then [] else fs.workingDirectory) front =
      some l := by
    rcases hpieces with hpieces | hpieces
    · rwa [hpieces] at hl
    · rw [hpieces, follow_append] at hl
      obtain ⟨m, hm, hlast⟩ := Option.bind_eq_some_iff.1 hl
      rw [hm, follow_eq_some hlast]
      rfl
  refine ⟨by rw [hfront]; exact hstep, ?_⟩
  rw [Node.find?_append, hdirectory]
  exact hchild

end FileSystem

end EmbeddedSql
