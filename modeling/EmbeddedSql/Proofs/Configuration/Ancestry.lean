import Mathlib.Data.List.Infix
import EmbeddedSql.Configuration
import EmbeddedSql.Proofs.Files.Destination

namespace EmbeddedSql

def Location.chain (l : Location) : List Location := l.inits.reverse

namespace Location

variable {d l : Location}

theorem mem_chain : d ∈ l.chain ↔ d <+: l := by
  rw [chain, List.mem_reverse, List.mem_inits]

theorem chain_concat (l : Location) (name : Text) :
    chain (l ++ [name]) = (l ++ [name]) :: l.chain := by
  simp [chain, List.inits_append]

theorem pairwise_chain (l : Location) : l.chain.Pairwise fun d e => e <+: d ∧ e ≠ d := by
  induction l using List.reverseRecOn with
  | nil => exact List.pairwise_singleton ..
  | append_singleton l name ih =>
      rw [chain_concat]
      refine List.pairwise_cons.2 ⟨?_, ih⟩
      intro e he
      have hbegins := mem_chain.1 he
      refine ⟨hbegins.trans (List.prefix_append l [name]), ?_⟩
      rintro rfl
      have hlength := hbegins.length_le
      rw [List.length_append, List.length_singleton] at hlength
      omega

end Location

namespace FileSystem

variable {l : Location}

theorem pieces_intercalate (hl : ∀ name ∈ l, IsEntryName name) (hne : l ≠ []) :
    Path.pieces ⟨['/'].intercalate l⟩ = l := by
  induction l with
  | nil => exact absurd rfl hne
  | cons name l ih =>
      obtain ⟨hname, hrest⟩ := List.forall_mem_cons.1 hl
      cases l with
      | nil => rw [List.intercalate_singleton, Path.pieces_entryName hname]
      | cons other l =>
          rw [List.intercalate_cons_cons, List.append_assoc, List.singleton_append,
            Path.pieces_slash, Path.pieces_entryName hname, ih hrest (by simp)]
          rfl

theorem pieces_pathOf (hl : ∀ name ∈ l, IsEntryName name) :
    (pathOf l).pieces = [] :: if l = [] then [[]] else l := by
  rw [pathOf, ← List.nil_append ('/' :: _), Path.pieces_slash]
  split
  next hnil => subst hnil; rfl
  next hne => rw [pieces_intercalate hl hne]; rfl

theorem isAbsolute_pathOf (l : Location) : (pathOf l).isAbsolute = true := rfl

theorem components_pathOf (hl : ∀ name ∈ l, IsEntryName name) :
    (pathOf l).components = .root :: l.map .name := by
  have hlater : (if l = [] then [[]] else l).filterMap Path.laterComponent? = l.map .name := by
    split
    next hnil => subst hnil; rfl
    next =>
      rw [← List.filterMap_eq_map]
      refine List.filterMap_congr ?_
      intro name hname
      exact (hl name hname).laterComponent?
  rw [Path.components, pieces_pathOf hl]
  simp [isAbsolute_pathOf, hlater]

theorem parent?_pathOf_nil : (pathOf []).parent? = none := by decide

theorem trimPieces_cons {name : Text} (hname : IsEntryName name) (rest : List Text) :
    Path.trimPieces (name :: rest) = name :: rest := by
  cases rest with
  | nil => rfl
  | cons piece rest =>
      rw [Path.trimPieces, hname.laterComponent?, Option.isNone_some, if_neg Bool.false_ne_true]
      simp

theorem parent?_pathOf_concat {name : Text} (hl : ∀ n ∈ l ++ [name], IsEntryName n) :
    (pathOf (l ++ [name])).parent? = some (pathOf l) := by
  have hpieces : (pathOf (l ++ [name])).pieces.reverse = name :: (l.reverse ++ [[]]) := by
    rw [pieces_pathOf hl, if_neg (by simp)]
    simp
  rw [Path.parent?, hpieces, trimPieces_cons (hl name (by simp))]
  obtain rfl | ⟨l, other, rfl⟩ := l.eq_nil_or_concat'
  · rfl
  · obtain ⟨piece, pieces, hcons⟩ : ∃ piece pieces, l.reverse ++ [[]] = piece :: pieces :=
      List.exists_cons_of_ne_nil (by simp)
    have hback : (other :: piece :: pieces).reverse = [] :: (l ++ [other]) := by
      rw [← hcons]
      simp
    rw [List.reverse_concat', List.cons_append, hcons]
    dsimp only
    rw [trimPieces_cons (hl other (by simp))]
    split
    next hroot => cases hroot
    next =>
      rw [hback, List.intercalate_cons_of_ne_nil (by simp)]
      rfl

theorem ancestors_pathOf (hl : ∀ name ∈ l, IsEntryName name) :
    (pathOf l).ancestors = l.chain.map pathOf := by
  have hwithin : ∀ n, l.length ≤ n →
      Path.ancestorsWithin n (pathOf l) = l.chain.map pathOf := by
    induction l using List.reverseRecOn with
    | nil =>
        intro n _
        cases n with
        | zero => rfl
        | succ n => rw [Path.ancestorsWithin, parent?_pathOf_nil]; rfl
    | append_singleton l name ih =>
        intro n hn
        rw [List.length_append, List.length_singleton] at hn
        obtain ⟨n, rfl⟩ := Nat.exists_eq_add_of_le' (Nat.le_of_add_left_le hn)
        rw [Path.ancestorsWithin, parent?_pathOf_concat hl, Location.chain_concat, List.map_cons]
        dsimp only
        rw [ih (fun m hm => hl m (by simp [hm])) n (by omega)]
  refine hwithin _ ?_
  rw [pieces_pathOf hl, List.length_cons]
  split
  next hnil => simp [hnil]
  next => omega

theorem components_pathOf_inj {m : Location} (hl : ∀ name ∈ l, IsEntryName name)
    (hm : ∀ name ∈ m, IsEntryName name) :
    (pathOf l).components = (pathOf m).components ↔ l = m := by
  rw [components_pathOf hl, components_pathOf hm, List.cons_inj_right]
  exact (List.map_injective_iff.2 fun _ _ => Component.name.inj).eq_iff

end FileSystem

theorem nodup_eraseDups {α : Type} [BEq α] [LawfulBEq α] (xs : List α) : xs.eraseDups.Nodup := by
  induction hn : xs.length using Nat.strong_induction_on generalizing xs with
  | h n ih =>
      cases xs with
      | nil => exact List.nodup_nil
      | cons x xs =>
          rw [List.eraseDups_cons]
          have hlength := List.length_filter_le (fun y => !y == x) xs
          rw [List.length_cons] at hn
          exact List.nodup_cons.2 ⟨by simp, ih _ (by omega) _ rfl⟩

theorem eraseDups_of_nodup {α : Type} [BEq α] [LawfulBEq α] {xs : List α} (h : xs.Nodup) :
    xs.eraseDups = xs := by
  induction xs with
  | nil => rfl
  | cons x xs ih =>
      obtain ⟨hx, hxs⟩ := List.nodup_cons.1 h
      have hfilter : xs.filter (fun y => !y == x) = xs := by
        refine List.filter_eq_self.2 ?_
        intro y hy
        have hne : y ≠ x := fun heq => hx (heq ▸ hy)
        simpa using hne
      rw [List.eraseDups_cons, hfilter, ih hxs]

theorem eraseDups_concat {α : Type} [BEq α] [LawfulBEq α] (xs : List α) (x : α) :
    (xs ++ [x]).eraseDups = if x ∈ xs then xs.eraseDups else xs.eraseDups ++ [x] := by
  rw [List.eraseDups_append]
  by_cases hx : x ∈ xs <;> simp [List.removeAll, List.eraseDups_cons, hx]

theorem findSome?_filter {α β : Type} {f : α → Option β} {p : α → Bool} {xs : List α}
    (h : ∀ x ∈ xs, (f x).isSome = true → p x = true) :
    (xs.filter p).findSome? f = xs.findSome? f := by
  induction xs with
  | nil => rfl
  | cons x xs ih =>
      obtain ⟨hx, hxs⟩ := List.forall_mem_cons.1 h
      rw [List.filter_cons, List.findSome?_cons, ← ih hxs]
      cases hf : f x with
      | none => split <;> simp [hf]
      | some b =>
          rw [if_pos (hx (by rw [hf]; rfl)), List.findSome?_cons, hf]

namespace Location

theorem pairwise_common (l : Location) (ls : List Location) :
    (((l :: ls).flatMap chain).eraseDups.filter fun d => ∀ m ∈ l :: ls, d <+: m).Pairwise
      fun d e => e <+: d ∧ e ≠ d := by
  have hnodup : l.chain.Nodup := l.pairwise_chain.imp fun h heq => h.2 heq.symm
  rw [List.flatMap_cons, List.eraseDups_append, eraseDups_of_nodup hnodup, List.filter_append]
  have hlater : ((ls.flatMap chain).removeAll l.chain).eraseDups.filter
      (fun d => ∀ m ∈ l :: ls, d <+: m) = [] := by
    refine List.filter_eq_nil_iff.2 ?_
    intro d hd hcommon
    have hnew : d ∉ l.chain := by
      have hd := List.mem_eraseDups.1 hd
      simp only [List.removeAll, List.mem_filter, Bool.not_eq_true'] at hd
      simpa using hd.2
    exact hnew (mem_chain.2 (of_decide_eq_true hcommon l (by simp)))
  rw [hlater, List.append_nil]
  exact l.pairwise_chain.sublist List.filter_sublist

end Location

namespace Configuration

open FileSystem

theorem addNew_pathOf {known new : List Location}
    (hnames : ∀ l ∈ known ++ new, ∀ name ∈ l, IsEntryName name) :
    addNew (known.eraseDups.map pathOf) (new.map pathOf) =
      (known ++ new).eraseDups.map pathOf := by
  induction new generalizing known with
  | nil => simp [addNew]
  | cons l new ih =>
      have hany : ((known.eraseDups.map pathOf).any fun q =>
          (pathOf l).components = q.components) = decide (l ∈ known) := by
        rw [List.any_map, Bool.eq_iff_iff, List.any_eq_true, decide_eq_true_iff]
        constructor
        · rintro ⟨m, hm, hcomponents⟩
          have hm := List.mem_eraseDups.1 hm
          rwa [(components_pathOf_inj (hnames l (by simp)) (hnames m (by simp [hm]))).1
            (of_decide_eq_true hcomponents)]
        · intro hl
          exact ⟨l, List.mem_eraseDups.2 hl, decide_eq_true rfl⟩
      have hstep : (if (known.eraseDups.map pathOf).any fun q =>
            (pathOf l).components = q.components then known.eraseDups.map pathOf
          else known.eraseDups.map pathOf ++ [pathOf l]) =
          (known ++ [l]).eraseDups.map pathOf := by
        rw [hany, eraseDups_concat]
        by_cases hl : l ∈ known <;> simp [hl]
      rw [List.append_cons] at hnames ⊢
      rw [← ih hnames, ← hstep]
      rfl

theorem searchedDirectories_eq_addNew (fs : FileSystem) (inputs : List Path) :
    searchedDirectories fs inputs =
      addNew [] ((inputs.map (directoryOf fs)).flatMap Path.ancestors) := by
  unfold searchedDirectories addNew
  rw [List.flatMap_map, List.foldl_flatMap]

section

variable {fs : FileSystem} {inputs : List Path} {ls : List Location}
  (hdirectories : inputs.map (directoryOf fs) = ls.map pathOf)
  (hnames : ∀ l ∈ ls, ∀ name ∈ l, IsEntryName name)

include hdirectories hnames

theorem searchedDirectories_eq :
    searchedDirectories fs inputs = (ls.flatMap Location.chain).eraseDups.map pathOf := by
  have hancestors : (ls.map pathOf).flatMap Path.ancestors =
      (ls.flatMap Location.chain).map pathOf := by
    rw [List.flatMap_map, List.map_flatMap]
    exact List.flatMap_congr fun l hl => ancestors_pathOf (hnames l hl)
  rw [searchedDirectories_eq_addNew, hdirectories, hancestors]
  refine @addNew_pathOf [] (ls.flatMap Location.chain) ?_
  intro d hd name hname
  obtain ⟨l, hl, hbegins⟩ := List.mem_flatMap.1 hd
  exact hnames l hl name ((Location.mem_chain.1 hbegins).subset hname)

theorem searchedDirectories_exact (hinputs : inputs ≠ []) :
    ∃ found : List Location, searchedDirectories fs inputs = found.map pathOf ∧
      found = (ls.flatMap Location.chain).eraseDups ∧ found.Nodup ∧
      (∀ d, d ∈ found ↔ ∃ l ∈ ls, d <+: l) ∧
      (found.filter fun d => ∀ l ∈ ls, d <+: l).Pairwise (fun d e => e <+: d ∧ e ≠ d) ∧
      ((∀ d, d ∈ found ↔ ∀ l ∈ ls, d <+: l) ↔ ∀ l ∈ ls, ∀ m ∈ ls, l = m) ∧
      (∀ p, find? fs inputs = some p ↔ ∃ before d after, found = before ++ d :: after ∧
        inDirectory? fs (pathOf d) = some p ∧ ∀ e ∈ before, inDirectory? fs (pathOf e) = none) ∧
      ((∀ d ∈ found, (inDirectory? fs (pathOf d)).isSome = true → ∀ l ∈ ls, d <+: l) →
        find? fs inputs = (found.filter fun d => ∀ l ∈ ls, d <+: l).findSome? fun d =>
          inDirectory? fs (pathOf d)) := by
  obtain ⟨l, ls, rfl⟩ : ∃ l rest, ls = l :: rest := by
    refine List.exists_cons_of_ne_nil ?_
    rintro rfl
    exact hinputs (List.map_eq_nil_iff.1 hdirectories)
  have hmem (d : Location) :
      d ∈ ((l :: ls).flatMap Location.chain).eraseDups ↔ ∃ m ∈ l :: ls, d <+: m := by
    simp only [List.mem_eraseDups, List.mem_flatMap, Location.mem_chain]
  have hfind : find? fs inputs = ((l :: ls).flatMap Location.chain).eraseDups.findSome? fun d =>
      inDirectory? fs (pathOf d) := by
    rw [find?, searchedDirectories_eq hdirectories hnames, List.findSome?_map]
    rfl
  refine ⟨_, searchedDirectories_eq hdirectories hnames, rfl, nodup_eraseDups _, hmem,
    Location.pairwise_common l ls, ?_, ?_, ?_⟩
  · constructor
    · intro hcommon a ha b hb
      have hab := (hcommon a).1 ((hmem a).2 ⟨a, ha, List.prefix_rfl⟩) b hb
      have hba := (hcommon b).1 ((hmem b).2 ⟨b, hb, List.prefix_rfl⟩) a ha
      exact hab.eq_of_length_le hba.length_le
    · intro hsame d
      rw [hmem]
      constructor
      · rintro ⟨m, hm, hbegins⟩ k hk
        rwa [hsame k hk m hm]
      · intro hcommon
        exact ⟨l, by simp, hcommon l (by simp)⟩
  · intro p
    rw [hfind, List.findSome?_eq_some_iff]
  · intro hcommon
    rw [hfind]
    refine (findSome?_filter ?_).symm
    intro d hd hsettings
    exact decide_eq_true (hcommon d hd hsettings)

end

theorem searchedDirectories_exact_nested :
    let fs : FileSystem :=
      { root := .directory
          [("p".toList, .directory
            [("x.py".toList, .file (.text [])), ("sqlembed.toml".toList, .file (.text [])),
              ("q".toList, .directory [("y.py".toList, .file (.text []))])])] }
    let inputs : List Path := [⟨"p/q/y.py".toList⟩, ⟨"p/x.py".toList⟩]
    let ls : List Location := [["p".toList, "q".toList], ["p".toList]]
    inputs.map (directoryOf fs) = ls.map pathOf ∧
      (∀ l ∈ ls, ∀ name ∈ l, IsEntryName name) ∧ inputs ≠ [] ∧
      find? fs inputs = some ⟨"/p/sqlembed.toml".toList⟩ := by
  intro fs inputs ls
  have hdirectories : inputs.map (directoryOf fs) = ls.map pathOf := by decide +kernel
  have hnames : ∀ l ∈ ls, ∀ name ∈ l, IsEntryName name := by decide
  have hinputs : inputs ≠ [] := List.cons_ne_nil _ _
  obtain ⟨found, -, rfl, -, -, -, -, hfind, -⟩ :=
    searchedDirectories_exact hdirectories hnames hinputs
  refine ⟨hdirectories, hnames, hinputs, (hfind _).2 ?_⟩
  exact ⟨[["p".toList, "q".toList]], ["p".toList], [[]], by decide +kernel, by decide +kernel,
    by decide +kernel⟩

theorem find?_outside_common :
    let fs : FileSystem :=
      { root := .directory
          [("a".toList, .directory
            [("x.py".toList, .file (.text [])),
              ("sqlembed.toml".toList, .file (.text "line_length = 60\n".toList))]),
            ("b".toList, .directory [("y.py".toList, .file (.text []))])] }
    let inputs : List Path := [⟨"a/x.py".toList⟩, ⟨"b/y.py".toList⟩]
    inputs.map (directoryOf fs) = [["a".toList], ["b".toList]].map pathOf ∧
      searchedDirectories fs inputs = [["a".toList], [], ["b".toList]].map pathOf ∧
      (¬∀ d, d ∈ searchedDirectories fs inputs ↔
        ∀ input ∈ inputs, d ∈ (directoryOf fs input).ancestors) ∧
      find? fs inputs = some ((pathOf ["a".toList]).join fileName) ∧
      pathOf ["a".toList] ∉ (directoryOf fs ⟨"b/y.py".toList⟩).ancestors := by
  intro fs inputs
  have houtside : pathOf ["a".toList] ∉ (directoryOf fs ⟨"b/y.py".toList⟩).ancestors := by
    decide +kernel
  refine ⟨by decide +kernel, by decide +kernel, ?_, by decide +kernel, houtside⟩
  intro hcommon
  have hsearched : pathOf ["a".toList] ∈ searchedDirectories fs inputs := by decide +kernel
  exact houtside ((hcommon _).1 hsearched _ (by simp [inputs]))

end Configuration

end EmbeddedSql
