import EmbeddedSql.Files.FileSystem

namespace EmbeddedSql

namespace Node

def content? : Node → Option Content
  | .file c => some c
  | .directory _ => none

theorem lookup_map (name other : Text) (g : Node → Node) (es : List (Text × Node)) :
    (es.map fun (n, child) => (n, if n = name then g child else child)).lookup other =
      (es.lookup other).map fun child => if other = name then g child else child := by
  induction es with
  | nil => rfl
  | cons e es ih =>
      obtain ⟨n, child⟩ := e
      simp only [List.map_cons, List.lookup_cons, ih]
      by_cases h : other = n
      · subst h
        simp
      · have hne : (other == n) = false := beq_eq_false_iff_ne.2 h
        simp only [hne]

theorem find?_append (n : Node) (l : Location) (name : Text) :
    n.find? (l ++ [name]) = (n.find? l).bind fun child => child.entry? name := by
  induction l generalizing n with
  | nil => cases h : n.entry? name <;> simp [find?, h]
  | cons first l ih =>
      simp only [List.cons_append, find?, Option.bind_assoc]
      congr 1
      funext child
      exact ih child

theorem find?_insert_file {n : Node} {l : Location} {old : Content} (c : Content)
    (h : n.find? l = some (.file old)) (other : Location) :
    ((n.insert l (.file c)).find? other).map content? =
      if other = l then some (some c) else (n.find? other).map content? := by
  induction l generalizing n other with
  | nil =>
      obtain rfl : n = .file old := by simpa [find?] using h
      cases other <;> simp [insert, find?, content?, entry?, entries]
  | cons name rest ih =>
      rw [find?] at h
      obtain ⟨child, hchild, hrest⟩ := Option.bind_eq_some_iff.1 h
      have hn : (n.find? []).map content? = some none := by
        cases n with
        | file c => simp [entries, entry?] at hchild
        | directory es => rfl
      rw [insert, hchild]
      dsimp only
      cases other with
      | nil => rw [if_neg (by simp), hn]; rfl
      | cons first others =>
          have hentry : entry? (directory (n.entries.map fun (m, child) =>
                (m, if m = name then insert child rest (.file c) else child))) first =
              (n.entry? first).map fun child =>
                if first = name then insert child rest (.file c) else child :=
            lookup_map name first (fun child => insert child rest (.file c)) n.entries
          rw [find?, hentry, find?]
          by_cases hname : first = name
          · subst hname
            rw [hchild]
            simpa using ih hrest others
          · have hne : first :: others ≠ name :: rest := fun h => hname (List.cons.inj h).1
            simp only [if_neg hname, if_neg hne, Option.map_id']

end Node

namespace FileSystem

def holds (fs : FileSystem) (l : Location) : Option (Option Content) :=
  (fs.root.find? l).map Node.content?

structure SameTree (fs fs' : FileSystem) : Prop where
  workingDirectory : fs'.workingDirectory = fs.workingDirectory
  readOnly : fs'.readOnly = fs.readOnly
  holds : ∀ l, (fs'.holds l).map Option.isSome = (fs.holds l).map Option.isSome

theorem SameTree.refl (fs : FileSystem) : SameTree fs fs := ⟨rfl, rfl, fun _ => rfl⟩

theorem SameTree.trans {fs fs' fs'' : FileSystem} (h : SameTree fs fs') (h' : SameTree fs' fs'') :
    SameTree fs fs'' :=
  ⟨h'.workingDirectory.trans h.workingDirectory, h'.readOnly.trans h.readOnly,
    fun l => (h'.holds l).trans (h.holds l)⟩

theorem follow_step (fs : FileSystem) (l : Location) (piece : Text) (rest : List Text) :
    follow fs.root l (piece :: rest) =
      if fs.holds l = some none then
        if piece = [] || piece = ['.'] then follow fs.root l rest
        else if piece = ['.', '.'] then follow fs.root l.dropLast rest
        else if (fs.holds (l ++ [piece])).isSome then follow fs.root (l ++ [piece]) rest
        else none
      else none := by
  have hbelow : (fs.holds (l ++ [piece])).isSome =
      ((fs.root.find? l).bind fun child => child.entry? piece).isSome := by
    rw [holds, Option.isSome_map, Node.find?_append]
  rw [follow, hbelow, holds]
  cases hl : fs.root.find? l with
  | none => simp
  | some n =>
      cases n with
      | file c => simp [Node.content?]
      | directory es => rfl

theorem SameTree.follow {fs fs' : FileSystem} (h : SameTree fs fs') (l : Location)
    (pieces : List Text) : follow fs'.root l pieces = FileSystem.follow fs.root l pieces := by
  have hdirectory (l : Location) : fs'.holds l = some none ↔ fs.holds l = some none := by
    have hl := h.holds l
    rcases hx : fs'.holds l with _ | _ | c <;> rcases hy : fs.holds l with _ | _ | d <;>
      simp_all
  have hsome (l : Location) : (fs'.holds l).isSome = (fs.holds l).isSome := by
    rw [← Option.isSome_map, h.holds, Option.isSome_map]
  induction pieces generalizing l with
  | nil => rfl
  | cons piece rest ih => simp only [follow_step, ih, hdirectory, hsome]

theorem SameTree.locate? {fs fs' : FileSystem} (h : SameTree fs fs') (p : Path) :
    fs'.locate? p = fs.locate? p := by
  rw [FileSystem.locate?, FileSystem.locate?, h.workingDirectory, h.follow]

theorem SameTree.isReadOnly {fs fs' : FileSystem} (h : SameTree fs fs') (p : Path) :
    fs'.isReadOnly p = fs.isReadOnly p := by
  rw [FileSystem.isReadOnly, FileSystem.isReadOnly, h.locate? p, h.readOnly]

theorem read_eq (fs : FileSystem) (p : Path) : fs.read p =
    match (fs.locate? p).bind fs.holds with
    | some (some (.text t)) => .ok t
    | some (some (.binary _)) => .error .notText
    | some none => .error .isDirectory
    | none => .error .notFound := by
  unfold read node? holds
  cases fs.locate? p with
  | none => rfl
  | some l =>
      dsimp only [Option.bind_some]
      cases fs.root.find? l with
      | none => rfl
      | some n =>
          cases n with
          | file c => cases c <;> rfl
          | directory es => rfl

theorem read_congr {fs fs' : FileSystem} (h : SameTree fs fs') {p : Path}
    (hholds : ∀ l ∈ fs.locate? p, fs'.holds l = fs.holds l) : fs'.read p = fs.read p := by
  rw [read_eq, read_eq, h.locate? p]
  cases hl : fs.locate? p with
  | none => rfl
  | some l => simp only [Option.bind_some, hholds l hl]

theorem exists_of_read {fs : FileSystem} {p : Path} {t : Text} (h : fs.read p = .ok t) :
    ∃ l, fs.locate? p = some l ∧ fs.holds l = some (some (.text t)) := by
  rw [read_eq] at h
  cases hl : fs.locate? p with
  | none => simp [hl] at h
  | some l =>
      refine ⟨l, rfl, ?_⟩
      rw [hl, Option.bind_some] at h
      rcases hh : fs.holds l with _ | _ | c
      · simp [hh] at h
      · simp [hh] at h
      · cases c with
        | text t' =>
            obtain rfl : t' = t := by simpa [hh] using h
            rfl
        | binary bytes => simp [hh] at h

theorem write_of_read {fs : FileSystem} {p : Path} {source : Text} (h : fs.read p = .ok source)
    (t : Text) :
    fs.write p t = if fs.isReadOnly p then .error .denied else .ok (fs.put p t) := by
  obtain ⟨l, hl, -⟩ := exists_of_read h
  rw [write, hl]
  rfl

section

variable {fs : FileSystem} {p : Path} {l : Location} {old : Content} (t : Text)
  (hl : fs.locate? p = some l) (hold : fs.holds l = some (some old))

include hl hold

theorem holds_put (other : Location) :
    (fs.put p t).holds other = if other = l then some (some (.text t)) else fs.holds other := by
  have hfile : fs.root.find? l = some (.file old) := by
    obtain ⟨n, hn, hcontent⟩ := Option.map_eq_some_iff.1 hold
    cases n with
    | file c => rw [hn, show c = old by simpa [Node.content?] using hcontent]
    | directory es => simp [Node.content?] at hcontent
  unfold put holds
  rw [hl]
  exact Node.find?_insert_file (.text t) hfile other

theorem put_sameTree : SameTree fs (fs.put p t) where
  workingDirectory := by rw [put, hl]
  readOnly := by rw [put, hl]
  holds other := by
    rw [holds_put t hl hold]
    split
    next h => rw [h, hold]; rfl
    · rfl

end

end FileSystem

end EmbeddedSql
