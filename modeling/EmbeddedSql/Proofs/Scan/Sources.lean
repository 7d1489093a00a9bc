import EmbeddedSql.Proofs.Literal.Stepping
import EmbeddedSql.Proofs.Scan.Characters
import EmbeddedSql.Proofs.Scan.Names
import EmbeddedSql.Proofs.Scan.Searching

namespace EmbeddedSql.Scan

open Text

def templateEnd? (bs : List UInt8) (i : Nat) : Option (Option Nat) :=
  if i < bs.length then
    if bs[i]? = some backslash.toUInt8 then templateEnd? bs (i + 2)
    else if bs[i]? = some backtick.toUInt8 then some (some i)
    else if bs[i]? = some '$'.toUInt8 ∧ bs[i + 1]? = some openBrace.toUInt8 then
      (bracedEnd? bs 0 (i + 1)).bind fun j => if i < j then templateEnd? bs j else none
    else templateEnd? bs (i + 1)
  else some none
termination_by bs.length - i

structure Placed where
  start : Nat
  stop : Nat
  after : Nat
  style : QuoteStyle
  deriving DecidableEq, Repr

def locateAt? (triples : Bool) (bs : List UInt8) (q : Nat) : Option (Option Placed) :=
  bs[q]?.map fun quote =>
    if triples && [quote, quote, quote].isPrefixOf (bs.drop q) then
      (tripleQuoteEnd? quote bs (q + 3)).map fun stop =>
        ⟨q + 3, stop, stop + 3,
          if quote = doubleQuote.toUInt8 then .tripleDouble else .tripleSingle⟩
    else
      (lineQuoteEnd? quote bs (q + 1)).map fun stop =>
        ⟨q + 1, stop, stop + 1, if quote = doubleQuote.toUInt8 then .double else .single⟩

def lineEnd (bs : List UInt8) (i : Nat) : Nat := (find? [newlineByte] bs i).getD bs.length

def placed? (source : Text) (l : Placed) (identifier : Option Text) : Option Occurrence :=
  (source.slice? l.start l.stop).map fun content => ⟨content, identifier, l.start, l.stop, l.style⟩

def isStatementAt? (source : Text) (depth start : Nat) : Option Bool :=
  if 0 < depth then some false
  else do
    let front ← source.slice? 0 start
    let lineStart := ((Binding.lastAt? (· == '\n') front).map (· + 1)).getD 0
    let line ← source.slice? lineStart start
    if !(trimStart (trimEnd line)).isEmpty then some false
    else do
      let lines ← source.slice? 0 lineStart
      some ((trimEndWhile (fun c => c == '\n' || c == '\r') lines).getLast? ≠ some backslash)

structure Progress where
  depth : Nat := 0
  found : List Occurrence := []

def record? (source : Text) (s : Progress) (l : Placed) (identifier : Option Text) :
    Option (Nat × Progress) :=
  (placed? source l identifier).map fun o => (l.after, { s with found := s.found ++ [o] })

def stringStep? (source : Text) (s : Progress) (start q : Nat) : Option (Nat × Progress) := do
  match ← locateAt? true (utf8 source) q with
  | none => some (q + 1, s)
  | some l =>
      let mark ← source.slice? start q
      let skipped ←
        if List.contains mark 'b' || List.contains mark 'B' then some true
        else isStatementAt? source s.depth start
      if skipped then some (l.after, s)
      else
        let before ← source.slice? 0 start
        let identifier ← Binding.boundName? .python before
        record? source s l identifier

def wordStep? (source : Text) (s : Progress) (i : Nat) : Option (Nat × Progress) :=
  let stop := runEnd isWordChar (utf8 source) i
  (source.slice? i stop).bind fun word =>
    if ((utf8 source)[stop]?.any fun b => isQuote (Char.ofUInt8 b)) &&
        stringMarks.contains (lower word) then
      stringStep? source s i stop
    else some (stop, s)

def pythonStepAt? (source : Text) (i : Nat) (s : Progress) : Option (Nat × Progress) :=
  (utf8 source)[i]?.bind fun b =>
    let c := Char.ofUInt8 b
    if c == '#' then some (lineEnd (utf8 source) i, s)
    else if isQuote c then stringStep? source s i i
    else if c == '(' || c == '[' || c == openBrace then
      some (i + 1, { s with depth := s.depth + 1 })
    else if c == ')' || c == ']' || c == closeBrace then
      some (i + 1, { s with depth := s.depth - 1 })
    else if isWordChar c then wordStep? source s i
    else some (i + 1, s)

def blockCommentStep? (source : Text) (s : Progress) (i : Nat) : Option (Nat × Progress) :=
  (source.slice? (i + 2) source.bytes).map fun rest =>
    match find? (['*', '/'].map Char.toUInt8) (utf8 rest) 0 with
    | some p => (i + 2 + p + 2, s)
    | none => ((utf8 source).length, s)

def quotedStep? (source : Text) (s : Progress) (i : Nat) : Option (Nat × Progress) := do
  match ← locateAt? false (utf8 source) i with
  | none => some (i + 1, s)
  | some l =>
      let before ← source.slice? 0 i
      let identifier ← Binding.boundName? .javaScript before
      record? source s l identifier

def templateStep? (source : Text) (s : Progress) (i : Nat) : Option (Nat × Progress) := do
  match ← templateEnd? (utf8 source) (i + 1) with
  | none => some ((utf8 source).length, s)
  | some stop =>
      let before ← source.slice? 0 i
      let tag ← Binding.tagName? before
      let identifier ← if tag.isSome then some tag else Binding.boundName? .javaScript before
      record? source s ⟨i + 1, stop, stop + 1, .template⟩ identifier

def javaScriptStepAt? (source : Text) (i : Nat) (s : Progress) : Option (Nat × Progress) :=
  (utf8 source)[i]?.bind fun b =>
    let c := Char.ofUInt8 b
    if c == '/' && (utf8 source)[i + 1]? == some '/'.toUInt8 then
      some (lineEnd (utf8 source) i, s)
    else if c == '/' && (utf8 source)[i + 1]? == some '*'.toUInt8 then blockCommentStep? source s i
    else if isQuote c then quotedStep? source s i
    else if c == backtick then templateStep? source s i
    else some (i + 1, s)

/-- Take steps from byte `i` on to the end. There is no answer if a step fails or does not get
on. -/
def advance? (length : Nat) (step : Nat → Progress → Option (Nat × Progress)) (i : Nat)
    (s : Progress) : Option Progress :=
  if i < length then
    (step i s).bind fun (j, s') => if i < j then advance? length step j s' else none
  else some s
termination_by length - i

def extractBytes? (language : HostLanguage) (source : Text) : Option (List Occurrence) :=
  let step := match language with
    | .python => pythonStepAt? source
    | .javaScript => javaScriptStepAt? source
  (advance? (utf8 source).length step 0 {}).map Progress.found

section

variable {t u r : Text} {i : Nat} {q c : Char}

theorem tripleQuoteEnd?_restAt (hq : q.utf8Size = 1) (hslash : q ≠ backslash) (h : RestAt t i u) :
    tripleQuoteEnd? q.toUInt8 (utf8 t) i =
      (Extent.triple? q u).map fun n => i + bytes (u.take n) := by
  obtain ⟨front, rfl, rfl⟩ := h
  simp only [tripleQuoteEnd?_utf8 hq hslash, bytes_append]

theorem lineQuoteEnd?_restAt (hq : q.utf8Size = 1) (hslash : q ≠ backslash) (hline : q ≠ '\n')
    (h : RestAt t i u) :
    lineQuoteEnd? q.toUInt8 (utf8 t) i = (Extent.line? q u).map fun n => i + bytes (u.take n) := by
  obtain ⟨front, rfl, rfl⟩ := h
  simp only [lineQuoteEnd?_utf8 hq hslash hline, bytes_append]

theorem templateEnd?_idle {bs rest : List UInt8} {b : UInt8} (h : bs.drop i = b :: rest)
    (hb : b ∉ [backslash, backtick, '$'].map Char.toUInt8) :
    templateEnd? bs i = templateEnd? bs (i + 1) := by
  have hbyte : bs[i]? = some b := by rw [← List.head?_drop, h, List.head?_cons]
  have hother : b ≠ backslash.toUInt8 ∧ b ≠ backtick.toUInt8 ∧ b ≠ '$'.toUInt8 := by
    simpa using hb
  rw [templateEnd?, if_pos (lt_length_of_drop h), hbyte]
  simp [hother]

theorem templateEnd?_cons (h : RestAt t i (c :: r)) : templateEnd? (utf8 t) i =
    if c == backslash then templateEnd? (utf8 t) (i + 2)
    else if c == backtick then some (some i)
    else if c == '$' && r.head? == some openBrace then
      (bracedEnd? (utf8 t) 0 (i + 1)).bind fun j =>
        if i < j then templateEnd? (utf8 t) j else none
    else templateEnd? (utf8 t) (i + c.utf8Size) := by
  have hidle : templateEnd? (utf8 t) (i + 1) = templateEnd? (utf8 t) (i + c.utf8Size) :=
    h.skip_behind_first [backslash, backtick, '$'] (fun i b r => templateEnd?_idle)
      (forall_utf8Size rfl)
  have hbyte (w : Char) (hw : w.utf8Size = 1) :
      (utf8 t)[i]? = some w.toUInt8 ↔ (c == w) = true := by
    rw [h.byteAt_iff hw, List.head?_cons, Option.some_inj, beq_iff_eq]
  have hbrace : (c == '$') = true →
      ((utf8 t)[i + 1]? = some openBrace.toUInt8 ↔ (r.head? == some openBrace) = true) := by
    intro hc
    obtain rfl := beq_iff_eq.1 hc
    rw [(h.next rfl).byteAt_iff rfl, beq_iff_eq]
  rw [templateEnd?, if_pos h.lt_length, ← hidle]
  simp only [hbyte backslash rfl, hbyte backtick rfl, hbyte '$' rfl, Bool.and_eq_true]
  by_cases hdollar : (c == '$') = true
  · simp only [hdollar, hbrace hdollar]
  · simp only [hdollar, Bool.false_eq_true, false_and]

theorem templateEnd?_nil (h : (utf8 t).length ≤ i) : templateEnd? (utf8 t) i = some none := by
  rw [templateEnd?, if_neg (Nat.not_lt.2 h)]

theorem templateEnd?_utf8 (h : RestAt t i u) : templateEnd? (utf8 t) i =
    some ((Extent.template? u).map fun n => i + bytes (u.take n)) := by
  fun_induction Extent.template? u generalizing i with
  | case1 => exact templateEnd?_nil (Nat.le_of_eq h.eq_length.symm)
  | case2 c r hslash ih =>
      rw [templateEnd?_cons h, if_pos hslash]
      have hnext := h.next (utf8Size_of_beq rfl hslash)
      cases r with
      | nil =>
          rw [templateEnd?_nil (by rw [← hnext.eq_length]; omega)]
          simp [Extent.template?]
      | cons d r =>
          -- two bytes behind the backslash the search may stand inside `d`
          have hidle : templateEnd? (utf8 t) (i + 1 + 1) =
              templateEnd? (utf8 t) (i + 1 + d.utf8Size) :=
            hnext.skip_behind_first [backslash, backtick, '$'] (fun i b r => templateEnd?_idle)
              (forall_utf8Size rfl)
          rw [map_add_bytes_take, List.take_succ_cons, List.take_succ_cons, List.take_zero,
            bytes_cons, bytes_cons, utf8Size_of_beq rfl hslash, bytes_nil, Nat.add_zero,
            ← Nat.add_assoc]
          exact hidle.trans (ih hnext.cons)
  | case3 c r hslash htick =>
      rw [templateEnd?_cons h, if_neg hslash, if_pos htick]
      rfl
  | case4 c r hslash htick hbrace k =>
      rename_i ih
      obtain ⟨hdollar, hopen⟩ := Bool.and_eq_true_iff.1 hbrace
      obtain ⟨r, rfl⟩ := List.head?_eq_some_iff.1 (beq_iff_eq.1 hopen)
      have hsize := utf8Size_of_beq rfl hdollar
      have hpiece : openBrace :: r.take (Lexer.bracedTail 1 r) = (openBrace :: r).take k := by
        rw [show k = Lexer.bracedTail 1 r + 1 from Nat.add_comm ..]
        rfl
      rw [templateEnd?_cons h, if_neg hslash, if_neg htick, if_pos hbrace,
        bracedEnd?_opening (h.next hsize), Option.bind_some, hpiece, if_pos (by omega),
        ih ((h.next hsize).drop k), map_add_bytes_take, List.take_succ_cons, bytes_cons, hsize,
        ← Nat.add_assoc]
      rfl
  | case5 c r hslash htick hbrace ih =>
      rw [templateEnd?_cons h, if_neg hslash, if_neg htick, if_neg hbrace, ih h.cons,
        map_add_bytes_take]
      rfl

theorem lineEnd_utf8 (h : RestAt t i u) :
    RestAt t (lineEnd (utf8 t) i) (u.dropWhile (· ≠ '\n')) := by
  rw [lineEnd, show newlineByte = '\n'.toUInt8 from rfl]
  by_cases hu : '\n' ∈ u
  · obtain ⟨s, r, rfl, hs⟩ : ∃ s r : Text, u = s ++ '\n' :: r ∧ '\n' ∉ s :=
      List.eq_append_cons_of_mem hu
    have hall : ∀ c ∈ s, decide (c ≠ '\n') = true :=
      fun c hc => decide_eq_true fun hline => hs (hline ▸ hc)
    rw [find?_eq_some rfl hs h, List.dropWhile_append_of_pos hall,
      List.dropWhile_cons_of_neg (by decide)]
    exact h.append
  · have hall : ∀ c ∈ u, decide (c ≠ '\n') = true :=
      fun c hc => decide_eq_true fun hline => hu (hline ▸ hc)
    rw [find?_eq_none rfl hu h, List.dropWhile_eq_nil_iff.2 hall]
    rw [← List.append_nil u] at h
    have hend := h.append
    rw [hend.eq_length] at hend
    exact hend

def placedAt (q : Nat) (l : Located) : Placed :=
  let start := q + l.style.delimiter.bytes
  ⟨start, start + l.content.bytes, start + l.content.bytes + l.style.delimiter.bytes, l.style⟩

theorem isQuote_cases (hq : isQuote q = true) :
    q.utf8Size = 1 ∧ q ≠ backslash ∧ q ≠ '\n' ∧
      ((q.toUInt8 = doubleQuote.toUInt8) ↔ (q == doubleQuote) = true) := by
  rcases Bool.or_eq_true_iff.1 hq with hq | hq <;> rw [beq_iff_eq.1 hq] <;> decide

theorem locateAt?_utf8 (triples : Bool) (hq : isQuote q = true) (h : RestAt t i (q :: r)) :
    locateAt? triples (utf8 t) i = some ((locate? triples q r).map (placedAt i)) := by
  obtain ⟨hsize, hslash, hline, hdouble⟩ := isQuote_cases hq
  have hbyte : (utf8 t)[i]? = some q.toUInt8 := (h.byteAt_iff hsize).2 rfl
  have hstart : [q.toUInt8, q.toUInt8, q.toUInt8].isPrefixOf ((utf8 t).drop i) =
      startsWith r [q, q] := by
    rw [h.drop_utf8]
    have hprefix := isPrefixOf_utf8 (s := [q, q, q]) (by simpa using hsize) (q :: r)
    rw [show [q.toUInt8, q.toUInt8, q.toUInt8] = [q, q, q].map Char.toUInt8 from rfl, hprefix]
    simp [startsWith, List.isPrefixOf]
  rw [locateAt?, hbyte, Option.map_some, hstart, locate?]
  by_cases htriple : (triples && startsWith r [q, q]) = true
  · obtain ⟨body, rfl⟩ := List.isPrefixOf_iff_prefix.1 (Bool.and_eq_true_iff.1 htriple).2
    have hbody : RestAt t (i + 3) body := ((h.next hsize).next hsize).next hsize
    rw [if_pos htriple, if_pos htriple, tripleQuoteEnd?_restAt hsize hslash hbody, Option.map_map,
      Option.map_map]
    dsimp only [List.cons_append, List.nil_append, List.drop_succ_cons, List.drop_zero]
    congr 2
    funext n
    by_cases hd : (q == doubleQuote) = true <;> simp only [Function.comp_apply, hdouble, hd] <;> rfl
  · rw [if_neg htriple, if_neg htriple, lineQuoteEnd?_restAt hsize hslash hline (h.next hsize),
      Option.map_map, Option.map_map]
    congr 2
    funext n
    by_cases hd : (q == doubleQuote) = true <;> simp only [Function.comp_apply, hdouble, hd] <;> rfl

end

end EmbeddedSql.Scan
