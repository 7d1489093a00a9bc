import EmbeddedSql.Literal.Extent
import EmbeddedSql.Proofs.Scan.Leaping
import EmbeddedSql.Proofs.Text.Encoding

namespace EmbeddedSql.Scan

open Text

variable {α : Type}

/-- Only some characters of one byte matter to a reader of text, and a backslash shields what
follows. -/
structure Reader.Minds (A : Reader α) (ws : List Char) : Prop where
  single : ∀ w ∈ ws, w.utf8Size = 1
  idle : ∀ p b, b ∉ ws.map Char.toUInt8 → A.step (.live 0) p b = .next (.live 0)
  shields : ∀ p, A.step (.live 0) p backslashByte = .next .inert

namespace Reader.Minds

variable {A : Reader α} {ws : List Char} (hA : A.Minds ws)

include hA

theorem run_idle_append {bs : List UInt8} (hbs : ∀ b ∈ bs, b ∉ ws.map Char.toUInt8) (p : Nat)
    (rest : List UInt8) :
    A.run (.live 0) p (bs ++ rest) = A.run (.live 0) (p + bs.length) rest := by
  induction bs generalizing p with
  | nil => rfl
  | cons b bs ih =>
      obtain ⟨hb, hbs⟩ := List.forall_mem_cons.1 hbs
      rw [List.cons_append, run, hA.idle p b hb, List.length_cons, ← Nat.add_assoc,
        Nat.add_right_comm]
      exact ih hbs (p + 1)

theorem run_behind_first {phase : Phase} {p : Nat} {c : Char}
    (hstep : ∀ b, (∀ w : Char, w.utf8Size = 1 → (b = w.toUInt8 ↔ c = w)) →
      A.step phase p b = .next (.live 0)) (t : Text) :
    A.run phase p (utf8 (c :: t)) = A.run (.live 0) (p + c.utf8Size) (utf8 t) := by
  obtain ⟨b, bs, hbytes, hfirst⟩ := exists_utf8EncodeChar c
  have hothers : ∀ b ∈ bs, b ∉ ws.map Char.toUInt8 := by
    intro b hb hmem
    obtain ⟨w, hw, rfl⟩ := List.mem_map.1 hmem
    exact (hfirst w (hA.single w hw)).2 hb
  have hsize : c.utf8Size = bs.length + 1 := by
    rw [← String.length_utf8EncodeChar, hbytes, List.length_cons]
  rw [utf8_cons, hbytes, List.cons_append, run, hstep b fun w hw => (hfirst w hw).1, hsize,
    ← Nat.add_assoc, Nat.add_right_comm]
  exact hA.run_idle_append hothers (p + 1) (utf8 t)

theorem run_idle {c : Char} (hc : c ∉ ws) (p : Nat) (t : Text) :
    A.run (.live 0) p (utf8 (c :: t)) = A.run (.live 0) (p + c.utf8Size) (utf8 t) := by
  refine hA.run_behind_first (fun b hb => hA.idle p b fun hmem => ?_) t
  obtain ⟨w, hw, rfl⟩ := List.mem_map.1 hmem
  exact hc ((hb w (hA.single w hw)).1 rfl ▸ hw)

theorem run_backslash (p : Nat) (t : Text) :
    A.run (.live 0) p (utf8 (backslash :: t)) = A.run .inert (p + 1) (utf8 t) := by
  show A.run (.live 0) p (backslashByte :: utf8 t) = _
  rw [run, hA.shields]

theorem run_shielded {d : Char}
    (hinert : ∀ p b, (∀ w : Char, w.utf8Size = 1 → (b = w.toUInt8 ↔ d = w)) →
      A.step .inert p b = .next (.live 0))
    (p : Nat) (t : Text) :
    A.run (.live 0) p (utf8 (backslash :: d :: t)) =
      A.run (.live 0) (p + bytes [backslash, d]) (utf8 t) := by
  rw [hA.run_backslash, hA.run_behind_first (hinert (p + 1)), Nat.add_assoc]
  rfl

theorem run_last {c : Char} (hc : c ∈ ws → c = backslash) (p : Nat) :
    A.run (.live 0) p (utf8 [c]) = A.ended := by
  by_cases hbackslash : c = backslash
  · rw [hbackslash, hA.run_backslash]
    rfl
  · rw [hA.run_idle (mt hc hbackslash)]
    rfl

end Reader.Minds

theorem escapedQuoteReader_minds (quote : UInt8) (length : Nat) :
    (escapedQuoteReader quote length).Minds [backslash] where
  single := List.forall_mem_singleton.2 rfl
  idle := escapedQuoteReader_idle quote length
  shields p := by simp [escapedQuoteReader]

section

variable {q : Char} (hq : q.utf8Size = 1)

section

include hq

theorem quotedReader_minds (doubled : Bool) (length : Nat) :
    (quotedReader q.toUInt8 doubled length).Minds [q, backslash] where
  single := by simpa using ⟨hq, rfl⟩
  idle := quotedReader_idle q.toUInt8 doubled length
  shields p := by simp [quotedReader]

theorem lineReader_minds : (lineReader q.toUInt8).Minds [q, backslash, '\n'] where
  single := by simpa using ⟨hq, rfl, rfl⟩
  idle := lineReader_idle q.toUInt8
  shields p := by simp [lineReader]

theorem tripleReader_minds : (tripleReader q.toUInt8).Minds [q, backslash] where
  single := by simpa using ⟨hq, rfl⟩
  idle := tripleReader_idle q.toUInt8
  shields p := by simp [tripleReader]

theorem run_escapedQuoteReader_utf8 {length : Nat} {t : Text} {p : Nat}
    (hlength : p + bytes t = length) :
    (escapedQuoteReader q.toUInt8 length).run (.live 0) p (utf8 t) =
      p + bytes (t.take (Lexer.escapedQuoteTail q t)) := by
  have hreader := escapedQuoteReader_minds q.toUInt8 length
  fun_induction Lexer.escapedQuoteTail q t generalizing p with
  | case1 => exact hlength.symm
  | case2 c =>
      rw [hreader.run_last (by simp)]
      exact hlength.symm
  | case3 c d r hc hd =>
      rw [beq_iff_eq.1 hc, beq_iff_eq.1 hd, hreader.run_backslash, utf8_cons, utf8EncodeChar_eq hq]
      simp [Reader.run, escapedQuoteReader, hq, Nat.add_assoc, show backslash.utf8Size = 1 from rfl]
  | case4 c d r hc hd ih =>
      rw [beq_iff_eq.1 hc] at hlength ⊢
      have hinert : ∀ p b, (∀ w : Char, w.utf8Size = 1 → (b = w.toUInt8 ↔ d = w)) →
          (escapedQuoteReader q.toUInt8 length).step .inert p b = .next (.live 0) := by
        intro p b hb
        have hb : b ≠ q.toUInt8 := mt (hb q hq).1 (by simpa using hd)
        simp [escapedQuoteReader, hb]
      rw [hreader.run_shielded hinert, ih (by simpa [Nat.add_assoc] using hlength)]
      simp [Nat.add_comm 2, Nat.add_assoc]
  | case5 c d r hc ih =>
      rw [hreader.run_idle (by simpa using hc), ih (by simpa [Nat.add_assoc] using hlength)]
      simp [Nat.add_comm 1, Nat.add_assoc]

end

variable (hbackslash : q ≠ backslash)

include hq hbackslash

theorem toUInt8_ne_backslashByte : q.toUInt8 ≠ backslashByte :=
  mt (toUInt8_inj hq (c := backslash) rfl) hbackslash

section

variable {doubled : Bool} {length : Nat}

theorem run_quotedReader_quote {p : Nat} {t : Text} (hlength : p + bytes (q :: t) = length) :
    (quotedReader q.toUInt8 doubled length).run (.live 0) p (utf8 (q :: t)) =
      if doubled && t.head? == some q then
        (quotedReader q.toUInt8 doubled length).run (.live 0) (p + 2) (utf8 t.tail)
      else p + 1 := by
  have hstep := toUInt8_ne_backslashByte hq hbackslash
  rw [utf8_cons, utf8EncodeChar_eq hq, List.singleton_append, Reader.run]
  cases doubled with
  | false => simp [quotedReader, hstep]
  | true =>
      cases t with
      | nil =>
          rw [bytes_cons, hq] at hlength
          simp [quotedReader, hstep, Reader.run, ← hlength]
      | cons d t =>
          obtain ⟨b, bs, hbytes, hfirst⟩ := exists_utf8EncodeChar d
          by_cases hd : d = q
          · subst hd
            simp [quotedReader, hstep, Reader.run, utf8EncodeChar_eq hq]
          · have hb : b ≠ q.toUInt8 := mt (hfirst q hq).1.1 hd
            simp [quotedReader, hstep, Reader.run, hbytes, hb, hd]

theorem run_quotedReader_utf8 {t : Text} {p : Nat} (hlength : p + bytes t = length) :
    (quotedReader q.toUInt8 doubled length).run (.live 0) p (utf8 t) =
      p + bytes (t.take (Lexer.quotedTail q doubled t)) := by
  have hreader := quotedReader_minds hq doubled length
  fun_induction Lexer.quotedTail q doubled t generalizing p with
  | case1 => exact hlength.symm
  | case2 c =>
      by_cases hc : c = q
      · subst hc
        rw [run_quotedReader_quote hq hbackslash hlength]
        simp [hq]
      · rw [hreader.run_last (by simp [hc])]
        exact hlength.symm
  | case3 c d r hc ih =>
      rw [beq_iff_eq.1 hc] at hlength ⊢
      rw [hreader.run_shielded (fun _ _ _ => rfl), ih (by simpa [Nat.add_assoc] using hlength)]
      simp [Nat.add_comm 2, Nat.add_assoc]
  | case4 c d r hc hquote hdoubled ih =>
      obtain ⟨rfl, hd⟩ : doubled = true ∧ d = q := by simpa using hdoubled
      rw [beq_iff_eq.1 hquote, hd] at hlength ⊢
      rw [run_quotedReader_quote hq hbackslash hlength, if_pos (by simp), List.tail_cons,
        ih (by rw [bytes_cons, bytes_cons, hq] at hlength; omega)]
      rw [Nat.add_comm 2, List.take_succ_cons, List.take_succ_cons, bytes_cons, bytes_cons, hq]
      omega
  | case5 c d r hc hquote hdoubled =>
      rw [beq_iff_eq.1 hquote] at hlength ⊢
      rw [run_quotedReader_quote hq hbackslash hlength, if_neg (by simpa using hdoubled)]
      simp [hq]
  | case6 c d r hc hquote ih =>
      rw [beq_iff_eq] at hc hquote
      rw [hreader.run_idle (by simp [hc, hquote]), ih (by simpa [Nat.add_assoc] using hlength)]
      simp [Nat.add_comm 1, Nat.add_assoc]

end

theorem run_tripleReader_utf8 (t : Text) (p : Nat) :
    (tripleReader q.toUInt8).run (.live 0) p (utf8 t) =
      (Extent.triple? q t).map fun n => p + bytes (t.take n) := by
  have hreader := tripleReader_minds hq
  have hquote (t : Text) (p : Nat) : (tripleReader q.toUInt8).run (.live 0) p (utf8 (q :: t)) =
      if startsWith t [q, q] then some p
      else (tripleReader q.toUInt8).run (.live 0) (p + 1) (utf8 t) := by
    rw [utf8_cons, utf8EncodeChar_eq hq, List.singleton_append,
      run_tripleReader_quote (toUInt8_ne_backslashByte hq hbackslash),
      ← isPrefixOf_utf8 (by simpa using hq)]
    rfl
  fun_induction Extent.triple? q t generalizing p with
  | case1 => rfl
  | case2 c =>
      by_cases hc : c = q
      · rw [hc, hquote]
        rfl
      · exact hreader.run_last (by simp [hc]) p
  | case3 c d r hc ih =>
      rw [beq_iff_eq.1 hc, hreader.run_shielded (fun _ _ _ => rfl), ih]
      exact (map_add_bytes_take (backslash :: d :: r) 2 p _).symm
  | case4 c d r hc hthree =>
      have hsplit : (q == c && startsWith (d :: r) [q, q]) = true := hthree
      obtain ⟨hfirst, hmore⟩ := Bool.and_eq_true_iff.1 hsplit
      rw [← beq_iff_eq.1 hfirst, hquote, if_pos hmore]
      rfl
  | case5 c d r hc hthree ih =>
      rw [beq_iff_eq] at hc
      have hstep : (tripleReader q.toUInt8).run (.live 0) p (utf8 (c :: d :: r)) =
          (tripleReader q.toUInt8).run (.live 0) (p + c.utf8Size) (utf8 (d :: r)) := by
        by_cases hfirst : c = q
        · have hfewer : ¬startsWith (d :: r) [q, q] = true := by
            simpa [startsWith, hfirst] using hthree
          rw [hfirst, hquote, if_neg hfewer, hq]
        · exact hreader.run_idle (by simp [hc, hfirst]) p (d :: r)
      rw [hstep, ih]
      exact (map_add_bytes_take (c :: d :: r) 1 p _).symm

theorem run_lineReader_utf8 (hnewline : q ≠ '\n') (t : Text) (p : Nat) :
    (lineReader q.toUInt8).run (.live 0) p (utf8 t) =
      (Extent.line? q t).map fun n => p + bytes (t.take n) := by
  have hreader := lineReader_minds hq
  have hne : q.toUInt8 ≠ newlineByte :=
    mt (toUInt8_inj hq (c := '\n') rfl) hnewline
  fun_induction Extent.line? q t generalizing p with
  | case1 => rfl
  | case2 c hc =>
      rw [beq_iff_eq.1 hc, utf8_cons, utf8EncodeChar_eq hq]
      simp [Reader.run, lineReader, toUInt8_ne_backslashByte hq hbackslash, hne]
  | case3 c hc =>
      by_cases hline : c = '\n'
      · rw [hline]
        rfl
      · have hquote : c ≠ q := by simpa using hc
        exact hreader.run_last (by simp [hline, hquote]) p
  | case4 c d r hc ih =>
      rw [beq_iff_eq.1 hc, hreader.run_shielded (fun _ _ _ => rfl), ih]
      exact (map_add_bytes_take (backslash :: d :: r) 2 p _).symm
  | case5 c d r hc hline =>
      rw [beq_iff_eq.1 hline]
      rfl
  | case6 c d r hc hline hquote =>
      rw [beq_iff_eq.1 hquote, utf8_cons, utf8EncodeChar_eq hq]
      simp [Reader.run, lineReader, toUInt8_ne_backslashByte hq hbackslash, hne]
  | case7 c d r hc hline hquote ih =>
      rw [beq_iff_eq] at hc hline hquote
      rw [hreader.run_idle (by simp [hc, hline, hquote]), ih]
      exact (map_add_bytes_take (c :: d :: r) 1 p _).symm

theorem quotedEnd_utf8 (doubled : Bool) (t : Text) :
    quotedEnd q.toUInt8 doubled (utf8 t) = bytes (q :: t.take (Lexer.quotedTail q doubled t)) := by
  have hlength : 1 + bytes t = (utf8 t).length + 1 := by rw [length_utf8, Nat.add_comm]
  rw [quotedEnd_eq_run, run_quotedReader_utf8 hq hbackslash hlength, bytes_cons, hq]

theorem tripleQuoteEnd?_utf8 (before t : Text) :
    tripleQuoteEnd? q.toUInt8 (utf8 (before ++ t)) before.bytes =
      (Extent.triple? q t).map fun n => bytes (before ++ t.take n) := by
  rw [tripleQuoteEnd?_eq_run, utf8_append, ← length_utf8, List.drop_left,
    run_tripleReader_utf8 hq hbackslash]
  simp

theorem lineQuoteEnd?_utf8 (hnewline : q ≠ '\n') (before t : Text) :
    lineQuoteEnd? q.toUInt8 (utf8 (before ++ t)) before.bytes =
      (Extent.line? q t).map fun n => bytes (before ++ t.take n) := by
  rw [lineQuoteEnd?_eq_run, utf8_append, ← length_utf8, List.drop_left,
    run_lineReader_utf8 hq hbackslash hnewline]
  simp

end

theorem escapedQuoteEnd_utf8 {q : Char} (hq : q.utf8Size = 1) (t : Text) :
    escapedQuoteEnd q.toUInt8 (utf8 (backslash :: q :: t)) =
      bytes (backslash :: q :: t.take (Lexer.escapedQuoteTail q t)) := by
  have hopening : bytes [backslash, q] = 2 := by
    rw [bytes_cons, bytes_cons, hq]
    rfl
  have hbody : (utf8 (backslash :: q :: t)).drop 2 = utf8 t := by
    rw [← hopening, ← length_utf8, show backslash :: q :: t = [backslash, q] ++ t from rfl,
      utf8_append, List.drop_left]
  have hlength (t : Text) : bytes (backslash :: q :: t) = 2 + bytes t := by
    rw [← hopening, ← bytes_append]
    rfl
  rw [escapedQuoteEnd_eq_run, hbody, length_utf8, hlength t, run_escapedQuoteReader_utf8 hq rfl,
    hlength]

theorem searches_read_every_byte :
    (∀ quote doubled rest, quotedEnd quote doubled rest =
      (quotedReader quote doubled (rest.length + 1)).run (.live 0) 1 rest) ∧
    (∀ quote bs, escapedQuoteEnd quote bs =
      (escapedQuoteReader quote bs.length).run (.live 0) 2 (bs.drop 2)) ∧
    (∀ quote bs start, lineQuoteEnd? quote bs start =
      (lineReader quote).run (.live 0) start (bs.drop start)) ∧
    (∀ quote bs start, tripleQuoteEnd? quote bs start =
      (tripleReader quote).run (.live 0) start (bs.drop start)) ∧
    ∀ q : Char, q.utf8Size = 1 → q ≠ backslash → q ≠ '\n' → ∀ t : Text,
      (∀ doubled, quotedEnd q.toUInt8 doubled (utf8 t) =
        bytes (q :: t.take (Lexer.quotedTail q doubled t))) ∧
      escapedQuoteEnd q.toUInt8 (utf8 (backslash :: q :: t)) =
        bytes (backslash :: q :: t.take (Lexer.escapedQuoteTail q t)) ∧
      ∀ before : Text,
        lineQuoteEnd? q.toUInt8 (utf8 (before ++ t)) before.bytes =
          (Extent.line? q t).map (fun n => bytes (before ++ t.take n)) ∧
        tripleQuoteEnd? q.toUInt8 (utf8 (before ++ t)) before.bytes =
          (Extent.triple? q t).map (fun n => bytes (before ++ t.take n)) := by
  refine ⟨quotedEnd_eq_run, escapedQuoteEnd_eq_run, lineQuoteEnd?_eq_run, tripleQuoteEnd?_eq_run,
    fun q hq hbackslash hnewline t => ⟨fun doubled => ?_, escapedQuoteEnd_utf8 hq t,
      fun before => ⟨?_, ?_⟩⟩⟩
  · exact quotedEnd_utf8 hq hbackslash doubled t
  · exact lineQuoteEnd?_utf8 hq hbackslash hnewline before t
  · exact tripleQuoteEnd?_utf8 hq hbackslash before t

theorem searches_read_every_byte_umlaut :
    let t := ['ü', singleQuote, singleQuote, backslash, singleQuote, singleQuote, 's']
    singleQuote.utf8Size = 1 ∧ singleQuote ≠ backslash ∧ singleQuote ≠ '\n' ∧
      quotedEnd singleQuote.toUInt8 true (utf8 t) = 8 ∧
      quotedEnd singleQuote.toUInt8 false (utf8 t) = 4 ∧
      escapedQuoteEnd singleQuote.toUInt8 (utf8 (backslash :: singleQuote :: t)) = 8 ∧
      lineQuoteEnd? singleQuote.toUInt8 (utf8 (['='] ++ t)) 1 = some 3 ∧
      tripleQuoteEnd? singleQuote.toUInt8 (utf8 (['='] ++ t)) 1 = none := by
  intro t
  obtain ⟨hquoted, hescaped, hhost⟩ := searches_read_every_byte.2.2.2.2 singleQuote rfl (by decide)
    (by decide) t
  refine ⟨rfl, by decide, by decide, (hquoted true).trans ?_, (hquoted false).trans ?_,
    hescaped.trans ?_, (hhost ['=']).1.trans ?_, (hhost ['=']).2.trans ?_⟩ <;> decide

end EmbeddedSql.Scan
