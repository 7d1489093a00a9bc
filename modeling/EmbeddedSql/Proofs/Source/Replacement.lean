import EmbeddedSql.Proofs.Literal.Spans
import EmbeddedSql.Source

namespace EmbeddedSql

open Text

def Text.takeBytes (n : Nat) (t : Text) : Text := ((t.splitAtByte? n).map Prod.fst).getD []

def Text.replaceBytes (t : Text) (start stop : Nat) (new : Text) : Text :=
  t.takeBytes start ++ new ++ t.dropBytes stop

theorem replaceBytes_append (before old after new : Text) :
    replaceBytes (before ++ old ++ after) before.bytes (before.bytes + old.bytes) new =
      before ++ new ++ after := by
  have hstop : before.bytes + old.bytes = (before ++ old).bytes := by simp
  have htake := splitAtByte?_append before (old ++ after)
  rw [← List.append_assoc] at htake
  rw [replaceBytes, takeBytes, dropBytes, htake, hstop, splitAtByte?_append]
  rfl

def Revision.final (r : Revision) : Text :=
  if r.changed && (quotingError? r.occurrence r.replacement).isNone then r.replacement
  else r.occurrence.text

def passedOver (cursor : Nat) (rest : Text) : List Revision → List Revision
  | [] => []
  | r :: revisions =>
      match cut? cursor rest r.occurrence with
      | some (_, tail) => passedOver r.occurrence.stop tail revisions
      | none => r :: passedOver cursor rest revisions

def replaceAll (revisions : List Revision) (source : Text) : Text :=
  revisions.foldr (fun r t => t.replaceBytes r.occurrence.start r.occurrence.stop r.final) source

theorem cut?_append {cursor : Nat} {gap rest : Text} {o : Occurrence}
    (hstart : o.start = cursor + gap.bytes) (hstop : o.stop = o.start + o.text.bytes) :
    cut? cursor (gap ++ o.text ++ rest) o = some (gap, rest) := by
  have hgap : o.start - cursor = gap.bytes := by omega
  have htext : o.stop - o.start = o.text.bytes := by omega
  have hguard : (decide (cursor ≤ o.start) && decide (o.start ≤ o.stop)) = true := by
    simp only [Bool.and_eq_true, decide_eq_true_eq]
    omega
  rw [cut?, if_pos hguard, hgap, htext, List.append_assoc, splitAtByte?_append]
  simp only [Option.bind_some, splitAtByte?_append, if_true]

theorem spliceFrom_cut {cursor : Nat} {rest gap tail : Text} {r : Revision}
    (h : cut? cursor rest r.occurrence = some (gap, tail)) (revisions : List Revision) :
    spliceFrom cursor rest (r :: revisions) =
      gap ++ r.replacement ++ spliceFrom r.occurrence.stop tail revisions := by
  rw [spliceFrom, h]

theorem passedOver_cut {cursor : Nat} {rest gap tail : Text} {r : Revision}
    (h : cut? cursor rest r.occurrence = some (gap, tail)) (revisions : List Revision) :
    passedOver cursor rest (r :: revisions) = passedOver r.occurrence.stop tail revisions := by
  rw [passedOver, h]

theorem splice_spans {n : Nat} {t : Text} {revisions : List Revision}
    (h : Spans n t (revisions.map Revision.occurrence)) :
    ∃ out : Text, (∀ u : Text, u.bytes = n → replaceAll revisions (u ++ t) = u ++ out) ∧
      ∀ (cursor : Nat) (u : Text), cursor + u.bytes = n →
        spliceFrom cursor (u ++ t) (eligible revisions) = u ++ out ∧
          passedOver cursor (u ++ t) (eligible revisions) = [] := by
  induction revisions generalizing n t with
  | nil => exact ⟨t, fun u _ => rfl, fun cursor u _ => ⟨rfl, rfl⟩⟩
  | cons r revisions ih =>
      cases h with
      | @cons _ _ _ rest gap hstart hstop hrest =>
          -- what goes out for the rest does not depend on where the cursor stands in `u`
          obtain ⟨out, hreplace, hsplice⟩ := ih hrest
          refine ⟨gap ++ r.final ++ out, fun u hu => ?_, fun cursor u hu => ?_⟩
          · have hbefore : (u ++ gap).bytes = r.occurrence.start := by
              rw [bytes_append, hu, hstart]
            have hinner := hreplace (u ++ gap ++ r.occurrence.text) (by
              rw [bytes_append, hbefore, hstop])
            have hstep := replaceBytes_append (u ++ gap) r.occurrence.text out r.final
            rw [hbefore, ← hstop] at hstep
            rw [replaceAll, List.foldr_cons, ← replaceAll]
            simp only [← List.append_assoc] at hinner hstep ⊢
            rw [hinner, hstep]
          · by_cases hr : (r.changed &&
                (quotingError? r.occurrence r.replacement).isNone) = true
            · have hcut : cut? cursor (u ++ gap ++ r.occurrence.text ++ rest) r.occurrence =
                  some (u ++ gap, rest) := cut?_append (by rw [bytes_append]; omega) hstop
              have hfinal : r.final = r.replacement := if_pos hr
              have heligible : eligible (r :: revisions) = r :: eligible revisions :=
                List.filter_cons_of_pos hr
              have htail := hsplice r.occurrence.stop [] (by simp)
              simp only [List.nil_append] at htail
              rw [heligible, ← List.append_assoc, ← List.append_assoc, spliceFrom_cut hcut,
                passedOver_cut hcut, hfinal, htail.1, htail.2]
              simp
            · have hfinal : r.final = r.occurrence.text := if_neg hr
              have heligible : eligible (r :: revisions) = eligible revisions :=
                List.filter_cons_of_neg hr
              have htail := hsplice cursor (u ++ gap ++ r.occurrence.text) (by
                simp only [bytes_append]; omega)
              rw [heligible, hfinal]
              simpa using htail

theorem Spans.start_le {n : Nat} {t : Text} {os : List Occurrence} (h : Spans n t os) :
    ∀ o ∈ os, n ≤ o.start ∧ o.start ≤ o.stop := by
  induction h with
  | nil => simp
  | cons gap hstart hstop hrest ih =>
      intro o ho
      rcases List.mem_cons.1 ho with rfl | ho
      · omega
      · have := ih o ho
        omega

theorem Spans.pairwise {n : Nat} {t : Text} {os : List Occurrence} (h : Spans n t os) :
    os.Pairwise fun a b => a.stop ≤ b.start := by
  induction h with
  | nil => exact List.Pairwise.nil
  | cons gap hstart hstop hrest ih =>
      exact List.pairwise_cons.2 ⟨fun b hb => (hrest.start_le b hb).1, ih⟩

theorem Spans.pairwise_start {n : Nat} {t : Text} {os : List Occurrence} (h : Spans n t os) :
    os.Pairwise fun a b => a.start ≤ b.start := by
  induction h with
  | nil => exact List.Pairwise.nil
  | cons gap hstart hstop hrest ih =>
      refine List.pairwise_cons.2 ⟨fun b hb => ?_, ih⟩
      have := hrest.start_le b hb
      omega

theorem Spans.located {n : Nat} {t : Text} {os : List Occurrence} (h : Spans n t os) :
    ∀ o ∈ os, ∃ before after : Text, t = before ++ o.text ++ after ∧
      n + before.bytes = o.start ∧ o.stop = o.start + o.text.bytes := by
  induction h with
  | nil => simp
  | @cons n o os rest gap hstart hstop hrest ih =>
      intro o' ho
      rcases List.mem_cons.1 ho with rfl | ho
      · exact ⟨gap, rest, rfl, hstart.symm, hstop⟩
      · obtain ⟨before, after, rfl, hbefore, hafter⟩ := ih o' ho
        refine ⟨gap ++ o.text ++ before, after, by simp, ?_, hafter⟩
        simp only [bytes_append]
        omega

section

variable {source : Text} {revisions : List Revision}
  (h : Spans 0 source (revisions.map Revision.occurrence))

include h

theorem mergeSort_eligible : ((eligible revisions).mergeSort fun a b =>
    a.occurrence.start ≤ b.occurrence.start) = eligible revisions := by
  have hstarts := (List.pairwise_map.1 h.pairwise_start).filter
    fun r => r.changed && (quotingError? r.occurrence r.replacement).isNone
  exact List.mergeSort_of_pairwise (hstarts.imp fun hle => decide_eq_true hle)

theorem splice_text : (splice source revisions).text = replaceAll revisions source := by
  obtain ⟨out, hreplace, hsplice⟩ := splice_spans h
  have hall := hreplace [] rfl
  have hput := (hsplice 0 [] rfl).1
  rw [splice, mergeSort_eligible h]
  exact hput.trans hall.symm

theorem passedOver_eligible : passedOver 0 source ((eligible revisions).mergeSort fun a b =>
    a.occurrence.start ≤ b.occurrence.start) = [] := by
  obtain ⟨out, -, hsplice⟩ := splice_spans h
  rw [mergeSort_eligible h]
  exact (hsplice 0 [] rfl).2

theorem failures_pairwise :
    (splice source revisions).failures.Pairwise fun a b => a.stop ≤ b.start := by
  have hdisjoint := (List.pairwise_map.1 h.pairwise).filter Revision.changed
  refine hdisjoint.filterMap _ fun a b hab e he f hf => ?_
  obtain ⟨fault, -, rfl⟩ := Option.map_eq_some_iff.1 he
  obtain ⟨fault', -, rfl⟩ := Option.map_eq_some_iff.1 hf
  exact hab

end

theorem revise_occurrence (v : Vocabulary) (s : Settings) (o : Occurrence) :
    (revise v s o).occurrence = o := by
  unfold revise
  split <;> rfl

structure Replaced (v : Vocabulary) (s : Settings) (language : HostLanguage) (source : Text)
    (outcome : SourceOutcome) : Prop where
  revisions : outcome.revisions = (extract language source).map (revise v s)
  located : ∀ o ∈ extract language source, ∃ before after : Text,
    source = before ++ o.text ++ after ∧ before.bytes = o.start ∧
      o.stop = o.start + o.text.bytes
  disjoint : (extract language source).Pairwise fun a b => a.stop ≤ b.start
  formatted : outcome.formatted = replaceAll outcome.revisions source
  complete : passedOver 0 source ((eligible outcome.revisions).mergeSort fun a b =>
    a.occurrence.start ≤ b.occurrence.start) = []
  failures : outcome.failures = (outcome.revisions.filter Revision.changed).filterMap fun r =>
    quotingError? r.occurrence r.replacement
  ordered : outcome.failures.Pairwise fun a b => a.stop ≤ b.start

theorem formatSource_replaces {s : Settings} {v : Vocabulary} (hv : s.vocabulary = .ok v)
    (language : HostLanguage) (source : Text) :
    ∃ outcome, formatSource s language source = .ok outcome ∧
      Replaced v s language source outcome := by
  have hspans := extract_spans language source
  have hrevisions : Spans 0 source
      (((extract language source).map (revise v s)).map Revision.occurrence) := by
    simpa [Function.comp_def, revise_occurrence] using hspans
  refine ⟨formatSourceWith v s language source, by rw [formatSource, hv]; rfl, ?_⟩
  constructor
  case revisions => rfl
  case located => simpa using hspans.located
  case disjoint => exact hspans.pairwise
  case formatted => exact splice_text hrevisions
  case complete => exact passedOver_eligible hrevisions
  case failures => rfl
  case ordered => exact failures_pairwise hrevisions

theorem formatSource_replaces_assignment :
    (Settings.vocabulary {}) = .ok {} ∧ ∃ outcome,
      formatSource {} .python "q = 'select 1 from t'".toList = .ok outcome ∧
        Replaced {} {} .python "q = 'select 1 from t'".toList outcome :=
  ⟨rfl, formatSource_replaces rfl .python _⟩

end EmbeddedSql
