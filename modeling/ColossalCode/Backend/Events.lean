import ColossalCode.Backend.Sse
import Mathlib.Data.List.Chain

/-! When the payloads of a stream are the same for the backends that end an event at either blank
line and the one that ends it at an LF blank line only. -/
namespace ColossalCode.Backend
open List Option Text

open Chunks (Framer Separators startsAt splitAtFirst_here splitAtFirst_later splitAtFirst_spec)

variable {s e rest sep done : List UInt8} {b : UInt8}

theorem dataLines_crlf (front rest : List UInt8) :
    dataLines (front ++ cr :: lf :: rest) = dataLines front ++ dataLines rest := by
  have htext : fromUtf8Lossy (front ++ cr :: lf :: rest) =
      (fromUtf8Lossy front ++ ['\r']) ++ '\n' :: fromUtf8Lossy rest := by
    rw [fromUtf8Lossy_ascii (by decide), ← nil_append (lf :: rest),
      fromUtf8Lossy_ascii (by decide)]
    simp [fromUtf8Lossy, decodeLossy, cr, lf]
  unfold dataLines lines
  rw [htext, linesFrom_append, filterMap_append, append_assoc, singleton_append]
  rcases linesFrom_crlf [] (fromUtf8Lossy front) with h | h
  · rw [h]
  · rw [h, filterMap_append]
    simp

@[simp] theorem dataLines_nil : dataLines [] = [] := rfl

theorem dataLines_crLfCrLf (front rest : List UInt8) :
    dataLines (front ++ (crLfCrLf ++ rest)) = dataLines front ++ dataLines rest := by
  have hsecond := dataLines_crlf [] rest
  rw [dataLines_nil, nil_append, nil_append] at hsecond
  rw [← hsecond, ← dataLines_crlf]
  rfl

theorem dataLines_blank (front : List UInt8) : dataLines (front ++ crLfCrLf) = dataLines front := by
  have hblank := dataLines_crLfCrLf front []
  rw [dataLines_nil, append_nil, append_nil] at hblank
  exact hblank

theorem dataLines_crLfCr (front : List UInt8) :
    dataLines (front ++ [cr, lf, cr]) = dataLines front := by
  have hcr : dataLines [cr] = [] := by decide
  rw [dataLines_crlf front [cr], hcr, append_nil]

theorem dataLines_lf (rest : List UInt8) : dataLines (lf :: rest) = dataLines rest := by
  have htext : fromUtf8Lossy (lf :: rest) = '\n' :: fromUtf8Lossy rest :=
    fromUtf8Lossy_ascii (by decide) [] rest
  unfold dataLines lines
  rw [htext]
  simp [linesFrom, stripCr]

/-- No LF follows an LF. -/
abbrev Quiet (s : List UInt8) : Prop := s.IsChain fun a b => ¬ (a = lf ∧ b = lf)

theorem lfLf_start : lfLf <+: b :: s ↔ b = lf ∧ s.head? = some lf := by
  cases s <;> simp [lfLf, cons_prefix_cons, @eq_comm _ lf]

theorem quiet_cons : Quiet (b :: s) ↔ ¬ lfLf <+: b :: s ∧ Quiet s := by
  rw [Quiet, isChain_cons, lfLf_start]
  cases s <;> simp [Quiet]

theorem lfNext_none (h : Quiet s) : lfBlankLines.framer.next s = none := by
  induction s with
  | nil => rfl
  | cons b s ih =>
    rw [quiet_cons] at h
    have hstart : startsAt lfBlankLines.all (b :: s) = none := by
      simp [startsAt_lfBlank, h.1]
    have hrest := ih h.2
    simp only [Separators.framer] at hrest ⊢
    rw [splitAtFirst_later hstart, hrest]
    rfl

theorem lfNext_some (h : Quiet (e ++ [lf])) (rest : List UInt8) :
    lfBlankLines.framer.next (e ++ (lfLf ++ rest)) = some ((e, lfLf), rest) := by
  induction e with
  | nil =>
    have hstart : startsAt lfBlankLines.all (lf :: lf :: rest) = some lfLf := by
      simp [startsAt_lfBlank, lfLf]
    exact splitAtFirst_here hstart
  | cons b e ih =>
    rw [cons_append, quiet_cons] at h
    have hstart : startsAt lfBlankLines.all (b :: (e ++ (lfLf ++ rest))) = none := by
      have hno : ¬ lfLf <+: b :: (e ++ (lfLf ++ rest)) := by
        have hb := h.1
        rw [lfLf_start] at hb ⊢
        cases e with
        | nil => exact hb
        | cons c e => exact hb
      simp [startsAt_lfBlank, hno]
    have hrest := ih h.2
    simp only [Separators.framer] at hrest ⊢
    rw [cons_append, splitAtFirst_later hstart, hrest]
    rfl

theorem blankNext_none (h : blankLines.framer.next s = none) : Quiet s := by
  induction s with
  | nil => exact .nil
  | cons b s ih =>
    simp only [Separators.framer] at h ih
    cases hstart : startsAt blankLines.all (b :: s) with
    | some p =>
      rw [splitAtFirst_here hstart] at h
      cases h
    | none =>
      rw [splitAtFirst_later hstart, map_eq_none_iff] at h
      have hno := (blankLines.startsAt_eq_none.mp hstart) lfLf (by simp [blankLines])
      exact quiet_cons.mpr ⟨hno, ih h⟩

theorem blankNext_some (h : blankLines.framer.next s = some ((e, sep), rest)) :
    s = e ++ (sep ++ rest) ∧ (sep = lfLf ∨ sep = crLfCrLf) ∧ Quiet (e ++ sep.dropLast) := by
  obtain ⟨hmem, hs⟩ := splitAtFirst_spec h
  have hsep : sep = lfLf ∨ sep = crLfCrLf := by simpa [blankLines] using hmem
  refine ⟨hs, hsep, ?_⟩
  induction e generalizing s with
  | nil => rcases hsep with rfl | rfl <;> simp [Quiet, lfLf, crLfCrLf, lf, cr]
  | cons b e ih =>
    rw [cons_append] at hs
    subst hs
    cases hstart : startsAt blankLines.all (b :: (e ++ (sep ++ rest))) with
    | some p =>
      simp only [Separators.framer, splitAtFirst_here hstart] at h
      cases h
    | none =>
      have hno := (blankLines.startsAt_eq_none.mp hstart) lfLf (by simp [blankLines])
      simp only [Separators.framer, splitAtFirst_later hstart, map_eq_some_iff] at h
      obtain ⟨⟨⟨e', sep'⟩, rest'⟩, hfound, heq⟩ := h
      simp only [Prod.mk.injEq, List.cons.injEq, true_and] at heq
      obtain ⟨⟨rfl, rfl⟩, rfl⟩ := heq
      refine quiet_cons.mpr ⟨?_, ih hfound rfl⟩
      rw [lfLf_start] at hno ⊢
      cases e' with
      | nil => rcases hsep with rfl | rfl <;> exact hno
      | cons c e => exact hno

/-- The data lines of each event, and whether LF LF ends it: as its blank line, or as the last LF of
a CRLF blank line with an LF after it. -/
def marksOf (tail : List UInt8) :
    List (List UInt8 × List UInt8) → List (List (List Char) × Bool)
  | [] => []
  | (event, sep) :: parts =>
    let after := (parts.flatMap fun part => part.1 ++ part.2) ++ tail
    (dataLines event, sep == lfLf || after.head? == some lf) :: marksOf tail parts

def marks (stream : List UInt8) : List (List (List Char) × Bool) :=
  marksOf (blankLines.framer.drain stream).2 (blankLines.framer.drain stream).1

theorem marks_none (h : blankLines.framer.next s = none) : marks s = [] := by
  rw [marks, blankLines.framer.drain_none h]
  rfl

theorem marks_some (h : blankLines.framer.next s = some ((e, sep), rest)) :
    marks s = (dataLines e, sep == lfLf || rest.head? == some lf) :: marks rest := by
  rw [marks, blankLines.framer.drain_some h]
  simp only [marksOf, blankLines.drain_join]
  rfl

/-- The payloads where each event is one. -/
def eachData (marks : List (List (List Char) × Bool)) : List (List Char) :=
  marks.filterMap fun mark => joinData mark.1

theorem eachData_cons (dataLines : List (List Char)) (ended : Bool)
    (marks : List (List (List Char) × Bool)) :
    eachData ((dataLines, ended) :: marks) = (joinData dataLines).toList ++ eachData marks := by
  rw [eachData, filterMap_cons]
  cases joinData dataLines <;> rfl

/-- The payloads where the events up to one with LF LF are one, with data lines before them. -/
def mergedData (before : List (List Char)) : List (List (List Char) × Bool) → List (List Char)
  | [] => []
  | (dataLines, true) :: marks => (joinData (before ++ dataLines)).toList ++ mergedData [] marks
  | (dataLines, false) :: marks => mergedData (before ++ dataLines) marks

/-- The data of the events that a framer takes from a stream. -/
def streamData (seps : Separators UInt8) (stream : List UInt8) : List (List Char) :=
  (seps.framer.drain stream).1.filterMap fun part => sseDataFromEvent part.1

theorem streamData_none {seps : Separators UInt8} (h : seps.framer.next s = none) :
    streamData seps s = [] := by
  rw [streamData, seps.framer.drain_none h]
  rfl

theorem streamData_some {seps : Separators UInt8} (h : seps.framer.next s = some ((e, sep), rest)) :
    streamData seps s = (sseDataFromEvent e).toList ++ streamData seps rest := by
  rw [streamData, seps.framer.drain_some h, filterMap_cons, streamData]
  cases sseDataFromEvent e <;> rfl

theorem streamData_blank (s : List UInt8) : streamData blankLines s = eachData (marks s) := by
  induction hn : s.length using Nat.strongRecOn generalizing s with
  | _ n ih =>
    cases h : blankLines.framer.next s with
    | none => rw [streamData_none h, marks_none h]; rfl
    | some taken =>
      obtain ⟨⟨e, sep⟩, rest⟩ := taken
      rw [streamData_some h, marks_some h, eachData_cons,
        ih _ (hn ▸ blankLines.framer.shrinks h) rest rfl]
      rfl

/-- An LF before the first event changes no payload. -/
theorem streamData_lf (s : List UInt8) :
    streamData lfBlankLines (lf :: s) = streamData lfBlankLines s := by
  induction hn : s.length using Nat.strongRecOn generalizing s with
  | _ n ih =>
    by_cases hs : s.head? = some lf
    · -- the LF ends an empty event, and the LF after it starts the next one
      obtain ⟨rest, rfl⟩ : ∃ rest, s = lf :: rest := by
        cases s with
        | nil => cases hs
        | cons c rest => exact ⟨rest, by simpa using hs⟩
      have hquiet : Quiet ([] ++ [lf]) := .singleton lf
      have hempty : lfBlankLines.framer.next (lf :: lf :: rest) = some (([], lfLf), rest) :=
        lfNext_some hquiet rest
      have hnone : sseDataFromEvent [] = none := rfl
      rw [streamData_some hempty, hnone, ih rest.length (by simp [← hn]) rest rfl]
      rfl
    · have hstart : startsAt lfBlankLines.all (lf :: s) = none := by
        have hno : ¬ lfLf <+: lf :: s := by simp [lfLf_start, hs]
        simp [startsAt_lfBlank, hno]
      have hlater := splitAtFirst_later hstart
      cases h : lfBlankLines.framer.next s with
      | none =>
        have hnone : lfBlankLines.framer.next (lf :: s) = none := by
          simp only [Separators.framer] at h ⊢
          rw [hlater, h]
          rfl
        rw [streamData_none h, streamData_none hnone]
      | some taken =>
        obtain ⟨⟨e, sep⟩, rest⟩ := taken
        have hsome : lfBlankLines.framer.next (lf :: s) = some ((lf :: e, sep), rest) := by
          simp only [Separators.framer] at h ⊢
          rw [hlater, h]
          rfl
        rw [streamData_some h, streamData_some hsome, sseDataFromEvent, sseDataFromEvent,
          dataLines_lf]

theorem quiet_append (hdone : Quiet done) (hs : Quiet s) (h : done = [] ∨ s.head? ≠ some lf) :
    Quiet (done ++ s) := by
  refine isChain_append.mpr ⟨hdone, hs, ?_⟩
  rintro x hx y hy ⟨-, rfl⟩
  rcases h with rfl | h
  · cases hx
  · exact h hy

/-- What is held back ends with a blank line, so its data lines stand for themselves. -/
theorem dataLines_append (h : done = [] ∨ ∃ front, done = front ++ crLfCrLf)
    (event : List UInt8) : dataLines (done ++ event) = dataLines done ++ dataLines event := by
  rcases h with rfl | ⟨front, rfl⟩
  · rfl
  · rw [append_assoc, dataLines_crLfCrLf, dataLines_blank]

/-- The framer that waits for LF LF takes the merged events; `done` is what the other one has taken
since. -/
theorem streamData_lfBlank (done s : List UInt8) (hquiet : Quiet done)
    (hdone : done = [] ∨ ∃ front, done = front ++ crLfCrLf)
    (hs : done = [] ∨ s.head? ≠ some lf) :
    streamData lfBlankLines (done ++ s) = mergedData (dataLines done) (marks s) := by
  induction hn : s.length using Nat.strongRecOn generalizing done s with
  | _ n ih =>
    cases h : blankLines.framer.next s with
    | none =>
      rw [marks_none h, streamData_none (lfNext_none (quiet_append hquiet (blankNext_none h) hs))]
      rfl
    | some taken =>
      obtain ⟨⟨e, sep⟩, rest⟩ := taken
      obtain ⟨hjoin, hsep, hqe⟩ := blankNext_some h
      have hshorter := hn ▸ blankLines.framer.shrinks h
      rw [marks_some h]
      rcases hsep with rfl | rfl
      · -- LF LF ends the event for both
        have hq : Quiet ((done ++ e) ++ [lf]) := by
          rw [append_assoc]
          refine quiet_append hquiet hqe (hs.imp_right fun hne => ?_)
          rw [hjoin] at hne
          cases e with
          | nil => exact hne
          | cons c e => exact hne
        rw [hjoin, ← append_assoc, streamData_some (lfNext_some hq rest)]
        have hrest := ih _ hshorter [] rest .nil (.inl rfl) (.inl rfl) rfl
        rw [nil_append] at hrest
        rw [hrest, sseDataFromEvent, dataLines_append hdone]
        rfl
      · have hq : Quiet (done ++ (e ++ [cr, lf, cr])) := by
          refine quiet_append hquiet hqe (hs.imp_right fun hne => ?_)
          rw [hjoin] at hne
          cases e with
          | nil => simp [cr, lf]
          | cons c e => exact hne
        have hqlf : Quiet ((done ++ (e ++ [cr, lf, cr])) ++ [lf]) := by
          refine isChain_append.mpr ⟨hq, .singleton _, ?_⟩
          rintro x hx y hy ⟨rfl, -⟩
          simp [cr, lf] at hx
        by_cases hlf : rest.head? = some lf
        · -- the last LF of the blank line and the LF after it end the event for the one that waits
          obtain ⟨after, rfl⟩ : ∃ after, rest = lf :: after := by
            cases rest with
            | nil => cases hlf
            | cons c after => exact ⟨after, by simpa using hlf⟩
          have hsplit : done ++ s = (done ++ (e ++ [cr, lf, cr])) ++ (lfLf ++ after) := by
            rw [hjoin]
            simp [crLfCrLf, lfLf]
          have hrest := ih _ hshorter [] (lf :: after) .nil (.inl rfl) (.inl rfl) rfl
          rw [nil_append, streamData_lf] at hrest
          have hdata : dataLines (done ++ (e ++ [cr, lf, cr])) = dataLines done ++ dataLines e := by
            rw [dataLines_append hdone, dataLines_crLfCr]
          rw [hsplit, streamData_some (lfNext_some hqlf after), hrest, sseDataFromEvent, hdata]
          simp [mergedData]
        · have hsplit : done ++ s = (done ++ (e ++ crLfCrLf)) ++ rest := by
            rw [hjoin]
            simp
          have hdata : dataLines (done ++ (e ++ crLfCrLf)) = dataLines done ++ dataLines e := by
            rw [dataLines_append hdone, dataLines_blank]
          have hrest := ih _ hshorter (done ++ (e ++ crLfCrLf)) rest
            (by simpa [crLfCrLf] using hqlf)
            (.inr ⟨done ++ e, by simp⟩) (.inr hlf) rfl
          rw [hsplit, hrest, hdata]
          have hneither : (crLfCrLf == lfLf || rest.head? == some lf) = false := by
            simp [crLfCrLf, lfLf, hlf]
          rw [hneither]
          rfl

/-- Events without data lines come next, up to one with LF LF. -/
def Lull : List (List (List Char) × Bool) → Prop
  | [] => False
  | (dataLines, ended) :: marks => dataLines = [] ∧ (ended = true ∨ Lull marks)

/-- Where LF LF does not end an event with data lines, it comes before more of them. -/
def Settled : List (List (List Char) × Bool) → Prop
  | [] => True
  | (dataLines, ended) :: marks =>
    (ended = false → dataLines ≠ [] → Lull marks) ∧ Settled marks

section Merged

variable {before : List (List Char)}

@[simp] theorem joinData_nil : joinData [] = none := rfl

theorem joinData_length (h : before ≠ []) : (joinData before).toList.length = 1 := by
  simp [joinData, h]

theorem joinData_append_length (before dataLines : List (List Char)) :
    (joinData (before ++ dataLines)).toList.length ≤
      (joinData before).toList.length + (joinData dataLines).toList.length := by
  by_cases hbefore : before = []
  · simp [hbefore]
  · rw [joinData_length hbefore, joinData_length (by simp [hbefore])]
    omega

/-- Merging makes no payload more. -/
theorem mergedData_length (before : List (List Char)) (ms : List (List (List Char) × Bool)) :
    (mergedData before ms).length ≤ (joinData before).toList.length + (eachData ms).length := by
  induction ms generalizing before with
  | nil => exact Nat.zero_le _
  | cons mark ms ih =>
    obtain ⟨dataLines, ended⟩ := mark
    have happend := joinData_append_length before dataLines
    rw [eachData_cons, length_append]
    cases ended with
    | true =>
      have hrest := ih []
      rw [joinData_nil, toList_none, length_nil] at hrest
      rw [mergedData, length_append]
      omega
    | false =>
      have hrest := ih (before ++ dataLines)
      rw [mergedData]
      omega

/-- More data lines for an event that has been taken already make a payload less. -/
theorem mergedData_ne {dataLines : List (List Char)} (hbefore : before ≠ [])
    (hdata : dataLines ≠ []) (ended : Bool) (ms : List (List (List Char) × Bool)) :
    mergedData before ((dataLines, ended) :: ms) ≠
      (joinData before).toList ++ eachData ((dataLines, ended) :: ms) := by
  intro heq
  have hboth : (joinData (before ++ dataLines)).toList.length = 1 :=
    joinData_length (by simp [hbefore])
  have hlength := congrArg List.length heq
  rw [eachData_cons, length_append, length_append, joinData_length hbefore,
    joinData_length hdata] at hlength
  cases ended with
  | true =>
    have hrest := mergedData_length [] ms
    rw [joinData_nil, toList_none, length_nil] at hrest
    rw [mergedData, length_append] at hlength
    omega
  | false =>
    have hrest := mergedData_length (before ++ dataLines) ms
    rw [mergedData] at hlength
    omega

theorem mergedData_eq_iff (before : List (List Char)) (ms : List (List (List Char) × Bool)) :
    mergedData before ms = (joinData before).toList ++ eachData ms ↔
      (before ≠ [] → Lull ms) ∧ Settled ms := by
  induction ms generalizing before with
  | nil =>
    by_cases hbefore : before = []
    · simp [mergedData, eachData, Settled, hbefore]
    · simp [mergedData, eachData, joinData, Lull, hbefore]
  | cons mark ms ih =>
    obtain ⟨dataLines, ended⟩ := mark
    have hrest := ih []
    rw [joinData_nil, toList_none, nil_append] at hrest
    by_cases hbefore : before = []
    · -- nothing is held back, and an event without LF LF holds its data lines back
      subst hbefore
      rw [eachData_cons, joinData_nil, toList_none, nil_append]
      cases ended with
      | true => simp [mergedData, Settled, hrest]
      | false =>
        rw [mergedData, nil_append, ih]
        simp [Settled]
    · by_cases hdata : dataLines = []
      · subst hdata
        rw [eachData_cons, joinData_nil, toList_none, nil_append]
        cases ended with
        | true => simp [mergedData, Settled, Lull, hrest, hbefore]
        | false =>
          rw [mergedData, append_nil, ih]
          simp [Settled, Lull, hbefore]
      · have hne := mergedData_ne hbefore hdata ended ms
        simp [hne, hbefore, Lull, hdata]

end Merged

/-- The payloads of the three backends do not depend on where the stream is cut; the first two are
always the same, and the third one's are if and only if no event with data is held back over more
data or at the end. -/
theorem payloads_agree_iff (chunks : List (List UInt8)) :
    payloads OpenAi.framer chunks = payloads OpenAi.framer [chunks.flatten] ∧
    payloads Responses.framer chunks = payloads Responses.framer [chunks.flatten] ∧
    payloads Anthropic.framer chunks = payloads Anthropic.framer [chunks.flatten] ∧
    payloads Responses.framer chunks = payloads OpenAi.framer chunks ∧
    (payloads Anthropic.framer chunks = payloads OpenAi.framer chunks ↔
      Settled (marks chunks.flatten)) := by
  have hblank : ∀ F : Framer UInt8 (List UInt8), F = blankLines.framer.map Prod.fst →
      payloads F chunks = eachData (marks chunks.flatten) := by
    rintro F rfl
    rw [payloads_eq, Framer.drain_map, filterMap_map, ← streamData_blank]
    rfl
  have hopenAi := hblank OpenAi.framer (framerOf_eq openAi_extract)
  have hresponses := hblank Responses.framer (framerOf_eq responses_extract)
  have hanthropic : payloads Anthropic.framer chunks = mergedData [] (marks chunks.flatten) := by
    have hmerged := streamData_lfBlank [] chunks.flatten .nil (.inl rfl) (.inl rfl)
    rw [nil_append, dataLines_nil] at hmerged
    rw [payloads_eq, Anthropic.framer, framerOf_eq, Framer.drain_map, filterMap_map, ← hmerged]
    rfl
  refine ⟨payloads_cut _ _, payloads_cut _ _, payloads_cut _ _, hresponses.trans hopenAi.symm, ?_⟩
  rw [hanthropic, hopenAi]
  have hiff := mergedData_eq_iff [] (marks chunks.flatten)
  simpa using hiff

def ascii (text : String) : List UInt8 := text.toList.map fun c => UInt8.ofNat c.toNat

/-- Two events with CRLF line ends are two for the first backends and none for the third. -/
theorem crlf_events_missed :
    payloads OpenAi.framer [ascii "data: a\r\n\r\ndata: b\r\n\r\n"] =
      ["a".toList, "b".toList] ∧
    payloads Anthropic.framer [ascii "data: a\r\n\r\ndata: b\r\n\r\n"] = [] := by
  decide

end ColossalCode.Backend
