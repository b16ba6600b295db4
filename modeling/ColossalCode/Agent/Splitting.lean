import ColossalCode.Agent.Thinking
import Mathlib.Data.List.TakeWhile

/-! The content that a turn streams is split in the same way wherever it is cut into chunks. -/
namespace ColossalCode.Agent
open List Text Chunks Splitter

variable {tags : ThinkingTags} {s : Splitter} {text chunk : List Char} {sent : List AgentMessage}

def AgentMessage.thinking : AgentMessage → List Char
  | .thinkingContent text _ => text
  | _ => []

def AgentMessage.response : AgentMessage → List Char
  | .agentResponse text _ => text
  | _ => []

/-- The concatenation of the `ThinkingContent` texts. -/
def thinkingText (sent : List AgentMessage) : List Char := sent.flatMap AgentMessage.thinking

/-- The concatenation of the `AgentResponse` texts. -/
def responseText (sent : List AgentMessage) : List Char := sent.flatMap AgentMessage.response

/-- A turn without tool calls, from its content in chunks. -/
def streamed (tags : ThinkingTags) (chunks : List (List Char)) : Splitter :=
  (feed (content tags) .init chunks).flush

/-- What a turn shows: its thinking and its response. -/
def shown (s : Splitter) : List Char × List Char := (thinkingText s.sent, responseText s.sent)

/-- An opening tag stands where the visible text starts, and `inner` is what comes after it. -/
def Opens (tags : ThinkingTags) (text inner : List Char) : Prop :=
  ∃ blank c rest, text = blank ++ (tags.openTag ++ inner) ∧ tags.openTag ++ inner = c :: rest ∧
    isWhitespace c = false ∧ ∀ b ∈ blank, isWhitespace b = true

/-- A content, its thinking and its response: thinking goes from an opening tag to the first closing
one, or to the end, and the text after it is the response, if any of it is visible. -/
inductive Splits (tags : ThinkingTags) : List Char → List Char → List Char → Prop
  | plain (text : List Char) (hplain : ∀ inner, ¬ Opens tags text inner) : Splits tags text [] text
  | unclosed (text thinking : List Char) (hopens : Opens tags text thinking)
      (hopen : ¬ tags.closeTag <:+: thinking) : Splits tags text thinking []
  | closed (text thinking after : List Char)
      (hopens : Opens tags text (thinking ++ (tags.closeTag ++ after)))
      (hfirst : ∀ i < thinking.length,
        ¬ tags.closeTag <+: (thinking ++ (tags.closeTag ++ after)).drop i) :
      Splits tags text thinking (if hasVisibleText after then after else [])

section Start

variable {buffer openTag d inner : List Char} {idx : ℕ}

theorem append_rest (buffer : List Char) :
    buffer.takeWhile isWhitespace ++ buffer.dropWhile isWhitespace = buffer :=
  takeWhile_append_dropWhile

theorem analyze_eq_detected : analyzeThinkingStart buffer openTag = .detected idx ↔
    buffer.dropWhile isWhitespace ≠ [] ∧ openTag <+: buffer.dropWhile isWhitespace ∧
      idx = (buffer.takeWhile isWhitespace).length + openTag.length := by
  unfold analyzeThinkingStart
  generalize buffer.dropWhile isWhitespace = trimmed
  generalize (buffer.takeWhile isWhitespace).length = startIdx
  by_cases hne : trimmed = []
  · simp [hne]
  · by_cases hopen : openTag <+: trimmed
    · simp [hne, hopen, @eq_comm _ idx]
    · by_cases hrest : trimmed <+: openTag <;> simp [hne, hopen, hrest]

theorem analyze_eq_notThinking : analyzeThinkingStart buffer openTag = .notThinking ↔
    buffer.dropWhile isWhitespace ≠ [] ∧ ¬ openTag <+: buffer.dropWhile isWhitespace ∧
      ¬ buffer.dropWhile isWhitespace <+: openTag := by
  unfold analyzeThinkingStart
  generalize buffer.dropWhile isWhitespace = trimmed
  by_cases hne : trimmed = []
  · simp [hne]
  · by_cases hopen : openTag <+: trimmed
    · simp [hne, hopen]
    · by_cases hrest : trimmed <+: openTag <;> simp [hne, hopen, hrest]

theorem dropWhile_append_of_ne (h : buffer.dropWhile isWhitespace ≠ []) :
    (buffer ++ d).dropWhile isWhitespace = buffer.dropWhile isWhitespace ++ d := by
  simp [dropWhile_append, h]

theorem takeWhile_append_of_ne (h : buffer.dropWhile isWhitespace ≠ []) :
    (buffer ++ d).takeWhile isWhitespace = buffer.takeWhile isWhitespace := by
  rw [takeWhile_append, if_neg]
  intro hlength
  have hall := congrArg List.length (append_rest buffer)
  rw [length_append] at hall
  have : 0 < (buffer.dropWhile isWhitespace).length := length_pos_iff.mpr h
  omega

theorem detected_le (h : analyzeThinkingStart buffer openTag = .detected idx) :
    idx ≤ buffer.length := by
  obtain ⟨-, hprefix, rfl⟩ := analyze_eq_detected.mp h
  have hall := congrArg List.length (append_rest buffer)
  rw [length_append] at hall
  have := hprefix.length_le
  omega

theorem detected_append (h : analyzeThinkingStart buffer openTag = .detected idx) :
    analyzeThinkingStart (buffer ++ d) openTag = .detected idx := by
  obtain ⟨hne, hprefix, rfl⟩ := analyze_eq_detected.mp h
  rw [analyze_eq_detected, dropWhile_append_of_ne hne, takeWhile_append_of_ne hne]
  exact ⟨by simp [hne], hprefix.trans (prefix_append _ _), rfl⟩

theorem notThinking_append (h : analyzeThinkingStart buffer openTag = .notThinking) :
    analyzeThinkingStart (buffer ++ d) openTag = .notThinking := by
  obtain ⟨hne, hopen, hrest⟩ := analyze_eq_notThinking.mp h
  rw [analyze_eq_notThinking, dropWhile_append_of_ne hne]
  refine ⟨by simp [hne], fun hlong => ?_, fun hlong => ?_⟩
  · rcases prefix_or_prefix_of_prefix hlong (prefix_append _ d) with hp | hp
    · exact hopen hp
    · exact hrest hp
  · exact hrest ((prefix_append _ d).trans hlong)

theorem opens_of_detected (h : analyzeThinkingStart buffer tags.openTag = .detected idx) :
    Opens tags buffer (buffer.drop idx) := by
  obtain ⟨hne, ⟨inner, hinner⟩, rfl⟩ := analyze_eq_detected.mp h
  obtain ⟨c, rest, hrest⟩ := exists_cons_of_ne_nil hne
  have hbuffer : buffer =
      (buffer.takeWhile isWhitespace ++ tags.openTag) ++ inner := by
    rw [append_assoc, hinner, append_rest]
  have hdrop : buffer.drop ((buffer.takeWhile isWhitespace).length + tags.openTag.length) =
      inner := by
    rw [← length_append]
    generalize buffer.takeWhile isWhitespace ++ tags.openTag = start at hbuffer ⊢
    rw [hbuffer, drop_left]
  rw [hdrop]
  refine ⟨buffer.takeWhile isWhitespace, c, rest, ?_, hinner.trans hrest, ?_, ?_⟩
  · rw [hinner, append_rest]
  · have hhead := head_dropWhile_not isWhitespace hne
    simpa [hrest] using hhead
  · intro b hb
    exact mem_takeWhile_imp hb

theorem detected_of_opens (h : Opens tags buffer inner) :
    ∃ idx, analyzeThinkingStart buffer tags.openTag = .detected idx ∧ buffer.drop idx = inner := by
  obtain ⟨blank, c, rest, rfl, hrest, hc, hblank⟩ := h
  have hdrop : (blank ++ (tags.openTag ++ inner)).dropWhile isWhitespace =
      tags.openTag ++ inner := by
    rw [dropWhile_append_of_pos hblank, hrest]
    simp [hc]
  have htake : (blank ++ (tags.openTag ++ inner)).takeWhile isWhitespace = blank := by
    rw [takeWhile_append_of_pos hblank, hrest]
    simp [hc]
  refine ⟨_, analyze_eq_detected.mpr ⟨?_, ?_, rfl⟩, ?_⟩
  · rw [hdrop, hrest]
    simp
  · rw [hdrop]
    exact prefix_append _ _
  · rw [htake, ← append_assoc, ← length_append, drop_left]

theorem opens_unique {inner' : List Char} (h : Opens tags buffer inner)
    (h' : Opens tags buffer inner') : inner = inner' := by
  obtain ⟨idx, hidx, rfl⟩ := detected_of_opens h
  obtain ⟨idx', hidx', rfl⟩ := detected_of_opens h'
  rw [hidx] at hidx'
  cases hidx'
  rfl

end Start

@[simp] theorem thinkingText_nil : thinkingText [] = [] := rfl

@[simp] theorem responseText_nil : responseText [] = [] := rfl

@[simp] theorem thinkingText_append (first second : List AgentMessage) :
    thinkingText (first ++ second) = thinkingText first ++ thinkingText second :=
  flatMap_append

@[simp] theorem responseText_append (first second : List AgentMessage) :
    responseText (first ++ second) = responseText first ++ responseText second :=
  flatMap_append

@[simp] theorem thinkingText_thinking (text : List Char) (tokens : ℕ) :
    thinkingText [.thinkingContent text tokens] = text := append_nil text

@[simp] theorem responseText_thinking (text : List Char) (tokens : ℕ) :
    responseText [.thinkingContent text tokens] = [] := rfl

@[simp] theorem thinkingText_response (text : List Char) (tokens : ℕ) :
    thinkingText [.agentResponse text tokens] = [] := rfl

@[simp] theorem responseText_response (text : List Char) (tokens : ℕ) :
    responseText [.agentResponse text tokens] = text := append_nil text

theorem inPieces_flatten (rounds : ℕ) (text : List Char) (h : text.length ≤ rounds) :
    (inPieces rounds text).flatten = text := by
  induction rounds generalizing text with
  | zero => simp [inPieces, length_eq_zero_iff.mp (Nat.le_zero.mp h)]
  | succ rounds ih =>
    unfold inPieces
    split
    · simp_all
    · split
      · rw [flatten_cons, ih _ (by rw [length_drop]; omega), take_append_drop]
      · simp

theorem thinkingText_map (f : List Char → ℕ) (pieces : List (List Char)) :
    thinkingText (pieces.map fun piece => .thinkingContent piece (f piece)) = pieces.flatten := by
  induction pieces with
  | nil => rfl
  | cons piece pieces ih =>
    rw [map_cons, flatten_cons, ← ih]
    rfl

@[simp] theorem thinkingText_pieces (text : List Char) :
    thinkingText (thinkingPieces text) = text :=
  (thinkingText_map _ _).trans (inPieces_flatten _ text le_rfl)

@[simp] theorem responseText_pieces (text : List Char) :
    responseText (thinkingPieces text) = [] := by
  simp [responseText, thinkingPieces, AgentMessage.response]

/-- The states after a content has arrived, whatever chunks it came in. -/
inductive Splitter.Reads (tags : ThinkingTags) (text : List Char) : Splitter → Prop
  | start (acc : List Char) (sent : List AgentMessage) (hthinking : thinkingText sent = [])
      (hresponse : responseText sent = [])
      (hstart : analyzeThinkingStart text tags.openTag = .needMoreData) :
      Reads tags text ⟨false, [], true, text, [], false, acc, sent⟩
  | thinking (buffer acc : List Char) (sent : List AgentMessage) (idx : ℕ)
      (hstart : analyzeThinkingStart text tags.openTag = .detected idx)
      (hinner : text.drop idx = thinkingText sent ++ buffer) (hresponse : responseText sent = [])
      (hopen : text.drop idx ≠ [] → find tags.closeTag (text.drop idx) = none)
      (hheld : thinkingText sent = [] ∨ heldBack ≤ buffer.length) :
      Reads tags text ⟨true, buffer, false, [], [], false, acc, sent⟩
  | closed (pending acc : List Char) (started : Bool) (sent : List AgentMessage) (idx endIdx : ℕ)
      (hstart : analyzeThinkingStart text tags.openTag = .detected idx)
      (hclose : find tags.closeTag (text.drop idx) = some endIdx)
      (hthinking : thinkingText sent = (text.drop idx).take endIdx)
      (hafter : (text.drop idx).drop (endIdx + tags.closeTag.length) =
        responseText sent ++ pending)
      (hstarted : if started then pending = [] ∧ hasVisibleText (responseText sent) = true
        else responseText sent = [] ∧ hasVisibleText pending = false) :
      Reads tags text ⟨false, [], false, [], pending, started, acc, sent⟩
  | plain (acc : List Char) (sent : List AgentMessage) (hthinking : thinkingText sent = [])
      (hresponse : responseText sent = text)
      (hstart : analyzeThinkingStart text tags.openTag = .notThinking) :
      Reads tags text ⟨false, [], false, [], [], true, acc, sent⟩

@[simp] theorem hasVisibleText_append (first second : List Char) :
    hasVisibleText (first ++ second) = (hasVisibleText first || hasVisibleText second) :=
  any_append

@[simp] theorem thinkingText_last (text : List Char) :
    thinkingText (lastThinking text) = text := by
  unfold lastThinking
  split <;> simp_all

@[simp] theorem responseText_last (text : List Char) :
    responseText (lastThinking text) = [] := by
  unfold lastThinking
  split <;> simp

/-- A chunk of thinking, where `text` ends with it. -/
theorem think_reads {buffer acc : List Char} {idx : ℕ}
    (htags : tags.closeTag.length ≤ heldBack + 1)
    (hstart : analyzeThinkingStart text tags.openTag = .detected idx)
    (hinner : text.drop idx = thinkingText sent ++ (buffer ++ chunk))
    (hresponse : responseText sent = [])
    (hopen : thinkingText sent ++ buffer ≠ [] →
      Chunks.find tags.closeTag (thinkingText sent ++ buffer) = none)
    (hheld : thinkingText sent = [] ∨ heldBack ≤ buffer.length) :
    Splitter.Reads tags text
      (think ⟨true, buffer, false, [], [], false, acc, sent⟩ tags.closeTag chunk) := by
  -- the closing tag is found in what is held back if it is found at all
  have hfind : Chunks.find tags.closeTag (text.drop idx) =
      (Chunks.find tags.closeTag (buffer ++ chunk)).map (· + (thinkingText sent).length) := by
    rw [hinner]
    by_cases hsent : thinkingText sent = []
    · cases hfound : Chunks.find tags.closeTag (buffer ++ chunk) <;> simp [hsent, hfound]
    · have hlength := hheld.resolve_left hsent
      exact Chunks.find_append_of_none (hopen (by simp [hsent])) (by omega)
  unfold think
  by_cases hchunk : chunk = []
  · subst hchunk
    rw [List.append_nil] at hinner
    exact .thinking buffer acc sent idx hstart hinner hresponse (hinner ▸ hopen) hheld
  · simp only [List.isEmpty_iff, hchunk, if_false]
    cases hfound : Chunks.find tags.closeTag (buffer ++ chunk) with
    | some endIdx =>
      rw [hfound, Option.map_some] at hfind
      have hthinking : (text.drop idx).take (endIdx + (thinkingText sent).length) =
          thinkingText sent ++ (buffer ++ chunk).take endIdx := by
        rw [hinner, Nat.add_comm, List.take_length_add_append]
      have hafter : (text.drop idx).drop
          (endIdx + (thinkingText sent).length + tags.closeTag.length) =
            (buffer ++ chunk).drop (endIdx + tags.closeTag.length) := by
        rw [hinner, Nat.add_right_comm, Nat.add_comm, List.drop_length_add_append]
      simp only [send]
      split
      · rename_i hvisible
        refine .closed _ _ _ _ idx _ hstart hfind ?_ ?_ ?_
        · rw [hthinking]
          simp
        · rw [hafter]
          simp [hresponse]
        · simpa [hresponse] using hvisible
      · rename_i hblank
        refine .closed _ _ _ _ idx _ hstart hfind ?_ ?_ ?_
        · rw [hthinking]
          simp
        · rw [hafter]
          simp [hresponse]
        · simpa [hresponse] using hblank
    | none =>
      rw [hfound, Option.map_none] at hfind
      simp only [send]
      split
      · rename_i hlong
        refine .thinking _ _ _ idx hstart ?_ (by simp [hresponse]) (fun _ => hfind) (.inr ?_)
        · rw [hinner, thinkingText_append, thinkingText_pieces, List.append_assoc,
            List.take_append_drop]
        · rw [List.length_drop]
          omega
      · refine .thinking _ _ _ idx hstart hinner hresponse (fun _ => hfind) ?_
        rcases hheld with hsent | hlength
        · exact .inl hsent
        · right
          rw [List.length_append]
          omega

/-- A chunk of visible content after thinking, or where there is none. -/
theorem respond_sent {pending acc : List Char} {started : Bool} :
    respond ⟨false, [], false, [], pending, started, acc, sent⟩ chunk =
      if started = false ∧ hasVisibleText chunk = false then
        ⟨false, [], false, [], pending ++ chunk, false, acc, sent⟩
      else ⟨false, [], false, [], [], started || hasVisibleText chunk, acc ++ (pending ++ chunk),
        sent ++ [.agentResponse (pending ++ chunk) (1 + estimateTokensHeuristic pending)]⟩ := by
  unfold respond
  cases started <;> cases hasVisibleText chunk <;> simp [send]

theorem hasVisibleText_eq_true : hasVisibleText text = true ↔
    text.dropWhile isWhitespace ≠ [] := by
  simp [hasVisibleText, dropWhile_eq_nil_iff]

theorem visible_of_notThinking (h : analyzeThinkingStart text tags.openTag = .notThinking) :
    hasVisibleText text = true :=
  hasVisibleText_eq_true.mpr (analyze_eq_notThinking.mp h).1

/-- The step lemma: each chunk is read where the text before it ends. -/
theorem content_reads (htags : tags.closeTag.length ≤ heldBack + 1)
    (hs : s.Reads tags text) : (s.content tags chunk).Reads tags (text ++ chunk) := by
  by_cases hchunk : chunk = []
  · simpa [content, hchunk] using hs
  · cases hs with
    | start acc sent hthinking hresponse hstart =>
      simp only [content, List.isEmpty_iff, hchunk, if_false, if_true]
      cases hdecision : analyzeThinkingStart (text ++ chunk) tags.openTag with
      | needMoreData => exact .start acc sent hthinking hresponse hdecision
      | detected idx =>
        refine think_reads htags hdecision ?_ hresponse (by simp [hthinking]) (.inl hthinking)
        simp [hthinking]
      | notThinking =>
        have hvisible := visible_of_notThinking hdecision
        simp only [Bool.false_eq_true, if_false, respond_sent, hvisible, and_false, reduceCtorEq,
          Bool.or_true]
        exact .plain _ _ (by simp [hthinking]) (by simp [hresponse]) hdecision
    | thinking buffer acc sent idx hstart hinner hresponse hopen hheld =>
      simp only [content, List.isEmpty_iff, hchunk, if_false, Bool.false_eq_true, if_true]
      refine think_reads htags (detected_append hstart) ?_ hresponse (hinner ▸ hopen) hheld
      rw [List.drop_append_of_le_length (detected_le hstart), hinner, List.append_assoc]
    | closed pending acc started sent idx endIdx hstart hclose hthinking hafter hstarted =>
      have hdrop : (text ++ chunk).drop idx = text.drop idx ++ chunk :=
        List.drop_append_of_le_length (detected_le hstart)
      have hlength := (Chunks.find_spec hclose).2
      have hstart' := detected_append (d := chunk) hstart
      have hclose' : Chunks.find tags.closeTag ((text ++ chunk).drop idx) = some endIdx := by
        rw [hdrop]
        exact Chunks.find_append_of_some hclose
      have hthinking' : thinkingText sent = ((text ++ chunk).drop idx).take endIdx := by
        rw [hdrop, List.take_append_of_le_length (by omega)]
        exact hthinking
      have hafter' : ((text ++ chunk).drop idx).drop (endIdx + tags.closeTag.length) =
          responseText sent ++ (pending ++ chunk) := by
        rw [hdrop, List.drop_append_of_le_length hlength, hafter, List.append_assoc]
      simp only [content, List.isEmpty_iff, hchunk, if_false, Bool.false_eq_true,
        respond_sent]
      split
      · rename_i hblank
        rw [hblank.1] at hstarted
        refine .closed _ _ _ _ idx endIdx hstart' hclose' hthinking' hafter' ?_
        simpa [hblank.2] using hstarted
      · rename_i hshow
        have hvisible : (started || hasVisibleText chunk) = true := by
          cases started <;> simp_all
        rw [hvisible]
        refine .closed _ _ _ _ idx endIdx hstart' hclose' (by simpa using hthinking') ?_ ?_
        · rw [hafter']
          simp
        · cases started <;> simp_all
    | plain acc sent hthinking hresponse hstart =>
      simp only [content, List.isEmpty_iff, hchunk, if_false, Bool.false_eq_true,
        respond_sent, reduceCtorEq, false_and, Bool.true_or]
      exact .plain _ _ (by simp [hthinking]) (by simp [hresponse]) (notThinking_append hstart)

/-- The first occurrence of the closing tag is where `hfirst` says. -/
theorem first_unique {part thinking thinking' after after' : List Char}
    (heq : thinking ++ (part ++ after) = thinking' ++ (part ++ after'))
    (hfirst : ∀ i < thinking.length, ¬ part <+: (thinking ++ (part ++ after)).drop i) :
    thinking.length ≤ thinking'.length := by
  by_contra hlt
  refine hfirst thinking'.length (by omega) ?_
  rw [heq, drop_left]
  exact prefix_append _ _

/-- A content splits in one way only. -/
theorem splits_unique {thinking thinking' response response' : List Char}
    (h : Splits tags text thinking response) (h' : Splits tags text thinking' response') :
    thinking = thinking' ∧ response = response' := by
  cases h with
  | plain hplain =>
    cases h' with
    | plain => exact ⟨rfl, rfl⟩
    | unclosed _ hopens => exact absurd hopens (hplain _)
    | closed _ after hopens => exact absurd hopens (hplain _)
  | unclosed _ hopens hopen =>
    cases h' with
    | plain hplain => exact absurd hopens (hplain _)
    | unclosed _ hopens' => exact ⟨opens_unique hopens hopens', rfl⟩
    | closed _ after' hopens' =>
      obtain rfl := opens_unique hopens' hopens
      exact absurd ⟨_, _, append_assoc _ _ _⟩ hopen
  | closed _ after hopens hfirst =>
    cases h' with
    | plain hplain => exact absurd hopens (hplain _)
    | unclosed _ hopens' hopen' =>
      obtain rfl := opens_unique hopens hopens'
      exact absurd ⟨_, _, append_assoc _ _ _⟩ hopen'
    | closed _ after' hopens' hfirst' =>
      have heq := opens_unique hopens hopens'
      have hlength := le_antisymm (first_unique heq hfirst) (first_unique heq.symm hfirst')
      obtain ⟨rfl, htail⟩ := append_inj heq hlength
      obtain rfl := append_cancel_left htail
      exact ⟨rfl, rfl⟩

theorem init_reads (tags : ThinkingTags) : init.Reads tags [] :=
  .start [] [] rfl rfl rfl

/-- What is shown at the end of a content splits it. -/
theorem splits_of_reads (hs : s.Reads tags text) :
    Splits tags text (thinkingText s.flush.sent) (responseText s.flush.sent) := by
  cases hs with
  | start acc sent hthinking hresponse hstart =>
    have hplain : ∀ inner, ¬ Opens tags text inner := by
      intro inner hopens
      obtain ⟨idx, hidx, -⟩ := detected_of_opens hopens
      rw [hstart] at hidx
      cases hidx
    by_cases htext : text = []
    · simpa [flush, htext, hthinking, hresponse] using Splits.plain [] (htext ▸ hplain)
    · simpa [flush, htext, hthinking, hresponse, send] using
        Splits.plain text hplain
  | thinking buffer acc sent idx hstart hinner hresponse hopen hheld =>
    have hopens := opens_of_detected hstart
    have hthinking : thinkingText (sent ++ lastThinking buffer) = text.drop idx := by
      rw [thinkingText_append, thinkingText_last, hinner]
    simp only [flush, isEmpty_nil, if_true, send, hthinking,
      responseText_append, responseText_last, hresponse, append_nil]
    by_cases hclose : tags.closeTag <:+: text.drop idx
    · -- nothing but the empty closing tag occurs, and in nothing
      have hempty : text.drop idx = [] := by
        by_contra hne
        exact find_eq_none (hopen hne) hclose
      rw [hempty] at hclose hopens ⊢
      have htag := infix_nil.mp hclose
      have hclosed : Splits tags text [] (if hasVisibleText [] then [] else []) :=
        .closed text [] [] (by simpa [htag] using hopens) (by simp)
      simpa using hclosed
    · exact .unclosed text _ hopens hclose
  | closed pending acc started sent idx endIdx hstart hclose hthinking hafter hstarted =>
    obtain ⟨⟨after, hsplit⟩, hlength⟩ := find_spec hclose
    have hrest : (text.drop idx).drop (endIdx + tags.closeTag.length) = after := by
      rw [← drop_drop, ← hsplit, drop_left]
    have hinner : text.drop idx =
        (text.drop idx).take endIdx ++ (tags.closeTag ++ after) := by
      rw [hsplit, take_append_drop]
    have hresponse : responseText sent = if hasVisibleText after then after else [] := by
      rw [hrest] at hafter
      cases started with
      | false =>
        obtain ⟨hnone, hblank⟩ : responseText sent = [] ∧ hasVisibleText pending = false := hstarted
        rw [hnone, nil_append] at hafter
        rw [hnone, hafter, hblank, if_neg (by decide)]
      | true =>
        obtain ⟨rfl, hvisible⟩ : pending = [] ∧ hasVisibleText (responseText sent) =
          true := hstarted
        rw [append_nil] at hafter
        rw [hafter, hvisible, if_pos rfl]
    have hfirst : ∀ i < ((text.drop idx).take endIdx).length,
        ¬ tags.closeTag <+: ((text.drop idx).take endIdx ++ (tags.closeTag ++ after)).drop i := by
      intro i hi hfound
      rw [length_take] at hi
      rw [← hinner] at hfound
      have := find_le hclose hfound (by omega)
      omega
    have hopens : Opens tags text
        ((text.drop idx).take endIdx ++ (tags.closeTag ++ after)) := by
      rw [← hinner]
      exact opens_of_detected hstart
    simpa [flush, hthinking, hresponse] using Splits.closed text _ after hopens hfirst
  | plain acc sent hthinking hresponse hstart =>
    have hplain : ∀ inner, ¬ Opens tags text inner := by
      intro inner hopens
      obtain ⟨idx, hidx, -⟩ := detected_of_opens hopens
      rw [hstart] at hidx
      cases hidx
    simpa [flush, hthinking, hresponse] using Splits.plain text hplain

/-- Wherever the content is cut, the same thinking and the same response are shown: what the whole
content splits into. -/
theorem chunking_invariant (tags : ThinkingTags)
    (htags : tags.closeTag.length ≤ heldBack + 1) (chunks : List (List Char)) :
    shown (streamed tags chunks) = shown (streamed tags [chunks.flatten]) ∧
      Splits tags chunks.flatten (thinkingText (streamed tags chunks).sent)
        (responseText (streamed tags chunks).sent) := by
  have hsplits : ∀ chunks, Splits tags (List.flatten chunks)
      (thinkingText (streamed tags chunks).sent) (responseText (streamed tags chunks).sent) := by
    intro chunks
    have hreads := feed_invariant (fun _ _ _ hs => content_reads htags hs)
      (init_reads tags) chunks
    exact splits_of_reads hreads
  have hwhole := hsplits [chunks.flatten]
  rw [flatten_singleton] at hwhole
  obtain ⟨hthinking, hresponse⟩ := splits_unique (hsplits chunks) hwhole
  exact ⟨Prod.ext hthinking hresponse, hsplits chunks⟩

def thinkTags : ThinkingTags := ⟨"<think>".toList, "</think>".toList⟩

theorem chunking_invariant_think :
    thinkTags.closeTag.length ≤ heldBack + 1 ∧
      shown (streamed thinkTags ["<th".toList, "ink>a</thi".toList, "nk>b".toList]) =
        ("a".toList, "b".toList) ∧
      shown (streamed thinkTags ["<th".toList, "ink>a</thi".toList, "nk>b".toList]) =
        shown (streamed thinkTags ["<think>a</think>b".toList]) :=
  ⟨by decide, by decide,
    (chunking_invariant thinkTags (by decide)
      ["<th".toList, "ink>a</thi".toList, "nk>b".toList]).1⟩

/-- A tag after visible text is text, and the blank before a tag is not shown. -/
theorem tags_elsewhere_shown :
    shown (streamed thinkTags ["a<think>b</think>c".toList]) =
        ([], "a<think>b</think>c".toList) ∧
      shown (streamed thinkTags ["\n<think>b</think>c".toList]) = ("b".toList, "c".toList) := by
  decide

end ColossalCode.Agent
