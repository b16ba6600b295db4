import ColossalCode.Agent.Generation
import ColossalCode.Agent.Summarizer
import ColossalCode.Locks.Threads

/-! The mutexes that a generation locks and the places where it looks for a cancel: a cancel may
find it holding the summarizer, which ending the generation asks for once more. -/
namespace ColossalCode.Agent
open List Option

open Locks (Action)

inductive Mutex where
  | thinkingTags
  | thinkingSummarizer
  | conversation
  deriving DecidableEq, Repr

/-- Where a cancel is looked for: at the `top` of the loop and when it is `idle`, while the start is
`undecided`, in the thinking, and after visible or `blank` text. -/
inductive Place where
  | top
  | idle
  | undecided
  | closing
  | lastSummary
  | flushed
  | piece
  | summary
  | blank
  | response
  deriving DecidableEq, Repr

/-- A step of a generation that is not cancelled; `thinking` says that a cancel would flush the
thinking. -/
inductive Point where
  | lock (m : Mutex)
  | unlock (m : Mutex)
  | check (place : Place) (thinking : Bool)

/-- The end of a generation in `check_cancel!`. -/
def cancelled (thinking : Bool) : List (Action Mutex) :=
  (if thinking then [.acquire .thinkingSummarizer, .release .thinkingSummarizer] else []) ++
    [.acquire .conversation, .release .conversation]

/-- What a generation does with its mutexes when a cancel is there at the check with the number
`cancel`; the guards it holds are dropped when it returns. -/
def actions : Option Nat → List Mutex → List Point → List (Action Mutex)
  | _, _, [] => []
  | cancel, held, .lock m :: points => .acquire m :: actions cancel (m :: held) points
  | cancel, held, .unlock m :: points => .release m :: actions cancel (held.erase m) points
  | some 0, held, .check _ thinking :: _ => cancelled thinking ++ held.map .release
  | some (n + 1), held, .check _ _ :: points => actions (some n) held points
  | none, held, .check _ _ :: points => actions none held points

/-- The place where the cancel is observed, if it is. -/
def observed : Option Nat → List Point → Option Place
  | _, [] => none
  | cancel, .lock _ :: points => observed cancel points
  | cancel, .unlock _ :: points => observed cancel points
  | some 0, .check place _ :: _ => some place
  | some (n + 1), .check _ _ :: points => observed (some n) points
  | none, .check _ _ :: points => observed none points

namespace Splitter

def check (s : Splitter) (place : Place) : Point :=
  .check place (!s.thinkingBuffer.isEmpty && s.inThinking)

/-- The loop over new summaries, under the guard of the summarizer. -/
def sendSummaries (s : Splitter) (place : Place) (new : List Summary) : List Point :=
  .lock .thinkingSummarizer :: (new.map (fun _ => s.check place) ++ [.unlock .thinkingSummarizer])

/-- The summarizer is held, and no cancel is looked for. -/
def holdSummarizer : List Point := [.lock .thinkingSummarizer, .unlock .thinkingSummarizer]

def readTags : List Point := [.lock .thinkingTags, .unlock .thinkingTags]

/-- The checks in the loop over the pieces of `inPieces`. -/
def pieceChecks (s : Splitter) : Nat → List Char → List Point
  | 0, _ => []
  | rounds + 1, remaining =>
    if remaining.isEmpty then []
    else if 100 < remaining.length then
      s.check .piece :: s.check .piece :: s.pieceChecks rounds (remaining.drop 100)
    else [s.check .piece]

def thinkPoints (s : Splitter) (closeTag chunk : List Char) (first second : Visit)
    (summarizer : ThinkingSummarizer) : List Point × ThinkingSummarizer :=
  if chunk.isEmpty then ([], summarizer)
  else
    let buffer := s.thinkingBuffer ++ chunk
    match Chunks.find closeTag buffer with
    | some endIdx =>
      let s := { s with inThinking := false, thinkingBuffer := buffer }
      let finalThinking := buffer.take endIdx
      let (points, summarizer) :=
        if finalThinking.isEmpty then ([], summarizer)
        else
          let (new, summarizer) := first.add finalThinking summarizer
          (s.check .closing :: s.sendSummaries .lastSummary new, summarizer)
      let (new, summarizer) := second.finish summarizer
      (readTags ++ (points ++ s.sendSummaries .flushed new), summarizer)
    | none =>
      let s := { s with thinkingBuffer := buffer }
      if buffer.length > heldBack then
        let toSend := buffer.take (buffer.length - heldBack)
        let (new, summarizer) := first.add toSend summarizer
        (readTags ++ (s.pieceChecks toSend.length toSend ++ s.sendSummaries .summary new),
          summarizer)
      else (readTags, summarizer)

def respondPoints (s : Splitter) (chunk : List Char) : List Point :=
  if !s.finalResponseStarted && !hasVisibleText chunk then [(s.respond chunk).check .blank]
  else [(s.respond chunk).check .response]

def contentPoints (tags : ThinkingTags) (s : Splitter) (chunk : List Char) (first second : Visit)
    (summarizer : ThinkingSummarizer) : List Point × ThinkingSummarizer :=
  if chunk.isEmpty then ([], summarizer)
  else
    let (points, summarizer) :=
      if s.allowThinkingStart then
        let pending := s.pendingPrefix ++ chunk
        match analyzeThinkingStart pending tags.openTag with
        | .needMoreData => ([{ s with pendingPrefix := pending }.check .undecided], summarizer)
        | .detected contentStartIdx =>
          { s with allowThinkingStart := false, inThinking := true, pendingPrefix := [] }.thinkPoints
            tags.closeTag (pending.drop contentStartIdx) first second summarizer
        | .notThinking =>
          let s := { s with allowThinkingStart := false, pendingPrefix := [] }
          if s.inThinking then s.thinkPoints tags.closeTag pending first second summarizer
          else (s.respondPoints pending, summarizer)
      else if s.inThinking then s.thinkPoints tags.closeTag chunk first second summarizer
      else (s.respondPoints chunk, summarizer)
    (readTags ++ points, summarizer)

/-- The thinking under way is summarized before a tool call, and at the end of the stream. -/
def lastPoints (s : Splitter) (visit : Visit) (summarizer : ThinkingSummarizer) :
    List Point × ThinkingSummarizer :=
  if s.inThinking && !s.thinkingBuffer.isEmpty then
    (holdSummarizer, (visit.addLast s.thinkingBuffer summarizer).2)
  else ([], summarizer)

end Splitter

/-- What the wait for a response ends with. -/
inductive Event where
  | idle
  | response (answer : Response) (first second : Visit)

/-- The events of a stream until it is closed. -/
structure Events where
  events : List Event
  atEnd : Visit

def Event.responses : List Event → List Response
  | [] => []
  | .idle :: events => Event.responses events
  | .response answer _ _ :: events => answer :: Event.responses events

namespace Turn

def deltaPoints (tags : ThinkingTags) (t : Turn) (delta : Delta) (first second : Visit)
    (summarizer : ThinkingSummarizer) : List Point × ThinkingSummarizer :=
  match delta.toolCalls, delta.content with
  | some _, _ => t.splitter.lastPoints first summarizer
  | none, some content => t.splitter.contentPoints tags content first second summarizer
  | none, none => ([], summarizer)

def readPoints (tags : ThinkingTags) : List Event → Turn → ThinkingSummarizer →
    List Point × ThinkingSummarizer
  | [], t, summarizer => ([t.splitter.check .top], summarizer)
  | .idle :: events, t, summarizer =>
    let (points, summarizer) := readPoints tags events t summarizer
    (t.splitter.check .top :: t.splitter.check .idle :: points, summarizer)
  | .response (.chunk choices) first second :: events, t, summarizer =>
    match choices.head? with
    | some choice =>
      let (points, summarizer) := t.deltaPoints tags choice.delta first second summarizer
      let (rest, summarizer) := readPoints tags events (t.delta tags choice.delta) summarizer
      (t.splitter.check .top :: (points ++ rest), summarizer)
    | none =>
      let (rest, summarizer) := readPoints tags events t summarizer
      (t.splitter.check .top :: rest, summarizer)
  | .response .other _ _ :: events, t, summarizer =>
    let (rest, summarizer) := readPoints tags events t summarizer
    (t.splitter.check .top :: rest, summarizer)
  | .response (.done _) _ _ :: _, t, summarizer => ([t.splitter.check .top], summarizer)
  | .response (.internalError _) _ _ :: _, t, summarizer => ([t.splitter.check .top], summarizer)
  | .response (.validationError _) _ _ :: _, t, summarizer =>
    ([t.splitter.check .top], summarizer)
  | .response (.modelError _) _ _ :: _, t, summarizer => ([t.splitter.check .top], summarizer)

end Turn

def turnPoints (tags : ThinkingTags) (stream : Events) (summarizer : ThinkingSummarizer) :
    List Point × ThinkingSummarizer :=
  let (points, summarizer) := Turn.readPoints tags stream.events .init summarizer
  let turn := Turn.read tags (Event.responses stream.events) .init
  let (last, summarizer) := turn.splitter.lastPoints stream.atEnd summarizer
  (points ++ last, summarizer)

/-- The points of `run_generation`, with the stream of each request, `none` if it is refused. No
mutex is held while the tools are executed. -/
def generationPoints (tags : ThinkingTags) : List (Option Events) → ThinkingSummarizer → List Point
  | [], _ => []
  | none :: _, _ => []
  | some stream :: streams, summarizer =>
    let (points, summarizer) := turnPoints tags stream summarizer
    points ++
      if (readTurn tags (Event.responses stream.events)).calls.isEmpty then
        [.lock .conversation, .unlock .conversation]
      else generationPoints tags streams summarizer

end ColossalCode.Agent

/-! A generation asks for the summarizer it holds exactly when a cancel is observed between the new
summaries of a thinking that goes on. -/
namespace ColossalCode.Agent
open List Option

open Locks (NeverReenters)

variable {p q points : List Point} {held thinking : Bool} {ks : List Mutex} {cancel : Option Nat}

/-- Among the points only `summary` is a check under the guard that would flush the thinking;
`held` says that the summarizer is locked. -/
def Guarded : Bool → List Point → Prop
  | _, [] => True
  | held, .lock m :: points =>
    if m = .thinkingSummarizer then held = false ∧ Guarded true points else Guarded held points
  | held, .unlock m :: points =>
    if m = .thinkingSummarizer then Guarded false points else Guarded held points
  | held, .check place thinking :: points =>
    (place = .summary ↔ held = true ∧ thinking = true) ∧ Guarded held points

theorem mem_of_count (hk : ks.count .thinkingSummarizer = held.toNat) :
    .thinkingSummarizer ∈ ks ↔ held = true := by
  rw [← count_pos_iff, hk]
  cases held <;> simp

/-- The end of a cancelled generation asks for the summarizer if it has thinking to flush. -/
theorem cancelled_iff (hk : ks.count .thinkingSummarizer = held.toNat) :
    NeverReenters .thinkingSummarizer ks (cancelled thinking ++ ks.map .release) ↔
      ¬ (held = true ∧ thinking = true) := by
  have hrest : NeverReenters Mutex.thinkingSummarizer ks
      (.acquire .conversation :: .release .conversation :: ks.map .release) := by
    rw [NeverReenters, NeverReenters, erase_cons_head]
    exact ⟨fun h => (by cases h), Locks.neverReenters_releases _ _ _⟩
  cases thinking with
  | false => simpa [cancelled] using hrest
  | true =>
    have hmem := mem_of_count hk
    have hwhole : cancelled true ++ ks.map .release = .acquire .thinkingSummarizer ::
        .release .thinkingSummarizer :: .acquire .conversation :: .release .conversation ::
          ks.map .release := rfl
    rw [hwhole, NeverReenters, NeverReenters, erase_cons_head, and_iff_left hrest, hmem]
    simp

/-- The induction follows the points; the list of mutexes held agrees with `held`. -/
theorem Guarded.neverReenters_iff (h : Guarded held points)
    (hk : ks.count .thinkingSummarizer = held.toNat) :
    NeverReenters .thinkingSummarizer ks (actions cancel ks points) ↔
      observed cancel points ≠ some .summary := by
  induction points generalizing held ks cancel with
  | nil => simp [actions, observed, NeverReenters]
  | cons point points ih =>
    cases point with
    | lock m =>
      rw [actions, observed, NeverReenters]
      by_cases hm : m = .thinkingSummarizer
      · subst hm
        rw [Guarded, if_pos rfl] at h
        obtain ⟨rfl, h⟩ := h
        have hfree : Mutex.thinkingSummarizer ∉ ks := by simp [mem_of_count hk]
        rw [ih h (by rw [count_cons_self, hk]; rfl), and_iff_right fun _ => hfree]
      · rw [Guarded, if_neg hm] at h
        rw [ih h (by rw [count_cons_of_ne hm, hk]), and_iff_right fun he => absurd he hm]
    | unlock m =>
      rw [actions, observed, NeverReenters]
      by_cases hm : m = .thinkingSummarizer
      · subst hm
        rw [Guarded, if_pos rfl] at h
        refine ih h ?_
        rw [count_erase_self, hk]
        cases held <;> rfl
      · rw [Guarded, if_neg hm] at h
        refine ih h ?_
        rw [count_erase_of_ne (Ne.symm hm), hk]
    | check place thinking =>
      obtain ⟨hplace, h⟩ := h
      match cancel with
      | none => exact ih h hk
      | some (n + 1) => exact ih h hk
      | some 0 =>
        rw [actions, observed, cancelled_iff hk, ← hplace, ne_eq, some.injEq]

/-- Points that are guarded while no one holds the summarizer, and leave it free. -/
def Part (p : List Point) : Prop := ∀ points, Guarded false points → Guarded false (p ++ points)

theorem Part.guarded (h : Part p) : Guarded false p := by
  have hwhole := h [] trivial
  rwa [append_nil] at hwhole

theorem part_nil : Part [] := fun _ h => h

theorem Part.append (hp : Part p) (hq : Part q) : Part (p ++ q) := by
  intro points h
  rw [append_assoc]
  exact hp _ (hq _ h)

theorem Part.cons {point : Point} (hpoint : Part [point]) (hp : Part p) : Part (point :: p) :=
  hpoint.append hp

namespace Splitter

variable {s : Splitter} {tags : ThinkingTags} {closeTag chunk text : List Char}
variable {first second visit : Visit} {summarizer : ThinkingSummarizer} {place : Place}

/-- Without the guard no check is one of `summary`. -/
theorem part_check (hplace : place ≠ .summary) : Part [s.check place] := by
  intro points h
  exact ⟨by simp [hplace], h⟩

theorem part_readTags : Part readTags := fun _ h => h

theorem part_holdSummarizer : Part holdSummarizer := fun _ h => ⟨rfl, h⟩

/-- Under the guard the checks of `summary` are those that would flush the thinking. -/
theorem part_sendSummaries (place : Place)
    (hplace : place = .summary ↔ (!s.thinkingBuffer.isEmpty && s.inThinking) = true)
    (new : List Summary) : Part (s.sendSummaries place new) := by
  intro points h
  have hloop : Guarded true (new.map (fun _ => s.check place) ++
      (.unlock .thinkingSummarizer :: points)) := by
    induction new with
    | nil => exact h
    | cons summary new ih => exact ⟨by rw [hplace, and_iff_right rfl], ih⟩
  rw [sendSummaries, cons_append, append_assoc]
  exact ⟨rfl, hloop⟩

theorem part_pieceChecks (rounds : Nat) : Part (s.pieceChecks rounds text) := by
  have hcheck : Part [s.check .piece] := part_check (by decide)
  induction rounds generalizing text with
  | zero => exact part_nil
  | succ rounds ih =>
    rw [pieceChecks]
    split
    · exact part_nil
    · split
      · exact hcheck.cons (hcheck.cons ih)
      · exact hcheck

/-- Thinking that goes on is not empty, and thinking that has ended is not flushed. -/
theorem part_thinkPoints (hs : s.inThinking = true) :
    Part (s.thinkPoints closeTag chunk first second summarizer).1 := by
  unfold thinkPoints
  split
  · exact part_nil
  · dsimp only
    split
    · have hended (place : Place) (hplace : place ≠ .summary) (new : List Summary) (buffer) :=
        part_sendSummaries (s := { s with inThinking := false, thinkingBuffer := buffer })
          place (by simp [hplace]) new
      refine part_readTags.append (Part.append ?_ (hended _ (by decide) _ _))
      split
      · exact part_nil
      · exact (part_check (by decide)).cons (hended _ (by decide) _ _)
    · split
      · rename_i hlong
        refine part_readTags.append ((part_pieceChecks _).append (part_sendSummaries _ ?_ _))
        have hne : s.thinkingBuffer ++ chunk ≠ [] := by
          intro hnil
          rw [hnil] at hlong
          exact absurd hlong (by decide)
        simp [hs, hne]
      · exact part_readTags

theorem part_respondPoints : Part (s.respondPoints chunk) := by
  unfold respondPoints
  split <;> exact part_check (by decide)

theorem part_contentPoints : Part (s.contentPoints tags chunk first second summarizer).1 := by
  unfold contentPoints
  split
  · exact part_nil
  · refine part_readTags.append ?_
    split
    · dsimp only
      split
      · exact part_check (by decide)
      · exact part_thinkPoints rfl
      · split
        · exact part_thinkPoints ‹_›
        · exact part_respondPoints
    · split
      · exact part_thinkPoints ‹_›
      · exact part_respondPoints

theorem part_lastPoints : Part (s.lastPoints visit summarizer).1 := by
  unfold lastPoints
  split
  · exact part_holdSummarizer
  · exact part_nil

end Splitter

variable {tags : ThinkingTags} {summarizer : ThinkingSummarizer}

theorem Turn.part_deltaPoints (t : Turn) (delta : Delta) (first second : Visit) :
    Part (t.deltaPoints tags delta first second summarizer).1 := by
  unfold deltaPoints
  split
  · exact Splitter.part_lastPoints
  · exact Splitter.part_contentPoints
  · exact part_nil

theorem Turn.part_readPoints (events : List Event) (t : Turn) :
    Part (readPoints tags events t summarizer).1 := by
  have hcheck (t : Turn) {place : Place} (hplace : place ≠ .summary) :
      Part [t.splitter.check place] := Splitter.part_check hplace
  have htop (t : Turn) : Part [t.splitter.check .top] := hcheck t (by decide)
  induction events generalizing t summarizer with
  | nil => exact htop t
  | cons event events ih =>
    cases event with
    | idle => exact (htop t).cons ((hcheck t (by decide)).cons (ih t))
    | response answer first second =>
      cases answer with
      | chunk choices =>
        rw [readPoints]
        split
        · exact (htop t).cons ((part_deltaPoints _ _ _ _).append (ih _))
        · exact (htop t).cons (ih t)
      | other => exact (htop t).cons (ih t)
      | done _ => exact htop t
      | internalError _ => exact htop t
      | validationError _ => exact htop t
      | modelError _ => exact htop t

theorem part_turnPoints (stream : Events) : Part (turnPoints tags stream summarizer).1 :=
  (Turn.part_readPoints _ _).append Splitter.part_lastPoints

theorem part_generationPoints (streams : List (Option Events)) :
    Part (generationPoints tags streams summarizer) := by
  induction streams generalizing summarizer with
  | nil => exact part_nil
  | cons stream streams ih =>
    cases stream with
    | none => exact part_nil
    | some stream =>
      rw [generationPoints]
      refine (part_turnPoints stream).append ?_
      split
      · exact fun _ h => h
      · exact ih

/-- For every stream and every moment of a cancel: the summarizer is asked for by the one who holds
it exactly when the cancel is observed in the loop over the new summaries of thinking that goes
on. -/
theorem never_reenters_iff (tags : ThinkingTags) (streams : List (Option Events))
    (summarizer : ThinkingSummarizer) (cancel : Option Nat) :
    NeverReenters .thinkingSummarizer []
        (actions cancel [] (generationPoints tags streams summarizer)) ↔
      observed cancel (generationPoints tags streams summarizer) ≠ some .summary :=
  (part_generationPoints streams).guarded.neverReenters_iff rfl

/-- A chunk of content, with the summary that is there when its thinking has been added. -/
def contentEvent (text : String) (later : List (Option Summary)) : Event :=
  .response (.chunk [⟨none, 0, ⟨some text.toList, "assistant", none⟩⟩]) ⟨id, [], [], later⟩
    ⟨id, [], [], []⟩

def summarizedStream : Events where
  events := [contentEvent "<think>The first thing to look at is" [],
    contentEvent " the loop." [some ("Looks at the loop", 4, 1)]]
  atEnd := ⟨id, [], [], []⟩

/-- The summary of the first chunk is there with the second one, and then the cancel. -/
theorem cancel_reenters : ¬ ∀ (tags : ThinkingTags) (streams : List (Option Events))
    (summarizer : ThinkingSummarizer) (cancel : Option Nat),
    NeverReenters .thinkingSummarizer []
      (actions cancel [] (generationPoints tags streams summarizer)) := by
  intro hall
  have hnever := hall ⟨"<think>".toList, "</think>".toList⟩ [some summarizedStream]
    (.withThreshold 4) (some 4)
  revert hnever
  decide

end ColossalCode.Agent
