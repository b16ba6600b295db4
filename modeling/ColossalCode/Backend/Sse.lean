import ColossalCode.Backend.Utf8
import ColossalCode.Chunks.Separators

/-! Server-sent events, as each of the three streaming backends takes them from its buffer. -/
namespace ColossalCode.Backend

open Chunks (Framer Separators feed startsAt splitAtFirst_here splitAtFirst_later)

def lf : UInt8 := 10

def cr : UInt8 := 13

def lfLf : List UInt8 := [lf, lf]

def crLfCrLf : List UInt8 := [cr, lf, cr, lf]

/-- `sse_data_from_event`, which is the same in the three backends. -/
def dataLines (event : List UInt8) : List (List Char) :=
  (Text.lines (Text.fromUtf8Lossy event)).filterMap fun line =>
    if "data:".toList.isPrefixOf line then some ((line.drop 5).dropWhile Text.isWhitespace)
    else none

def joinData (dataLines : List (List Char)) : Option (List Char) :=
  if dataLines.isEmpty then none else some (List.intercalate ['\n'] dataLines)

def sseDataFromEvent (event : List UInt8) : Option (List Char) := joinData (dataLines event)

namespace OpenAi

/-- Where the first separator starts, and its length. -/
def findSseSeparator : List UInt8 → Option (Nat × Nat)
  | [] => none
  | b :: rest =>
    if lfLf.isPrefixOf (b :: rest) then some (0, 2)
    else if crLfCrLf.isPrefixOf (b :: rest) then some (0, 4)
    else (findSseSeparator rest).map fun (idx, sepLen) => (idx + 1, sepLen)

/-- The first event of the buffer, and what is left in the buffer. -/
def extractSseEvent (buffer : List UInt8) : Option (List UInt8 × List UInt8) :=
  (findSseSeparator buffer).map fun (idx, sepLen) =>
    (buffer.take idx, buffer.drop (idx + sepLen))

end OpenAi

namespace Responses

def extractSseEvent : List UInt8 → Option (List UInt8 × List UInt8)
  | [] => none
  | b :: rest =>
    if lfLf.isPrefixOf (b :: rest) then some ([], (b :: rest).drop 2)
    else if crLfCrLf.isPrefixOf (b :: rest) then some ([], (b :: rest).drop 4)
    else (extractSseEvent rest).map fun (event, left) => (b :: event, left)

end Responses

namespace Anthropic

def extractSseEvent : List UInt8 → Option (List UInt8 × List UInt8)
  | [] => none
  | b :: rest =>
    if lfLf.isPrefixOf (b :: rest) then some ([], (b :: rest).drop 2)
    else (extractSseEvent rest).map fun (event, left) => (b :: event, left)

end Anthropic

/-- The blank lines that end an event, with either line end. -/
def blankLines : Separators UInt8 := ⟨[lfLf, crLfCrLf], by decide, by decide⟩

def lfBlankLines : Separators UInt8 := ⟨[lfLf], by decide, by decide⟩

theorem startsAt_blank (s : List UInt8) : startsAt blankLines.all s =
    if lfLf.isPrefixOf s then some lfLf
    else if crLfCrLf.isPrefixOf s then some crLfCrLf else none := by
  unfold startsAt blankLines
  cases hlf : lfLf.isPrefixOf s <;> cases hcr : crLfCrLf.isPrefixOf s <;> simp [hlf, hcr]

theorem startsAt_lfBlank (s : List UInt8) : startsAt lfBlankLines.all s =
    if lfLf.isPrefixOf s then some lfLf else none := by
  unfold startsAt lfBlankLines
  cases hlf : lfLf.isPrefixOf s <;> simp [hlf]

variable (buffer : List UInt8) (F : Framer UInt8 (List UInt8))

theorem responses_extract :
    Responses.extractSseEvent buffer = (blankLines.framer.map Prod.fst).next buffer := by
  induction buffer with
  | nil => rfl
  | cons b rest ih =>
    have hstart := startsAt_blank (b :: rest)
    simp only [Framer.map, Separators.framer] at ih ⊢
    unfold Responses.extractSseEvent
    split_ifs at hstart ⊢ with hlf hcr
    · rw [splitAtFirst_here hstart]
      rfl
    · rw [splitAtFirst_here hstart]
      rfl
    · rw [splitAtFirst_later hstart, ih, Option.map_map, Option.map_map]
      rfl

theorem openAi_extract :
    OpenAi.extractSseEvent buffer = (blankLines.framer.map Prod.fst).next buffer := by
  induction buffer with
  | nil => rfl
  | cons b rest ih =>
    have hstart := startsAt_blank (b :: rest)
    simp only [Framer.map, Separators.framer, OpenAi.extractSseEvent] at ih ⊢
    unfold OpenAi.findSseSeparator
    split_ifs at hstart ⊢ with hlf hcr
    · rw [splitAtFirst_here hstart]
      rfl
    · rw [splitAtFirst_here hstart]
      rfl
    · have hmap := congrArg (Option.map fun found => (b :: found.1, found.2)) ih
      rw [Option.map_map, Option.map_map] at hmap
      rw [splitAtFirst_later hstart, Option.map_map, Option.map_map]
      refine Eq.trans ?_ hmap
      congr 1
      funext found
      simp [Nat.add_right_comm]

theorem anthropic_extract :
    Anthropic.extractSseEvent buffer = (lfBlankLines.framer.map Prod.fst).next buffer := by
  induction buffer with
  | nil => rfl
  | cons b rest ih =>
    have hstart := startsAt_lfBlank (b :: rest)
    simp only [Framer.map, Separators.framer] at ih ⊢
    unfold Anthropic.extractSseEvent
    split_ifs at hstart ⊢ with hlf
    · rw [splitAtFirst_here hstart]
      rfl
    · rw [splitAtFirst_later hstart, ih, Option.map_map, Option.map_map]
      rfl

/-- An extractor that agrees with a framer is one. -/
def framerOf (extract : List UInt8 → Option (List UInt8 × List UInt8))
    (F : Framer UInt8 (List UInt8)) (h : ∀ buffer, extract buffer = F.next buffer) :
    Framer UInt8 (List UInt8) where
  next := extract
  shrinks hs := F.shrinks (h _ ▸ hs)
  stable t hs := by
    rw [h] at hs ⊢
    exact F.stable t hs

def OpenAi.framer : Framer UInt8 (List UInt8) :=
  framerOf OpenAi.extractSseEvent (blankLines.framer.map Prod.fst) openAi_extract

def Responses.framer : Framer UInt8 (List UInt8) :=
  framerOf Responses.extractSseEvent (blankLines.framer.map Prod.fst) responses_extract

def Anthropic.framer : Framer UInt8 (List UInt8) :=
  framerOf Anthropic.extractSseEvent (lfBlankLines.framer.map Prod.fst) anthropic_extract

theorem framerOf_eq {extract : List UInt8 → Option (List UInt8 × List UInt8)}
    {F : Framer UInt8 (List UInt8)} (h : ∀ buffer, extract buffer = F.next buffer) :
    framerOf extract F h = F :=
  Framer.ext (funext h)

/-- The payloads of a stream that arrives in chunks. -/
def payloads (F : Framer UInt8 (List UInt8)) (chunks : List (List UInt8)) : List (List Char) :=
  (feed F.receive ([], []) chunks).1.filterMap sseDataFromEvent

/-- The payloads do not depend on where the stream is cut. -/
theorem payloads_eq (chunks : List (List UInt8)) :
    payloads F chunks = (F.drain chunks.flatten).1.filterMap sseDataFromEvent := by
  rw [payloads, F.feed_receive]

theorem payloads_cut (chunks : List (List UInt8)) :
    payloads F chunks = payloads F [chunks.flatten] := by
  rw [payloads_eq, payloads_eq, List.flatten_singleton]

end ColossalCode.Backend
