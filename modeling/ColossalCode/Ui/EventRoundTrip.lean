import ColossalCode.Ui.EventLines
import Mathlib.Data.List.DropRight

/-! Which events are read from their lines as they were, and which events share a line. -/
namespace ColossalCode.Ui
open List Option Text

open Escaping
open Text (startsWith)

variable {φ : Type} {floats : Floats φ} {head message : String} {part xs rest : List Char} {n : Nat}

theorem trimStartMatches_stop (h : ¬ part <+: xs) : trimStartMatches part n xs = xs := by
  cases n with
  | zero => rfl
  | succ n =>
    rw [trimStartMatches, if_neg]
    intro hyes
    exact h (List.isPrefixOf_iff_prefix.mp hyes)

theorem trimStartMatches_start :
    trimStartMatches part (n + 1) (part ++ xs) = trimStartMatches part n xs := by
  rw [trimStartMatches, if_pos, drop_left]
  exact isPrefixOf_iff_prefix.mpr (prefix_append part xs)

theorem payload_eq (hne : head ≠ "") (hmessage : message.toList = head.toList ++ (xs ++ [']'])) :
    ∃ n, xs.length ≤ n ∧ payload head message =
      (trimStartMatches head.toList n (xs ++ [']'])).rdropWhile (· == ']') := by
  have hhead : head.toList.length ≠ 0 := by
    intro hnil
    exact hne (String.toList_eq_nil_iff.mp (length_eq_zero_iff.mp hnil))
  have hlength := congrArg List.length hmessage
  simp only [length_append, length_cons, length_nil, String.length_toList] at hlength
  rw [String.length_toList] at hhead
  obtain ⟨n, hn⟩ : ∃ n, message.length = n + 1 := ⟨message.length - 1, by omega⟩
  refine ⟨n, by omega, ?_⟩
  rw [payload, hn, hmessage, trimStartMatches_start]
  rfl

theorem rdropWhile_free (h : ']' ∉ xs) : (xs ++ [']']).rdropWhile (· == ']') = xs := by
  rw [rdropWhile_concat_pos _ _ _ (by decide), rdropWhile_eq_self_iff]
  intro hne hlast
  have hmem := getLast_mem hne
  rw [eq_of_beq hlast] at hmem
  exact h hmem

theorem span_bar (h : '|' ∉ xs) (rest : List Char) :
    (xs ++ '|' :: rest).takeWhile (· != '|') = xs ∧
      (xs ++ '|' :: rest).dropWhile (· != '|') = '|' :: rest := by
  have hxs : ∀ c ∈ xs, (c != '|') = true := fun c hc =>
    bne_iff_ne.mpr (ne_of_mem_of_not_mem hc h)
  rw [takeWhile_append_of_pos hxs, dropWhile_append_of_pos hxs]
  exact ⟨append_nil xs, rfl⟩

theorem splitn_bar (h : '|' ∉ xs) (n : Nat) :
    splitn '|' (n + 2) (xs ++ '|' :: rest) = xs :: splitn '|' (n + 1) rest := by
  obtain ⟨htake, hdrop⟩ := span_bar h rest
  simp only [splitn, hdrop, htake]

/-- The start of a line, made of symbols that are not escaped. -/
structure Opening (part : List Char) : Prop where
  ne_nil : part ≠ []
  clear : (part.all fun c => c != '\\' && c != ']' && c != '|') = true

theorem Opening.bar (h : Opening part) : '|' ∉ part := by
  intro hmem
  exact absurd (all_eq_true.mp h.clear '|' hmem) (by decide)

theorem Opening.plain (h : Opening part) :
    ∀ c ∈ part, escapeSymbol '\\' fieldCodes c = [c] := by
  intro c hc
  have hclear := all_eq_true.mp h.clear c hc
  rw [Bool.and_eq_true, Bool.and_eq_true, bne_iff_ne, bne_iff_ne, bne_iff_ne] at hclear
  obtain ⟨⟨hmark, hbracket⟩, hbar⟩ := hclear
  apply escapeSymbol_plain hmark
  intro code hcode
  rcases mem_cons.mp hcode with rfl | hcode
  · exact Ne.symm hbracket
  · obtain rfl := mem_singleton.mp hcode
    exact Ne.symm hbar

theorem escape_opening (h : ∀ c ∈ part, escapeSymbol '\\' fieldCodes c = [c]) (xs : List Char) :
    escape '\\' fieldCodes (part ++ xs) = part ++ escape '\\' fieldCodes xs := by
  induction part with
  | nil => rfl
  | cons c part ih =>
    rw [cons_append, escape_cons, h c mem_cons_self,
      ih fun d hd => h d (mem_cons_of_mem c hd)]
    rfl

theorem prefix_of_escape (h : ∀ c ∈ part, escapeSymbol '\\' fieldCodes c = [c])
    (hstart : part <+: escape '\\' fieldCodes xs) : part <+: xs := by
  induction part generalizing xs with
  | nil => exact nil_prefix
  | cons c part ih =>
    cases xs with
    | nil => exact hstart
    | cons d xs =>
      have hc := h c mem_cons_self
      obtain ⟨later, hlater⟩ := hstart
      rw [escape_cons] at hlater
      have heq : escapeSymbol '\\' fieldCodes c ++ (part ++ later) =
          escapeSymbol '\\' fieldCodes d ++ escape '\\' fieldCodes xs := by
        rw [hc]
        exact hlater
      obtain rfl := escapeSymbol_prefix fieldCodes_readable heq
      have hpart : part <+: escape '\\' fieldCodes xs := ⟨later, append_cancel_left heq⟩
      have hrest := ih (fun e he => h e (mem_cons_of_mem c he)) hpart
      exact cons_prefix_cons.mpr ⟨rfl, hrest⟩

/-- A field that starts like the line itself loses its start. -/
theorem trimStart_field (h : Opening part) (n : Nat) (field rest : List Char) :
    ∃ later, trimStartMatches part n (escape '\\' fieldCodes field ++ '|' :: rest) =
        escape '\\' fieldCodes later ++ '|' :: rest ∧
      (¬ part <+: field → later = field) ∧
      (n ≠ 0 → part <+: field → later.length < field.length) ∧ later.length ≤ field.length := by
  induction n generalizing field with
  | zero => exact ⟨field, rfl, fun _ => rfl, fun hn => absurd rfl hn, Nat.le_refl _⟩
  | succ n ih =>
    by_cases hstart : part <+: field
    · obtain ⟨field, rfl⟩ := hstart
      obtain ⟨later, hlater, _, _, hle⟩ := ih field
      have hpart := length_pos_of_ne_nil h.ne_nil
      refine ⟨later, ?_, ?_, ?_, ?_⟩
      · rw [escape_opening h.plain, append_assoc, trimStartMatches_start, hlater]
      · intro hno
        exact absurd (prefix_append part field) hno
      · intro _ _
        rw [length_append]
        omega
      · rw [length_append]
        omega
    · refine ⟨field, trimStartMatches_stop ?_, fun _ => rfl, fun _ hyes => absurd hyes hstart,
        Nat.le_refl _⟩
      intro hyes
      exact hstart (prefix_of_escape h.plain (prefix_before h.bar hyes))

/-- The first field of a payload, and whether it reads as it was. -/
theorem payload_fields (h : Opening head.toList) (field : String) (hrest : ']' ∉ rest)
    (hmessage : message.toList =
      head.toList ++ ((escape '\\' fieldCodes field.toList ++ '|' :: rest) ++ [']'])) :
    ∃ later, payload head message = escape '\\' fieldCodes later ++ '|' :: rest ∧
      (unescapeField (String.ofList (escape '\\' fieldCodes later)) = field ↔
        Literal field ∧ startsWith field head = false) := by
  have hne : head ≠ "" := by
    rintro rfl
    exact h.ne_nil rfl
  obtain ⟨n, hn, hpayload⟩ := payload_eq hne hmessage
  have hzero : n ≠ 0 := by
    rw [length_append, length_cons] at hn
    omega
  obtain ⟨later, hlater, hsame, hshort, _⟩ :=
    trimStart_field h n field.toList (rest ++ [']'])
  refine ⟨later, ?_, ?_⟩
  · have hfree : ']' ∉ escape '\\' fieldCodes later ++ '|' :: rest := by
      intro hmem
      rcases mem_append.mp hmem with hmem | hmem
      · exact (field_plain later).2 hmem
      · rcases mem_cons.mp hmem with heq | hmem
        · exact absurd heq (by decide)
        · exact hrest hmem
    rw [hpayload, append_assoc, cons_append, hlater, ← cons_append,
      ← append_assoc, rdropWhile_free hfree]
  · rw [startsWith, Bool.eq_false_iff, ne_eq, isPrefixOf_iff_prefix]
    by_cases hstart : head.toList <+: field.toList
    · constructor
      · intro heq
        have hle := unescape_field_length later
        have hlt := hshort hzero hstart
        rw [heq, ← String.length_toList] at hle
        omega
      · intro hno
        exact absurd hstart hno.2
    · rw [hsame hstart, ← escapeField_eq, String.ofList_toList, unescape_field_iff]
      exact (and_iff_left hstart).symm

theorem opening_started : Opening "[TOOL_CALL_STARTED:".toList :=
  ⟨cons_ne_nil _ _, rfl⟩

theorem opening_completed : Opening "[TOOL_CALL_COMPLETED:".toList :=
  ⟨cons_ne_nil _ _, rfl⟩

theorem toList_bar : "|".toList = ['|'] := rfl

theorem toList_bracket : "]".toList = [']'] := rfl

theorem read_field (field : String) :
    unescapeField (String.ofList (escape '\\' fieldCodes field.toList)) = field ↔ Literal field := by
  rw [← escapeField_eq, String.ofList_toList, unescape_field_iff]

theorem toList_two (head first second : String) :
    (head ++ escapeField first ++ "|" ++ escapeField second ++ "]").toList =
      head.toList ++ ((escape '\\' fieldCodes first.toList ++
        '|' :: escape '\\' fieldCodes second.toList) ++ [']']) := by
  simp only [String.toList_append, escapeField_eq, toList_bar, toList_bracket, append_assoc,
    cons_append, nil_append]

theorem toList_four (head first second third fourth : String) :
    (head ++ escapeField first ++ "|" ++ escapeField second ++ "|" ++ escapeField third ++ "|" ++
      escapeField fourth ++ "]").toList =
      head.toList ++ ((escape '\\' fieldCodes first.toList ++
        '|' :: (escape '\\' fieldCodes second.toList ++
          '|' :: (escape '\\' fieldCodes third.toList ++
            '|' :: escape '\\' fieldCodes fourth.toList))) ++ [']']) := by
  simp only [String.toList_append, escapeField_eq, toList_bar, toList_bracket, append_assoc,
    cons_append, nil_append]

theorem parse_started_iff (toolName args : String) :
    parseToolCallStarted (toolCallStarted toolName args) = some (toolName, args) ↔
      Literal toolName ∧ Literal args ∧ startsWith toolName "[TOOL_CALL_STARTED:" = false := by
  have hmessage : (toolCallStarted toolName args).toList =
      "[TOOL_CALL_STARTED:".toList ++ ((escape '\\' fieldCodes toolName.toList ++
        '|' :: escape '\\' fieldCodes args.toList) ++ [']']) :=
    toList_two "[TOOL_CALL_STARTED:" toolName args
  obtain ⟨later, hpayload, hfirst⟩ := payload_fields opening_started toolName
    (field_plain args.toList).2 hmessage
  have hstart : startsWith (toolCallStarted toolName args) "[TOOL_CALL_STARTED:" = true := by
    rw [startsWith, hmessage, isPrefixOf_iff_prefix]
    exact prefix_append _ _
  obtain ⟨htake, hdrop⟩ := span_bar (field_plain later).1
    (escape '\\' fieldCodes args.toList)
  have hparse : parseToolCallStarted (toolCallStarted toolName args) =
      some (unescapeField (String.ofList (escape '\\' fieldCodes later)),
        unescapeField (String.ofList (escape '\\' fieldCodes args.toList))) := by
    have hpart := hpayload
    unfold payload at hpart
    simp only [parseToolCallStarted, hstart, if_true, hpart, hdrop, htake]
  rw [hparse, some_inj, Prod.mk.injEq, hfirst, read_field, and_assoc,
    and_comm (b := Literal args)]

theorem parse_completed_iff (toolName args result : String) (rawArguments : Option String) :
    parseToolCallCompleted (toolCallCompleted toolName args result (rawArguments.getD "")) =
        some (.completed toolName args result rawArguments) ↔
      Literal toolName ∧ Literal args ∧ Literal result ∧
        startsWith toolName "[TOOL_CALL_COMPLETED:" = false ∧ ∃ raw ∈ rawArguments, Literal raw := by
  have hfree : ']' ∉ escape '\\' fieldCodes args.toList ++ '|' ::
      (escape '\\' fieldCodes result.toList ++
        '|' :: escape '\\' fieldCodes (rawArguments.getD "").toList) := by
    simp [(field_plain _).2]
  obtain ⟨later, hpayload, hfirst⟩ := payload_fields opening_completed toolName hfree
    (toList_four "[TOOL_CALL_COMPLETED:" toolName args result (rawArguments.getD ""))
  have hparts : splitn '|' 4 (payload "[TOOL_CALL_COMPLETED:"
      (toolCallCompleted toolName args result (rawArguments.getD ""))) =
      [escape '\\' fieldCodes later, escape '\\' fieldCodes args.toList,
        escape '\\' fieldCodes result.toList,
        escape '\\' fieldCodes (rawArguments.getD "").toList] := by
    have hpart : payload "[TOOL_CALL_COMPLETED:"
        (toolCallCompleted toolName args result (rawArguments.getD "")) = _ := hpayload
    rw [hpart, splitn_bar (field_plain later).1, splitn_bar (field_plain _).1,
      splitn_bar (field_plain _).1]
    rfl
  have hparse : parseToolCallCompleted
      (toolCallCompleted toolName args result (rawArguments.getD "")) =
      some (.completed (unescapeField (String.ofList (escape '\\' fieldCodes later)))
        (unescapeField (String.ofList (escape '\\' fieldCodes args.toList)))
        (unescapeField (String.ofList (escape '\\' fieldCodes result.toList)))
        (some (unescapeField
          (String.ofList (escape '\\' fieldCodes (rawArguments.getD "").toList))))) := by
    unfold payload at hparts
    simp only [parseToolCallCompleted, hparts, map_cons, map_nil, List.head?_cons]
  rw [hparse, some_inj, ToolRow.completed.injEq, hfirst, read_field, read_field]
  have hraw : some (unescapeField
      (String.ofList (escape '\\' fieldCodes (rawArguments.getD "").toList))) = rawArguments ↔
      ∃ raw ∈ rawArguments, Literal raw := by
    cases rawArguments with
    | none => simp
    | some raw =>
      rw [some_inj, getD_some, read_field]
      simp
  rw [hraw]
  constructor
  · rintro ⟨⟨htool, hstart⟩, hargs, hresult, hraw⟩
    exact ⟨htool, hargs, hresult, hstart, hraw⟩
  · rintro ⟨htool, hargs, hresult, hstart, hraw⟩
    exact ⟨⟨htool, hstart⟩, hargs, hresult, hraw⟩

theorem bar_repr (n : Nat) : '|' ∉ (toString n).toList := by
  rw [Nat.toString_eq_repr, Nat.toList_repr]
  intro hmem
  exact absurd (Nat.isDigit_of_mem_toDigits (by decide) (by decide) hmem) (by decide)

theorem parseTokens_toString (n : UInt64) : parseTokens (toString n.toNat).toList = some n := by
  rw [parseTokens, String.ofList_toList, ToolsBinary.parseUsize_toString n.toNat_lt, map_some,
    UInt64.ofNat_toNat]

theorem toList_stats (head tps comp prompt ttft reason : String) :
    (head ++ tps ++ "|" ++ comp ++ "|" ++ prompt ++ "|" ++ ttft ++ "|" ++ escapeField reason ++
      "]").toList =
      head.toList ++ ((tps.toList ++ '|' :: (comp.toList ++ '|' :: (prompt.toList ++
        '|' :: (ttft.toList ++ '|' :: escape '\\' fieldCodes reason.toList)))) ++ [']']) := by
  simp only [String.toList_append, escapeField_eq, toList_bar, toList_bracket, append_assoc,
    cons_append, nil_append]

theorem rdropWhile_field (xs : List Char) (hrest : ']' ∉ rest) :
    (xs ++ '|' :: rest ++ [']']).rdropWhile (· == ']') = xs ++ '|' :: rest := by
  rw [rdropWhile_concat_pos _ _ _ (by decide), rdropWhile_eq_self_iff]
  intro hne hlast
  rw [getLast_append_of_ne_nil _ (cons_ne_nil _ _)] at hlast
  have hmem := getLast_mem (cons_ne_nil '|' rest)
  rw [eq_of_beq hlast] at hmem
  rcases mem_cons.mp hmem with heq | hmem
  · exact absurd heq (by decide)
  · exact hrest hmem

theorem parse_stats (hfloats : floats.Lawful) (tps ttft : φ) (comp prompt : UInt64)
    (reason : String) :
    ∃ x y, parseGenerationStats floats (printGenerationStats floats tps comp prompt ttft reason) =
      some (.generationStats x comp prompt y (unescapeField (escapeField reason))) := by
  obtain ⟨n, _, hpayload⟩ := payload_eq (by decide) (toList_stats "[GEN_STATS:" (floats.print tps)
    (toString comp.toNat) (toString prompt.toNat) (floats.print ttft) reason)
  have hstop : ¬ "[GEN_STATS:".toList <+: ((floats.print tps).toList ++ '|' ::
      ((toString comp.toNat).toList ++ '|' :: ((toString prompt.toNat).toList ++
        '|' :: ((floats.print ttft).toList ++ '|' :: escape '\\' fieldCodes reason.toList)))) ++
      [']'] := by
    intro hstart
    rw [append_assoc, cons_append] at hstart
    have hprint := prefix_before (by decide) hstart
    exact hfloats.bracket tps (hprint.subset mem_cons_self)
  have hparts : splitn '|' 5 (payload "[GEN_STATS:"
      (printGenerationStats floats tps comp prompt ttft reason)) =
      [(floats.print tps).toList, (toString comp.toNat).toList, (toString prompt.toNat).toList,
        (floats.print ttft).toList, escape '\\' fieldCodes reason.toList] := by
    have hlast : (floats.print tps).toList ++ '|' :: ((toString comp.toNat).toList ++
        '|' :: ((toString prompt.toNat).toList ++ '|' :: ((floats.print ttft).toList ++
          '|' :: escape '\\' fieldCodes reason.toList))) =
        ((floats.print tps).toList ++ '|' :: ((toString comp.toNat).toList ++
          '|' :: ((toString prompt.toNat).toList ++ '|' :: (floats.print ttft).toList))) ++
          '|' :: escape '\\' fieldCodes reason.toList := by
      simp only [append_assoc, cons_append]
    have hpart : payload "[GEN_STATS:"
        (printGenerationStats floats tps comp prompt ttft reason) = _ := hpayload
    rw [hpart, trimStartMatches_stop hstop, hlast, rdropWhile_field _ (field_plain _).2, ← hlast,
      splitn_bar (hfloats.bar tps), splitn_bar (bar_repr _), splitn_bar (bar_repr _),
      splitn_bar (hfloats.bar ttft)]
    rfl
  obtain ⟨x, hx⟩ := isSome_iff_exists.mp (hfloats.read tps)
  obtain ⟨y, hy⟩ := isSome_iff_exists.mp (hfloats.read ttft)
  refine ⟨x, y, ?_⟩
  rw [parseGenerationStats, hparts]
  simp only [String.ofList_toList, hx, hy, parseTokens_toString, ← escapeField_eq]
  rfl

theorem rdropWhile_cons {c : Char} (hc : c ≠ ']') (xs : List Char) :
    (c :: xs).rdropWhile (· == ']') = c :: xs.rdropWhile (· == ']') := by
  induction xs using List.reverseRecOn with
  | nil => simp [List.rdropWhile, hc]
  | append_singleton xs d ih =>
    rw [← cons_append, rdropWhile_concat, rdropWhile_concat, ih]
    split <;> rfl

theorem trim_space (xs : List Char) :
    trim (String.ofList (' ' :: xs)) = trim (String.ofList xs) := by
  have hspace : isWhitespace ' ' = true := by decide
  simp only [trim, trimStart, String.toList_ofList, dropWhile_cons, hspace, if_true]

theorem trim_length (text : String) : (trim text).length ≤ text.length := by
  have hstart := (dropWhile_sublist isWhitespace (l := text.toList)).length_le
  have hend := (dropWhile_sublist isWhitespace
    (l := (text.toList.dropWhile isWhitespace).reverse)).length_le
  simp only [trim, trimEnd, trimStart, String.length_ofList, String.toList_ofList,
    length_reverse] at hend ⊢
  rw [← String.length_toList]
  omega

theorem parse_command_iff (content : String) :
    trim (String.ofList (payload "[COMMAND:" (commandEvent content))) = content ↔
      trim content = content ∧ content.toList.getLast? ≠ some ']' := by
  have hmessage : (commandEvent content).toList =
      "[COMMAND:".toList ++ ((' ' :: content.toList) ++ [']']) := by
    rw [commandEvent, String.toList_append, String.toList_append, append_assoc]
    rfl
  obtain ⟨n, _, hpayload⟩ := payload_eq (by decide) hmessage
  have hstop : ¬ "[COMMAND:".toList <+: (' ' :: content.toList) ++ [']'] := by
    intro hstart
    exact absurd (cons_prefix_cons.mp hstart).1 (by decide)
  have hbracket : (' ' :: content.toList ++ [']']).rdropWhile (· == ']') =
      ' ' :: content.toList.rdropWhile (· == ']') := by
    rw [rdropWhile_concat_pos _ _ _ (by decide), rdropWhile_cons (by decide)]
  rw [hpayload, trimStartMatches_stop hstop, hbracket, trim_space]
  have hprefix := rdropWhile_prefix (· == ']') content.toList
  constructor
  · intro heq
    have hshort := trim_length (String.ofList (content.toList.rdropWhile (· == ']')))
    rw [heq, String.length_ofList, ← String.length_toList] at hshort
    have hsame := hprefix.eq_of_length_le hshort
    rw [hsame, String.ofList_toList] at heq
    refine ⟨heq, ?_⟩
    intro hlast
    have hne : content.toList ≠ [] := by
      rintro hnil
      rw [hnil] at hlast
      cases hlast
    have hbeq := rdropWhile_eq_self_iff.mp hsame hne
    rw [List.getLast?_eq_some_getLast hne, some_inj] at hlast
    exact hbeq (beq_iff_eq.mpr hlast)
  · rintro ⟨htrim, hlast⟩
    have hsame : content.toList.rdropWhile (· == ']') = content.toList := by
      rw [rdropWhile_eq_self_iff]
      intro hne hbeq
      rw [List.getLast?_eq_some_getLast hne] at hlast
      exact hlast (congrArg some (eq_of_beq hbeq))
    rw [hsame, String.ofList_toList, htrim]

namespace UiMessageEvent

/-- No text of the event is taken for something else when its line is read. -/
def Plain : UiMessageEvent φ → Prop
  | thinkingAnimation => True
  | command content => trim content = content ∧ content.toList.getLast? ≠ some ']'
  | generationStats _ _ _ _ stopReason => Literal stopReason
  | toolCallStarted toolName args =>
    Literal toolName ∧ Literal args ∧ startsWith toolName "[TOOL_CALL_STARTED:" = false
  | toolCallCompleted toolName args result rawArguments =>
    Literal toolName ∧ Literal args ∧ Literal result ∧
      startsWith toolName "[TOOL_CALL_COMPLETED:" = false ∧ ∃ raw ∈ rawArguments, Literal raw

/-- Raw arguments that are missing are taken for empty ones. -/
def withArguments : UiMessageEvent φ → UiMessageEvent φ
  | toolCallCompleted toolName args result rawArguments =>
    toolCallCompleted toolName args result (some (rawArguments.getD ""))
  | event => event

def opening : UiMessageEvent φ → String
  | thinkingAnimation => Ui.thinkingAnimation
  | command _ => "[COMMAND:"
  | generationStats .. => "[GEN_STATS:"
  | toolCallStarted .. => "[TOOL_CALL_STARTED:"
  | toolCallCompleted .. => "[TOOL_CALL_COMPLETED:"

def RoundTrips (floats : Floats φ) (event : UiMessageEvent φ) : Prop :=
  (parse floats (event.toMessage floats)).map withoutFloats = some event.withoutFloats

end UiMessageEvent

theorem startsWith_opening (floats : Floats φ) (event : UiMessageEvent φ) :
    startsWith (event.toMessage floats) event.opening = true := by
  cases event with
  | thinkingAnimation => exact startsWith_self _
  | command content =>
    iterate 2 apply startsWith_append
    exact (by decide : startsWith "[COMMAND: " "[COMMAND:" = true)
  | generationStats tps comp prompt ttft reason =>
    iterate 10 apply startsWith_append
    exact startsWith_self _
  | toolCallStarted toolName args =>
    iterate 4 apply startsWith_append
    exact startsWith_self _
  | toolCallCompleted toolName args result rawArguments =>
    iterate 8 apply startsWith_append
    exact startsWith_self _

theorem not_startsWith_other {start : String} (other : String)
    (h : startsWith message start = true) (hother : startsWith start other = false)
    (hstart : startsWith other start = false) : startsWith message other = false := by
  rw [Bool.eq_false_iff]
  intro hboth
  rw [startsWith, Bool.eq_false_iff, ne_eq, isPrefixOf_iff_prefix] at hother hstart
  rcases prefix_or_prefix_of_prefix (List.isPrefixOf_iff_prefix.mp h)
    (List.isPrefixOf_iff_prefix.mp hboth) with hp | hp
  · exact hstart hp
  · exact hother hp

theorem not_thinking {start : String} (h : startsWith message start = true)
    (hstart : startsWith thinkingAnimation start = false) : message ≠ thinkingAnimation := by
  rintro rfl
  rw [h] at hstart
  exact Bool.noConfusion hstart

theorem parse_command (h : startsWith message "[COMMAND:" = true) :
    UiMessageEvent.parse floats message =
      some (.command (trim (String.ofList (payload "[COMMAND:" message)))) := by
  rw [UiMessageEvent.parse, if_neg (not_thinking h (by decide)), if_pos h]

theorem parse_generationStats (h : startsWith message "[GEN_STATS:" = true) :
    UiMessageEvent.parse floats message = parseGenerationStats floats message := by
  have hcommand := not_startsWith_other "[COMMAND:" h (by decide) (by decide)
  rw [UiMessageEvent.parse, if_neg (not_thinking h (by decide)), hcommand, if_pos h]
  rfl

theorem parse_tool {start : String} (h : startsWith message start = true)
    (hthinking : startsWith thinkingAnimation start = false)
    (hcommand : startsWith start "[COMMAND:" = false ∧ startsWith "[COMMAND:" start = false)
    (hstats : startsWith start "[GEN_STATS:" = false ∧ startsWith "[GEN_STATS:" start = false) :
    UiMessageEvent.parse floats message = (readToolCall message).map ToolRow.event := by
  rw [UiMessageEvent.parse, if_neg (not_thinking h hthinking),
    not_startsWith_other _ h hcommand.1 hcommand.2, not_startsWith_other _ h hstats.1 hstats.2]
  rfl

namespace UiMessageEvent

theorem read_row_iff (row : ToolRow) :
    ((readToolCall message).map
      (ToolRow.event : ToolRow → UiMessageEvent φ)).map withoutFloats = some row.event ↔
      readToolCall message = some row := by
  have hinj : ∀ other : ToolRow,
      withoutFloats (other.event : UiMessageEvent φ) = row.event ↔ other = row := by
    intro other
    cases other <;> cases row <;> simp [ToolRow.event, withoutFloats]
  cases readToolCall message with
  | none => simp
  | some other =>
    rw [map_some, map_some, some_inj, some_inj]
    exact hinj other

theorem roundTrips_iff (hfloats : floats.Lawful) (event : UiMessageEvent φ) :
    event.RoundTrips floats ↔ event.Plain := by
  have hstart := startsWith_opening floats event
  unfold RoundTrips
  cases event with
  | thinkingAnimation => exact iff_of_true rfl trivial
  | command content =>
    rw [parse_command hstart, map_some, some_inj]
    have hcontent := parse_command_iff content
    rw [Plain, ← hcontent]
    exact command.injEq _ _ ▸ Iff.rfl
  | generationStats tps comp prompt ttft reason =>
    obtain ⟨x, y, hread⟩ := parse_stats hfloats tps ttft comp prompt reason
    have hread : parseGenerationStats floats
      ((generationStats tps comp prompt ttft reason).toMessage floats) = _ := hread
    rw [parse_generationStats hstart, hread, map_some, some_inj, Plain,
      ← unescape_field_iff]
    simp only [withoutFloats, generationStats.injEq, true_and]
  | toolCallStarted toolName args =>
    have hline : startsWith (Ui.toolCallStarted toolName args) "[TOOL_CALL_STARTED:" = true := hstart
    change ((parse floats (Ui.toolCallStarted toolName args)).map withoutFloats =
      some (ToolRow.started toolName args).event) ↔ _
    rw [parse_tool hline (by decide) (by decide) (by decide), read_row_iff, readToolCall_started,
      parse_started_iff]
    rfl
  | toolCallCompleted toolName args result rawArguments =>
    have hline : startsWith (Ui.toolCallCompleted toolName args result (rawArguments.getD ""))
      "[TOOL_CALL_COMPLETED:" = true := hstart
    change ((parse floats (Ui.toolCallCompleted toolName args result
      (rawArguments.getD ""))).map withoutFloats =
        some (ToolRow.completed toolName args result rawArguments).event) ↔ _
    rw [parse_tool hline (by decide) (by decide) (by decide), read_row_iff, readToolCall,
      if_pos hline, parse_completed_iff]
    rfl

theorem bar_cancel {ys more : List Char} (hxs : '|' ∉ xs) (hys : '|' ∉ ys)
    (h : xs ++ '|' :: rest = ys ++ '|' :: more) : xs = ys ∧ rest = more := by
  obtain ⟨hxtake, hxdrop⟩ := span_bar hxs rest
  obtain ⟨hytake, hydrop⟩ := span_bar hys more
  rw [h] at hxtake hxdrop
  exact ⟨hxtake.symm.trans hytake, (List.cons.inj (hxdrop.symm.trans hydrop)).2⟩

theorem escape_toList_inj {value other : String}
    (h : escape '\\' fieldCodes value.toList = escape '\\' fieldCodes other.toList) :
    value = other := String.toList_inj.mp (escape_injective fieldCodes_readable h)

theorem toString_injective {m n : UInt64}
    (h : (toString m.toNat).toList = (toString n.toNat).toList) : m = n := by
  have hm := parseTokens_toString m
  rw [h, parseTokens_toString n] at hm
  exact (Option.some.inj hm).symm

variable {event other : UiMessageEvent φ}

theorem opening_eq
    (h : event.toMessage floats = other.toMessage floats) : event.opening = other.opening := by
  have hevent := startsWith_opening floats event
  have hother := startsWith_opening floats other
  rw [h] at hevent
  by_contra hne
  have hapart : startsWith event.opening other.opening = false ∧
      startsWith other.opening event.opening = false := by
    revert hne
    cases event <;> cases other <;> simp only [opening] <;> decide
  have hboth := not_startsWith_other other.opening hevent hapart.1 hapart.2
  rw [hother] at hboth
  exact Bool.noConfusion hboth

theorem command_inj {content content' : String} (h : commandEvent content = commandEvent content') :
    content = content' := by
  have hlist := congrArg String.toList h
  rw [commandEvent, commandEvent, String.toList_append, String.toList_append, String.toList_append,
    String.toList_append] at hlist
  exact String.toList_inj.mp (append_cancel_left (append_cancel_right hlist))

theorem stats_inj (hfloats : floats.Lawful) {tps tps' ttft ttft' : φ}
    {comp comp' prompt prompt' : UInt64} {reason reason' : String}
    (h : printGenerationStats floats tps comp prompt ttft reason =
      printGenerationStats floats tps' comp' prompt' ttft' reason') :
    comp = comp' ∧ prompt = prompt' ∧ reason = reason' := by
  have hlist := (toList_stats "[GEN_STATS:" _ _ _ _ reason).symm.trans
    ((congrArg String.toList h).trans (toList_stats "[GEN_STATS:" _ _ _ _ reason'))
  have hfields := append_cancel_right (append_cancel_left hlist)
  obtain ⟨_, hfields⟩ := bar_cancel (hfloats.bar _) (hfloats.bar _) hfields
  obtain ⟨hcomp, hfields⟩ := bar_cancel (bar_repr _) (bar_repr _) hfields
  obtain ⟨hprompt, hfields⟩ := bar_cancel (bar_repr _) (bar_repr _) hfields
  obtain ⟨_, hreason⟩ := bar_cancel (hfloats.bar _) (hfloats.bar _) hfields
  exact ⟨toString_injective hcomp, toString_injective hprompt, escape_toList_inj hreason⟩

theorem started_inj {toolName toolName' args args' : String}
    (h : Ui.toolCallStarted toolName args = Ui.toolCallStarted toolName' args') :
    toolName = toolName' ∧ args = args' := by
  have hlist := (toList_two "[TOOL_CALL_STARTED:" toolName args).symm.trans
    ((congrArg String.toList h).trans (toList_two "[TOOL_CALL_STARTED:" toolName' args'))
  have hfields := append_cancel_right (append_cancel_left hlist)
  obtain ⟨htool, hargs⟩ := bar_cancel (field_plain _).1 (field_plain _).1 hfields
  exact ⟨escape_toList_inj htool, escape_toList_inj hargs⟩

theorem completed_inj {toolName toolName' args args' result result' raw raw' : String}
    (h : Ui.toolCallCompleted toolName args result raw =
      Ui.toolCallCompleted toolName' args' result' raw') :
    toolName = toolName' ∧ args = args' ∧ result = result' ∧ raw = raw' := by
  have hlist := (toList_four "[TOOL_CALL_COMPLETED:" toolName args result raw).symm.trans
    ((congrArg String.toList h).trans
      (toList_four "[TOOL_CALL_COMPLETED:" toolName' args' result' raw'))
  have hfields := append_cancel_right (append_cancel_left hlist)
  obtain ⟨htool, hfields⟩ := bar_cancel (field_plain _).1 (field_plain _).1 hfields
  obtain ⟨hargs, hfields⟩ := bar_cancel (field_plain _).1 (field_plain _).1 hfields
  obtain ⟨hresult, hraw⟩ := bar_cancel (field_plain _).1 (field_plain _).1 hfields
  exact ⟨escape_toList_inj htool, escape_toList_inj hargs, escape_toList_inj hresult,
    escape_toList_inj hraw⟩

/-- Events of one line differ in floats and in whether arguments are missing, and in no more. -/
theorem withArguments_of_toMessage (hfloats : floats.Lawful)
    (h : event.toMessage floats = other.toMessage floats) :
    event.withoutFloats.withArguments = other.withoutFloats.withArguments := by
  have hopening := opening_eq h
  cases event <;> cases other <;> try (simp [opening, Ui.thinkingAnimation] at hopening)
  case thinkingAnimation.thinkingAnimation => rfl
  case command.command content content' => rw [command_inj h]
  case generationStats.generationStats tps comp prompt ttft reason tps' comp' prompt' ttft' reason' =>
    obtain ⟨hcomp, hprompt, hreason⟩ := stats_inj hfloats h
    rw [hcomp, hprompt, hreason]
    rfl
  case toolCallStarted.toolCallStarted toolName args toolName' args' =>
    obtain ⟨htool, hargs⟩ := started_inj h
    rw [htool, hargs]
  case toolCallCompleted.toolCallCompleted toolName args result raw toolName' args' result' raw' =>
    obtain ⟨htool, hargs, hresult, hraw⟩ := completed_inj h
    simp only [withoutFloats, withArguments]
    rw [htool, hargs, hresult, hraw]

theorem completed_of_withArguments {event other : UiMessageEvent Unit} (hne : event ≠ other)
    (h : event.withArguments = other.withArguments) :
    ∃ toolName args result raw raw', event = .toolCallCompleted toolName args result raw ∧
      other = .toolCallCompleted toolName args result raw' ∧ raw.getD "" = raw'.getD "" := by
  cases event with
  | toolCallCompleted toolName args result raw =>
    cases other with
    | toolCallCompleted toolName' args' result' raw' =>
      simp only [withArguments, toolCallCompleted.injEq, some_inj] at h
      obtain ⟨rfl, rfl, rfl, hraw⟩ := h
      exact ⟨_, _, _, raw, raw', rfl, rfl, hraw⟩
    | _ => cases h
  | _ =>
    cases other with
    | toolCallCompleted toolName args result raw => cases h
    | _ => exact absurd h hne

theorem completed_of_withoutFloats {toolName args result : String}
    {raw : Option String} (h : event.withoutFloats = .toolCallCompleted toolName args result raw) :
    event = .toolCallCompleted toolName args result raw := by
  cases event with
  | toolCallCompleted toolName args result raw =>
    simp only [withoutFloats, toolCallCompleted.injEq] at h ⊢
    exact h
  | _ => cases h

theorem toMessage_ne_iff (hfloats : floats.Lawful)
    (hne : event.withoutFloats ≠ other.withoutFloats) :
    event.toMessage floats ≠ other.toMessage floats ↔
      event.withoutFloats.withArguments ≠ other.withoutFloats.withArguments := by
  refine not_congr ⟨withArguments_of_toMessage hfloats, ?_⟩
  intro heq
  obtain ⟨toolName, args, result, raw, raw', hevent, hother, hraw⟩ :=
    completed_of_withArguments hne heq
  rw [completed_of_withoutFloats hevent, completed_of_withoutFloats hother, toMessage, toMessage,
    hraw]

end UiMessageEvent

/-- An event is read from its line as it was, floats aside, exactly when no text of it is taken for
something else; two events share a line exactly when arguments that are missing in one are empty
in the other. -/
theorem event_lines_round_trip (hfloats : floats.Lawful) :
    (∀ event : UiMessageEvent φ, event.RoundTrips floats ↔ event.Plain) ∧
    ∀ event other : UiMessageEvent φ, event.withoutFloats ≠ other.withoutFloats →
      (event.toMessage floats ≠ other.toMessage floats ↔
        event.withoutFloats.withArguments ≠ other.withoutFloats.withArguments) :=
  ⟨UiMessageEvent.roundTrips_iff hfloats,
    fun _ _ hne => UiMessageEvent.toMessage_ne_iff hfloats hne⟩

/-- Two numbers that six decimals are enough for. -/
inductive Sample where
  | threeQuarters
  | twoAndAHalf

def sampleFloats : Floats Sample where
  print
    | .threeQuarters => "0.750000"
    | .twoAndAHalf => "2.500000"
  parse text :=
    if text = "0.750000" then some .threeQuarters
    else if text = "2.500000" then some .twoAndAHalf
    else none

theorem sampleFloats_lawful : sampleFloats.Lawful where
  bar x := by cases x <;> decide
  bracket x := by cases x <;> decide
  read x := by cases x <;> decide

theorem event_lines_round_trip_bash :
    UiMessageEvent.RoundTrips sampleFloats (.toolCallStarted "bash|runner]" "a\\c") ∧
    UiMessageEvent.toMessage sampleFloats (.toolCallStarted "bash" "ls") ≠
      UiMessageEvent.toMessage sampleFloats (.toolCallStarted "bash" "cd") := by
  obtain ⟨hround, hlines⟩ := event_lines_round_trip sampleFloats_lawful
  refine ⟨(hround _).mpr ⟨by unfold Literal; decide, by unfold Literal; decide, by decide⟩, ?_⟩
  exact (hlines _ _ (by decide)).mpr (by decide)

theorem event_lines_lossy :
    ¬ ((∀ event : UiMessageEvent Sample, event.RoundTrips sampleFloats) ∧
      ∀ event other : UiMessageEvent Sample, event.withoutFloats ≠ other.withoutFloats →
        event.toMessage sampleFloats ≠ other.toMessage sampleFloats) := by
  rintro ⟨hround, -⟩
  have hcommand := hround (.command "ls [a]")
  revert hcommand
  unfold UiMessageEvent.RoundTrips
  decide

end ColossalCode.Ui
