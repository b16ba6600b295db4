import ColossalCode.Pty.Lines
import ColossalCode.Ui.EventLines
import ColossalCode.Ui.Keys
import Mathlib.Data.List.Chain

/-! The file of the input history: what is read from it after it was written. -/
namespace ColossalCode.Ui
open List Option Text

open Escaping

variable {history : List String} {last : Option String} {Stats : Type*}

def encodeEntry (cmd : String) : String := replace (replace cmd "\\" "\\\\") "\n" "\\n"

def decodeEntry (line : List Char) : String :=
  replace (replace (String.ofList line) "\\n" "\n") "\\\\" "\\"

def saveHistory (commandHistory : List String) : String :=
  join "\n" (commandHistory.map encodeEntry)

def deduplicateFrom (lastEntry : Option String) : List String → List String
  | [] => []
  | entry :: history =>
    if some entry ≠ lastEntry then entry :: deduplicateFrom (some entry) history
    else deduplicateFrom lastEntry history

def deduplicateHistory (history : List String) : List String := deduplicateFrom none history

def loadHistory (contents : String) : List String :=
  deduplicateHistory ((lines contents.toList).map decodeEntry)

theorem deduplicateFrom_sublist (last : Option String) (history : List String) :
    (deduplicateFrom last history).Sublist history := by
  induction history generalizing last with
  | nil => exact List.Sublist.refl []
  | cons entry history ih =>
    rw [deduplicateFrom]
    split
    · exact (ih (some entry)).cons_cons entry
    · exact (ih last).cons entry

theorem deduplicateHistory_sublist (history : List String) :
    (deduplicateHistory history).Sublist history :=
  deduplicateFrom_sublist none history

theorem deduplicateFrom_apart (last : Option String) (history : List String) :
    (deduplicateFrom last history).IsChain (· ≠ ·) ∧
      ∀ entry ∈ (deduplicateFrom last history).head?, some entry ≠ last := by
  induction history generalizing last with
  | nil => exact ⟨.nil, fun _ h => nomatch h⟩
  | cons entry history ih =>
    rw [deduplicateFrom]
    split
    · rename_i hne
      obtain ⟨hchain, hhead⟩ := ih (some entry)
      refine ⟨isChain_cons.mpr ⟨?_, hchain⟩, ?_⟩
      · intro next hnext heq
        exact hhead next hnext (congrArg some heq.symm)
      · intro first hfirst
        rw [← Option.some.inj hfirst]
        exact hne
    · exact ih last

theorem deduplicateFrom_eq (h : history.IsChain (· ≠ ·))
    (hhead : ∀ entry ∈ history.head?, some entry ≠ last) :
    deduplicateFrom last history = history := by
  induction history generalizing last with
  | nil => rfl
  | cons entry history ih =>
    obtain ⟨hnext, hchain⟩ := isChain_cons.mp h
    rw [deduplicateFrom, if_pos (hhead entry rfl), ih hchain]
    intro next hmem heq
    exact hnext next hmem (Option.some.inj heq).symm

theorem deduplicateHistory_eq (h : history.IsChain (· ≠ ·)) :
    deduplicateHistory history = history :=
  deduplicateFrom_eq h fun _ _ => some_ne_none _

def newlineCode : Code Char := ⟨'\n', ['n']⟩

def entryCodes : List (Code Char) := [newlineCode]

theorem entryCodes_readable : Escaping.Readable '\\' entryCodes where
  body := by decide
  unmarked := by decide
  symbol_ne := by decide
  free := by decide
  apart := by decide
  unique := by decide

theorem encodeEntry_eq (cmd : String) :
    (encodeEntry cmd).toList = escape '\\' entryCodes cmd.toList := by
  simp only [encodeEntry, replace, String.toList_ofList, escape]
  change replaceChars ['\n'] _ 0 (replaceChars ['\\'] _ 0 _) = _
  rw [replaceChars_single, replaceChars_single, flatMap_assoc]
  congr 1
  funext c
  by_cases hmark : c = '\\'
  · subst hmark
    decide
  · by_cases hnewline : c = '\n'
    · subst hnewline
      decide
    · have hcodes : ∀ code ∈ entryCodes, code.symbol ≠ c := by
        intro code hcode
        obtain rfl := mem_singleton.mp hcode
        exact Ne.symm hnewline
      rw [escapeSymbol_plain hmark hcodes, if_neg hmark, flatMap_singleton, if_neg hnewline]

theorem decodeEntry_eq (line : List Char) :
    (decodeEntry line).toList =
      unescape (fun part new text => replaceChars part new 0 text) '\\' entryCodes line := by
  simp only [decodeEntry, replace, String.toList_ofList]
  rfl

/-- No newline is read into the entry. -/
def Unbroken (entry : String) : Prop := ¬ ['\\', 'n'] <:+: entry.toList

theorem decode_entry_iff (entry : String) :
    decodeEntry (encodeEntry entry).toList = entry ↔ Unbroken entry := by
  have hround : _ ↔ ∀ code ∈ entryCodes, ¬ code.text '\\' <:+: entry.toList :=
    unescape_escape_iff replaceChars_replaces entryCodes_readable (by decide) entry.toList
  rw [← encodeEntry_eq, ← decodeEntry_eq, String.toList_inj] at hround
  rw [hround]
  exact forall_mem_singleton

theorem decode_entry_length (text : List Char) :
    (decodeEntry (escape '\\' entryCodes text)).length ≤ text.length := by
  rw [← String.length_toList, decodeEntry_eq]
  exact unescape_escape_length replaceChars_replaces entryCodes_readable (by decide) text

theorem encodeEntry_newline (entry : String) : '\n' ∉ (encodeEntry entry).toList := by
  rw [encodeEntry_eq]
  intro hmem
  obtain ⟨c, _, hc⟩ := mem_flatMap.mp hmem
  rcases escapeSymbol_cases '\\' entryCodes c with ⟨_, hsymbol⟩ | ⟨_, hcodes, hsymbol⟩ |
    ⟨code, hcode, _, _, hsymbol⟩
  · rw [hsymbol] at hc
    exact absurd hc (by decide)
  · rw [hsymbol] at hc
    exact hcodes newlineCode (by decide) (mem_singleton.mp hc)
  · obtain rfl := mem_singleton.mp hcode
    rw [hsymbol] at hc
    exact absurd hc (by decide)

variable {entry : String} {a : App Stats}

theorem encodeEntry_eq_nil (h : (encodeEntry entry).toList = []) : entry = "" := by
  rw [encodeEntry_eq] at h
  have hempty : escape '\\' entryCodes entry.toList = escape '\\' entryCodes [] := h
  exact String.toList_eq_nil_iff.mp (escape_injective entryCodes_readable hempty)

theorem lines_cons {line : List Char} (h : '\n' ∉ line) (rest : List Char) :
    lines (line ++ '\n' :: rest) = stripCr line :: lines rest := by
  rw [lines, linesFrom_append, linesFrom_line h]
  rfl

/-- Every entry but the last has its line end stripped; an empty last line is none. -/
theorem lines_saveHistory (front : List String) (final : String) :
    lines (saveHistory (front ++ [final])).toList =
      front.map (fun entry => stripCr (encodeEntry entry).toList) ++
        if final = "" then [] else [(encodeEntry final).toList] := by
  induction front with
  | nil =>
    change lines (encodeEntry final).toList = _
    by_cases hfinal : final = ""
    · subst hfinal
      decide
    · have hne : (encodeEntry final).toList ≠ [] := fun h => hfinal (encodeEntry_eq_nil h)
      rw [lines_single (encodeEntry_newline final) hne, if_neg hfinal]
      rfl
  | cons entry front ih =>
    have hsave : (saveHistory (entry :: front ++ [final])).toList =
        (encodeEntry entry).toList ++ '\n' :: (saveHistory (front ++ [final])).toList := by
      simp only [saveHistory, cons_append, map_cons]
      cases hmap : (front ++ [final]).map encodeEntry with
      | nil => exact absurd (map_eq_nil_iff.mp hmap) (by simp)
      | cons next rest =>
        rw [Text.join.eq_3 _ _ _ (by simp), String.toList_append, String.toList_append,
          append_assoc]
        rfl
    rw [hsave, lines_cons (encodeEntry_newline entry), ih, map_cons, cons_append]

/-- The history is read from its file as it was written, and would be written the same again. -/
def HistoryKept (history : List String) : Prop :=
  loadHistory (saveHistory history) = history ∧
    saveHistory (loadHistory (saveHistory history)) = saveHistory history

/-- No entry holds a backslash before an `n`, only the last one ends in a carriage return, and the
last one is not empty. -/
def Legible (history : List String) : Prop :=
  (∀ entry ∈ history, Unbroken entry) ∧
    (∀ entry ∈ history.dropLast, entry.toList.getLast? ≠ some '\r') ∧ history.getLast? ≠ some ""

theorem carriageReturn_of_encoded (h : (encodeEntry entry).toList.getLast? = some '\r') :
    entry.toList.getLast? = some '\r' := by
  rw [encodeEntry_eq] at h
  rcases eq_nil_or_concat' entry.toList with hnil | ⟨front, c, hentry⟩
  · rw [hnil] at h
    exact absurd h (by decide)
  · have hescape : escape '\\' entryCodes entry.toList =
        escape '\\' entryCodes front ++ escapeSymbol '\\' entryCodes c := by
      rw [hentry, escape, flatMap_append, flatMap_singleton]
      rfl
    rw [hescape, List.getLast?_append_of_ne_nil _ (escapeSymbol_ne_nil c)] at h
    rw [hentry, List.getLast?_concat]
    rcases escapeSymbol_cases '\\' entryCodes c with ⟨_, hc⟩ | ⟨_, _, hc⟩ | ⟨code, hcode, _, _, hc⟩
    · rw [hc] at h
      exact absurd h (by decide)
    · rw [hc] at h
      exact h
    · obtain rfl := mem_singleton.mp hcode
      rw [hc] at h
      exact absurd h (by decide)

theorem decode_stripped_iff (entry : String) :
    decodeEntry (stripCr (encodeEntry entry).toList) = entry ↔
      Unbroken entry ∧ entry.toList.getLast? ≠ some '\r' := by
  by_cases hlast : entry.toList.getLast? = some '\r'
  · refine iff_of_false ?_ fun h => h.2 hlast
    have hentry := dropLast_append_getLast? '\r' hlast
    have hstrip : stripCr (encodeEntry entry).toList =
        escape '\\' entryCodes entry.toList.dropLast := by
      have hcr : escape '\\' entryCodes ['\r'] = ['\r'] := by decide
      rw [encodeEntry_eq, ← hentry, escape, flatMap_append]
      change stripCr (_ ++ escape '\\' entryCodes ['\r']) = _
      rw [hcr, stripCr_cr, hentry]
      rfl
    intro heq
    have hshort := decode_entry_length entry.toList.dropLast
    have hlength := congrArg List.length hentry
    rw [hstrip] at heq
    rw [heq, ← String.length_toList] at hshort
    rw [length_append, length_singleton] at hlength
    omega
  · have hstrip : stripCr (encodeEntry entry).toList = (encodeEntry entry).toList := by
      rw [stripCr, if_neg (hlast ∘ carriageReturn_of_encoded)]
    rw [hstrip, decode_entry_iff, and_iff_left hlast]

/-- Where nothing is lost nothing was dropped and nothing was repeated. -/
theorem same_of_sublist (f g : String → String) {front : List String} {final : String}
    (h : (front ++ [final]).Sublist (front.map f ++ if final = "" then [] else [g final])) :
    (∀ entry ∈ front, f entry = entry) ∧ final ≠ "" ∧ g final = final := by
  have hlength := h.length_le
  rw [length_append, length_append, length_map, length_singleton] at hlength
  by_cases hfinal : final = ""
  · rw [if_pos hfinal, length_nil] at hlength
    omega
  · rw [if_neg hfinal] at h
    have hsame := h.eq_of_length (by simp)
    obtain ⟨hfront, hlast⟩ := append_inj' hsame rfl
    have hmap : front.map f = front.map id := hfront.symm.trans (map_id front).symm
    exact ⟨map_inj_left.mp hmap, hfinal, (List.cons.inj hlast).1.symm⟩

theorem historyKept_iff (h : history.IsChain (· ≠ ·)) : HistoryKept history ↔ Legible history := by
  rcases List.eq_nil_or_concat' history with rfl | ⟨front, final, rfl⟩
  · exact iff_of_true ⟨by decide, by decide⟩ ⟨by simp, by simp, by simp⟩
  · have hload : loadHistory (saveHistory (front ++ [final])) = deduplicateHistory
        (front.map (fun entry => decodeEntry (stripCr (encodeEntry entry).toList)) ++
          if final = "" then [] else [decodeEntry (encodeEntry final).toList]) := by
      rw [loadHistory, lines_saveHistory, List.map_append, List.map_map]
      congr 2
      split <;> rfl
    have hlegible : Legible (front ++ [final]) ↔
        (∀ entry ∈ front, decodeEntry (stripCr (encodeEntry entry).toList) = entry) ∧
          final ≠ "" ∧ decodeEntry (encodeEntry final).toList = final := by
      rw [Legible, List.dropLast_concat, List.getLast?_concat, List.forall_mem_append,
        List.forall_mem_singleton, decode_entry_iff, ne_eq, Option.some_inj]
      simp only [decode_stripped_iff]
      constructor
      · rintro ⟨⟨hfront, hfinal⟩, hcr, hne⟩
        exact ⟨fun entry hentry => ⟨hfront entry hentry, hcr entry hentry⟩, hne, hfinal⟩
      · rintro ⟨hfront, hne, hfinal⟩
        exact ⟨⟨fun entry hentry => (hfront entry hentry).1, hfinal⟩,
          fun entry hentry => (hfront entry hentry).2, hne⟩
    rw [hlegible]
    constructor
    · rintro ⟨hkept, -⟩
      have hsublist := deduplicateHistory_sublist (front.map
        (fun entry => decodeEntry (stripCr (encodeEntry entry).toList)) ++
          if final = "" then [] else [decodeEntry (encodeEntry final).toList])
      rw [← hload, hkept] at hsublist
      exact same_of_sublist (fun entry => decodeEntry (stripCr (encodeEntry entry).toList))
        (fun entry => decodeEntry (encodeEntry entry).toList) hsublist
    · rintro ⟨hfront, hfinal, hlast⟩
      have hkept : loadHistory (saveHistory (front ++ [final])) = front ++ [final] := by
        rw [hload, if_neg hfinal, hlast, List.map_congr_left hfront, List.map_id']
        exact deduplicateHistory_eq h
      exact ⟨hkept, congrArg saveHistory hkept⟩

theorem apart_loadHistory (contents : String) : (loadHistory contents).IsChain (· ≠ ·) :=
  (deduplicateFrom_apart none _).1

theorem apart_saveToHistory (command : String) (h : a.commandHistory.IsChain (· ≠ ·)) :
    (a.saveToHistory command).commandHistory.IsChain (· ≠ ·) := by
  unfold App.saveToHistory
  split
  · exact h
  · rename_i hnew
    rw [Bool.or_eq_true, decide_eq_true_eq, decide_eq_true_eq, not_or] at hnew
    have hpushed : (a.commandHistory ++ [command]).IsChain (· ≠ ·) := by
      rw [isChain_append]
      refine ⟨h, .singleton command, ?_⟩
      intro entry hentry next hnext heq
      obtain rfl := Option.some.inj hnext
      exact hnew.2 (heq ▸ hentry)
    dsimp only
    exact hpushed.drop _

theorem apart_submitted (commands : List String) (h : a.commandHistory.IsChain (· ≠ ·)) :
    (commands.foldl App.saveToHistory a).commandHistory.IsChain (· ≠ ·) := by
  induction commands generalizing a with
  | nil => exact h
  | cons command commands ih =>
    rw [foldl_cons]
    exact ih (apart_saveToHistory command h)

/-- Without the entries that repeat the one before, a history is read from its file as it was
exactly when it is legible; the histories that commands are submitted to have no others. -/
theorem history_round_trip :
    (∀ history, HistoryKept (deduplicateHistory history) ↔ Legible (deduplicateHistory history)) ∧
    ∀ (a : App Stats) (contents : String) (commands : List String),
      let history :=
        (commands.foldl App.saveToHistory
          { a with commandHistory := loadHistory contents }).commandHistory
      HistoryKept history ↔ Legible history := by
  constructor
  · intro history
    exact historyKept_iff (deduplicateFrom_apart none history).1
  · intro a contents commands
    exact historyKept_iff (apart_submitted commands (apart_loadHistory contents))

theorem history_lossy :
    ¬ ∀ history : List String, HistoryKept (deduplicateHistory history) := by
  intro hall
  have hkept := (hall ["C:\\new"]).1
  revert hkept
  decide

end ColossalCode.Ui
