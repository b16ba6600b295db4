import ColossalCode.Protocol.Text
import Mathlib.Data.List.Basic

/-! The custom commands that a managed Nu runtime holds. -/
namespace ColossalCode.Nu
open List Option

/-- `str::split_whitespace`. -/
def splitWhitespace : List Char → List (List Char)
  | [] => []
  | c :: text =>
    if Text.isWhitespace c then splitWhitespace text
    else if text.head?.all Text.isWhitespace then [c] :: splitWhitespace text
    else
      match splitWhitespace text with
      | [] => [[c]]
      | word :: words => (c :: word) :: words

def stripPrefix (start text : List Char) : Option (List Char) :=
  if start.isPrefixOf text then some (text.drop start.length) else none

def extractDefName (source : String) : Option String :=
  ((stripPrefix "export def ".toList source.toList).or
      (stripPrefix "def ".toList source.toList)).bind fun rest =>
    ((splitWhitespace rest).find? fun token => token.head? != some '-').map String.ofList

/-- `register_def`, on `custom_commands`. -/
def registerDef (customCommands : List String) (source : String) : List String :=
  match extractDefName source with
  | some name =>
    (customCommands.filter fun existing => extractDefName existing ≠ some name) ++ [source]
  | none => customCommands

/-- `custom_commands` after the evaluation of definitions. -/
def registered (sources : List String) : List String := sources.foldl registerDef []

example : registered ["def a [] \x7b 1 \x7d", "def --env b [] \x7b 2 \x7d", "def a [] \x7b 3 \x7d"] =
    ["def --env b [] \x7b 2 \x7d", "def a [] \x7b 3 \x7d"] := by decide

section Latest

variable {α : Type} [DecidableEq α] (commandName : String → α)

/-- The definitions that no later one of the same command replaces. -/
def latest : List String → List String
  | [] => []
  | source :: sources =>
    if sources.any fun later => commandName later = commandName source then latest sources
    else source :: latest sources

theorem latest_snoc (sources : List String) (source : String) :
    latest commandName (sources ++ [source]) =
      ((latest commandName sources).filter fun e => commandName e ≠ commandName source) ++
        [source] := by
  induction sources with
  | nil => rfl
  | cons first sources ih =>
    rw [cons_append, latest, latest, ih, any_append]
    by_cases hlater : (sources.any fun later => commandName later = commandName first) = true
    · rw [hlater, Bool.true_or, if_pos rfl, if_pos rfl]
    · rw [Bool.not_eq_true] at hlater
      have hone : ([source].any fun later => commandName later = commandName first) =
          decide (commandName source = commandName first) := by simp
      rw [hlater, Bool.false_or, hone, if_neg Bool.false_ne_true]
      by_cases hsame : commandName source = commandName first
      · rw [if_pos (decide_eq_true hsame), filter_cons_of_neg (by simp [hsame])]
      · rw [if_neg (by simp [hsame]), filter_cons_of_pos (by simp [Ne.symm hsame]),
          cons_append]

theorem filter_eq_filter_iff {β : Type} {p q : β → Bool} (xs : List β) :
    xs.filter p = xs.filter q ↔ ∀ x ∈ xs, (p x = true ↔ q x = true) := by
  constructor
  · intro h x hx
    have hmem : x ∈ xs.filter p ↔ x ∈ xs.filter q := by rw [h]
    simpa [mem_filter, hx] using hmem
  · intro h
    exact filter_congr fun x hx => Bool.eq_iff_iff.mpr (h x hx)

/-- Every definition so far has a name of its own, or the name of a definition that is held just where
it is one of the same command. -/
def KeysAgree (sources : List String) : Prop :=
  ∀ before source, before ++ [source] <+: sources → (extractDefName source).isSome = true ∧
    ∀ held ∈ latest commandName before,
      (extractDefName held = extractDefName source ↔ commandName held = commandName source)

theorem registered_snoc (sources : List String) (source : String) :
    registered (sources ++ [source]) = registerDef (registered sources) source :=
  foldl_append

theorem registered_isSome {sources : List String} {e : String} (h : e ∈ registered sources) :
    (extractDefName e).isSome = true := by
  induction sources using List.reverseRecOn with
  | nil => cases h
  | append_singleton sources source ih =>
    rw [registered_snoc, registerDef] at h
    split at h
    · rename_i name hname
      rcases mem_append.mp h with hold | hnew
      · exact ih (mem_filter.mp hold).1
      · rw [mem_singleton.mp hnew, hname]
        rfl
    · exact ih h

/-- One definition more is registered rightly where the keys agree on it. -/
theorem registered_step_iff {before : List String} (h : registered before = latest commandName before)
    (source : String) : registered (before ++ [source]) = latest commandName (before ++ [source]) ↔
      (extractDefName source).isSome = true ∧ ∀ held ∈ latest commandName before,
        (extractDefName held = extractDefName source ↔ commandName held = commandName source) := by
  rw [registered_snoc, latest_snoc, registerDef]
  cases hname : extractDefName source with
  | none =>
    refine iff_of_false ?_ (by simp)
    intro heq
    have hmem : source ∈ registered before := by
      dsimp only at heq
      rw [heq]
      simp
    have hsome := registered_isSome hmem
    rw [hname] at hsome
    cases hsome
  | some name =>
    dsimp only
    rw [h, append_left_inj, filter_eq_filter_iff]
    simp only [isSome_some, true_and, decide_eq_true_eq, ne_eq, not_iff_not]

/-- At every moment the registry holds the latest source of each command just where the keys agree. -/
theorem registry_latest_iff (sources : List String) :
    (∀ before, before <+: sources → registered before = latest commandName before) ↔
      KeysAgree commandName sources := by
  constructor
  · intro h before source hsnoc
    have hbefore := h before ((prefix_append before [source]).trans hsnoc)
    exact (registered_step_iff commandName hbefore source).mp (h _ hsnoc)
  · intro h before hbefore
    induction before using List.reverseRecOn with
    | nil => rfl
    | append_singleton before source ih =>
      have hheld := ih ((prefix_append before [source]).trans hbefore)
      exact (registered_step_iff commandName hheld source).mpr (h before source hbefore)

end Latest

def isQuote (c : Char) : Bool := c = Char.ofNat 0x22 || c = Char.ofNat 0x27 || c = Char.ofNat 0x60

/-- The name of a command in Nu: that of a name in quotes is the text between them. -/
def quotedName (source : String) : String :=
  match extractDefName source with
  | some word =>
    match word.toList with
    | [] => ""
    | quote :: _ =>
      if isQuote quote then
        String.ofList (((source.toList.dropWhile (· ≠ quote)).drop 1).takeWhile (· ≠ quote))
      else word
  | none => source

/-- Of two commands whose quoted names begin with the same word only the second one is held. -/
theorem quoted_name_replaced : ¬ ∀ sources : List String, ∀ before, before <+: sources →
    registered before = latest quotedName before := by
  intro hall
  have heq := hall ["def \"git push\" [] { 1 }", "def \"git pull\" [] { 2 }"] _
    (prefix_refl _)
  revert heq
  decide

end ColossalCode.Nu
