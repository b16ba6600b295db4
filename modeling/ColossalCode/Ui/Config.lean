import ColossalCode.Ui.HistoryFile
import Mathlib.Data.List.Sort
import Mathlib.Data.List.TakeWhile
import Mathlib.Data.String.Basic

/-! The configuration file: its two readers and the writer of updates. -/
namespace ColossalCode.Ui
open List Option Text
open Text (stripCr)

abbrev Setting := List Char × List Char

def parseConfigLine (line : List Char) : Option (Setting) :=
  let trimmed := Text.trimmed line
  let rawKey := trimmed.takeWhile (· != '=')
  let key := Text.trimmed rawKey
  if trimmed.isEmpty || trimmed.head? == some '#' || !trimmed.contains '=' || key.isEmpty then none
  else some (key, Text.trimmed (trimmed.drop (rawKey.length + 1)))

def loadConfigValueFromContent (content key : List Char) : Option (List Char) :=
  let key := trimmed key
  if key.isEmpty then none
  else (lines content).findSome? fun line =>
    (parseConfigLine line).bind fun parsed => if parsed.1 = key then some parsed.2 else none

def parseConfigMapFromContent (content : List Char) : List Char → Option (List Char) :=
  (lines content).foldl (fun configMap line =>
    match parseConfigLine line with
    | some (key, value) => fun other => if other = key then some value else configMap other
    | none => configMap) fun _ => none

structure ConfigMap where
  entries : List (Setting)
  nodup : (entries.map Prod.fst).Nodup

namespace ConfigMap

def get (updates : ConfigMap) (key : List Char) : Option (List Char) := updates.entries.lookup key

def configLine (entry : Setting) : List Char := entry.1 ++ " = ".toList ++ entry.2

/-- The update that a line gives way to. -/
def replaces (updates : ConfigMap) (line : List Char) : Option (Setting) :=
  (parseConfigLine line).bind fun parsed => (updates.get parsed.1).map fun value => (parsed.1, value)

def missing (updates : ConfigMap) (seen : List (List Char)) : List (Setting) :=
  (updates.entries.filter fun entry => !seen.contains entry.1).insertionSort fun a b => a.1 ≤ b.1

def updatedLines (updates : ConfigMap) (seen : List (List Char)) :
    List (List Char) → List (List Char)
  | [] => (updates.missing seen).map configLine
  | line :: rest =>
    match updates.replaces line with
    | some entry =>
      if seen.contains entry.1 then updates.updatedLines seen rest
      else configLine entry :: updates.updatedLines (entry.1 :: seen) rest
    | none => line :: updates.updatedLines seen rest

def renderConfigWithUpdates (existing : List Char) (updates : ConfigMap) : List Char :=
  let lines := updates.updatedLines [] (lines existing)
  if lines.isEmpty then [] else joinLines lines ++ ['\n']

/-- Updates that a line can hold. -/
def Written (updates : ConfigMap) : Prop :=
  ∀ entry ∈ updates.entries, (entry.1 ≠ [] ∧ '=' ∉ entry.1 ∧ entry.1.head? ≠ some '#') ∧
    ('\n' ∉ entry.1 ∧ '\n' ∉ entry.2) ∧
    trimmed entry.1 = entry.1 ∧ trimmed entry.2 = entry.2

end ConfigMap

open ConfigMap

variable {content line key value text : List Char} {updates : ConfigMap} {entry : Setting}
  {entries : List Setting} {seen ls : List (List Char)}

theorem dropWhile_eq_self {p : Char → Bool} :
    text.dropWhile p = text ↔ ∀ c ∈ text.head?, p c = false := by
  rw [dropWhile_eq_self_iff]
  cases text <;> simp

theorem trimmed_eq_self :
    trimmed text = text ↔ (∀ c ∈ text.head?, isWhitespace c = false) ∧
      ∀ c ∈ text.getLast?, isWhitespace c = false := by
  rw [← head?_reverse, ← dropWhile_eq_self, ← dropWhile_eq_self]
  constructor
  · intro h
    have hfront := dropWhile_sublist isWhitespace (l := text)
    have hend := (dropWhile_sublist isWhitespace
      (l := (text.dropWhile isWhitespace).reverse)).reverse
    rw [reverse_reverse] at hend
    change (trimmed text).Sublist _ at hend
    rw [h] at hend
    have hdrop := hfront.eq_of_length_le hend.length_le
    refine ⟨hdrop, ?_⟩
    rw [trimmed, hdrop] at h
    rw [← reverse_eq_iff, h]
  · rintro ⟨hfront, hback⟩
    rw [trimmed, hfront, hback, reverse_reverse]

/-- Blanks around a trimmed text are trimmed away. -/
theorem trimmed_between {f b : List Char} (hfront : ∀ c ∈ f, isWhitespace c = true)
    (hback : ∀ c ∈ b, isWhitespace c = true) (h : trimmed text = text) :
    trimmed (f ++ text ++ b) = text := by
  obtain ⟨hhead, hlast⟩ := trimmed_eq_self.mp h
  rw [← head?_reverse, ← dropWhile_eq_self] at hlast
  rw [trimmed, append_assoc, dropWhile_append_of_pos hfront]
  cases text with
  | nil =>
    have hblank : (b ++ []).dropWhile isWhitespace = [] := dropWhile_append_of_pos hback
    rw [append_nil] at hblank
    rw [nil_append, hblank]
    rfl
  | cons c text =>
    have hfirst : (c :: text ++ b).dropWhile isWhitespace = c :: text ++ b :=
      dropWhile_eq_self.mpr (by simpa using hhead)
    rw [hfirst, reverse_append, dropWhile_append_of_pos fun c hc => hback c (mem_reverse.mp hc),
      hlast, reverse_reverse]

theorem trimmed_configLine (hne : key ≠ []) (hkey : trimmed key = key)
    (hvalue : trimmed value = value) :
    ∃ rest, trimmed rest = value ∧
      trimmed (configLine (key, value)) = key ++ ' ' :: '=' :: rest := by
  have hblank : ∀ c ∈ [' '], isWhitespace c = true := by simp [isWhitespace]
  obtain ⟨hhead, -⟩ := trimmed_eq_self.mp hkey
  obtain ⟨c, key, rfl⟩ := exists_cons_of_ne_nil hne
  by_cases hempty : value = []
  · subst hempty
    refine ⟨[], rfl, ?_⟩
    have hline : trimmed (c :: key ++ [' ', '=']) = c :: key ++ [' ', '='] :=
      trimmed_eq_self.mpr ⟨by simpa using hhead, by
        rw [getLast?_append_of_ne_nil _ (by simp)]
        simp [isWhitespace]⟩
    have hend := trimmed_between (f := []) (by simp) hblank hline
    simpa [configLine] using hend
  · refine ⟨' ' :: value, ?_, ?_⟩
    · simpa using trimmed_between (b := []) hblank (by simp) hvalue
    · obtain ⟨-, hlast⟩ := trimmed_eq_self.mp hvalue
      have hline : trimmed (configLine (c :: key, value)) = configLine (c :: key, value) :=
        trimmed_eq_self.mpr ⟨by simpa [configLine] using hhead, by
          rw [configLine, getLast?_append_of_ne_nil _ hempty]
          exact hlast⟩
      rw [hline]
      simp [configLine]

theorem parse_configLine (h : updates.Written)
    (hentry : entry ∈ updates.entries) : parseConfigLine (configLine entry) = some entry := by
  obtain ⟨key, value⟩ := entry
  obtain ⟨⟨hne, hequals, hcomment⟩, -, hkey, hvalue⟩ := h _ hentry
  obtain ⟨rest, hrest, htrimmed⟩ := trimmed_configLine hne hkey hvalue
  have htake : (key ++ ' ' :: '=' :: rest).takeWhile (· != '=') = key ++ [' '] := by
    rw [takeWhile_append_of_pos]
    · rfl
    · intro c hc
      simpa using fun heq : c = '=' => hequals (heq ▸ hc)
  have hraw : trimmed (key ++ [' ']) = key :=
    trimmed_between (f := []) (by simp) (by simp [isWhitespace]) hkey
  have hdrop : (key ++ ' ' :: '=' :: rest).drop ((key ++ [' ']).length + 1) = rest := by
    rw [show key ++ ' ' :: '=' :: rest = key ++ [' ', '='] ++ rest by simp]
    exact drop_left' (by simp)
  rw [parseConfigLine, htrimmed]
  simp only [htake, hraw, hdrop, hrest]
  obtain ⟨c, key, rfl⟩ := exists_cons_of_ne_nil hne
  simpa using hcomment

theorem get_eq_some_iff :
    updates.get entry.1 = some entry.2 ↔ entry ∈ updates.entries := by
  obtain ⟨entries, hnodup⟩ := updates
  change entries.lookup entry.1 = some entry.2 ↔ entry ∈ entries
  induction entries with
  | nil => simp
  | cons next entries ih =>
    obtain ⟨hnew, hlater⟩ := nodup_cons.mp hnodup
    have ih := ih hlater
    rw [lookup_cons, mem_cons]
    by_cases hkey : entry.1 = next.1
    · have hother : entry ∉ entries := fun h => hnew (hkey ▸ mem_map_of_mem h)
      simp [hkey, hother, Prod.ext_iff, eq_comm]
    · simp [hkey, Prod.ext_iff, ih, beq_eq_false_iff_ne.mpr hkey]

theorem replaces_configLine (h : updates.Written)
    (hentry : entry ∈ updates.entries) : updates.replaces (configLine entry) = some entry := by
  simp [replaces, parse_configLine h hentry, get_eq_some_iff.mpr hentry]

theorem replaces_mem (h : updates.replaces line = some entry) :
    entry ∈ updates.entries ∧ ∃ value, parseConfigLine line = some (entry.1, value) := by
  obtain ⟨⟨key, value⟩, hparsed, hget⟩ := bind_eq_some_iff.mp h
  obtain ⟨new, hnew, rfl⟩ := map_eq_some_iff.mp hget
  exact ⟨get_eq_some_iff.mp hnew, value, hparsed⟩

/-- The `'\r'` of a line's end is a blank. -/
theorem parse_stripCr (line : List Char) :
    parseConfigLine (stripCr line) = parseConfigLine line := by
  have hblank : isWhitespace '\r' = true := by decide
  have htrimmed : trimmed (stripCr line) = trimmed line := by
    rcases stripCr_eq line with h | h
    · rw [h]
    · conv_rhs => rw [h]
      rw [trimmed, trimmed, dropWhile_append]
      split
      · rename_i hempty
        rw [List.isEmpty_iff.mp hempty]
        simp [hblank]
      · simp [hblank]
  rw [parseConfigLine, parseConfigLine, htrimmed]

theorem stripCr_configLine (h : updates.Written)
    (hentry : entry ∈ updates.entries) : stripCr (configLine entry) = configLine entry := by
  obtain ⟨-, -, -, hvalue⟩ := h _ hentry
  obtain ⟨-, hlast⟩ := trimmed_eq_self.mp hvalue
  rw [stripCr, if_neg]
  intro hcr
  by_cases hempty : entry.2 = []
  · simp [configLine, hempty, getLast?_append] at hcr
  · rw [configLine, getLast?_append_of_ne_nil _ hempty] at hcr
    exact absurd (hlast _ hcr) (by decide)

def entriesOf (ls : List (List Char)) : List (Setting) := ls.filterMap parseConfigLine

/-- The value of the last entry with the key. -/
def final (key : List Char) (entries : List (Setting)) : Option (List Char) :=
  entries.reverse.lookup key

theorem final_cons (key : List Char) (entry : Setting) (entries : List (Setting)) :
    final key (entry :: entries) =
      (final key entries).or (if entry.1 = key then some entry.2 else none) := by
  rw [final, reverse_cons, lookup_append, lookup_cons, lookup_nil]
  congr 1
  by_cases hkey : entry.1 = key
  · simp [hkey]
  · simp [hkey, beq_eq_false_iff_ne.mpr (Ne.symm hkey)]

theorem parseConfigMap_eq (content key : List Char) :
    parseConfigMapFromContent content key = final key (entriesOf (lines content)) := by
  suffices h : ∀ (ls : List (List Char)) (start : List Char → Option (List Char)),
      ls.foldl (fun configMap line =>
        match parseConfigLine line with
        | some (key, value) => fun other => if other = key then some value else configMap other
        | none => configMap) start key = (final key (entriesOf ls)).or (start key) by
    rw [parseConfigMapFromContent, h, or_none]
  intro ls
  induction ls with
  | nil => exact fun start => rfl
  | cons line ls ih =>
    intro start
    rw [foldl_cons, ih]
    simp only [entriesOf, filterMap_cons]
    cases parseConfigLine line with
    | none => rfl
    | some entry =>
      dsimp only
      rw [final_cons, Option.or_assoc]
      congr 1
      by_cases hkey : key = entry.1
      · simp [hkey]
      · simp [hkey, Ne.symm hkey]

theorem lookup_empty (ls : List (List Char)) : (entriesOf ls).lookup [] = none := by
  rw [lookup_eq_none_iff]
  intro entry hentry
  obtain ⟨line, -, hline⟩ := mem_filterMap.mp hentry
  rw [parseConfigLine] at hline
  split at hline
  · cases hline
  · obtain rfl := some.inj hline
    simp_all

theorem loadConfigValue_eq (content : List Char) (hkey : trimmed key = key) :
    loadConfigValueFromContent content key = (entriesOf (lines content)).lookup key := by
  unfold loadConfigValueFromContent
  rw [hkey]
  dsimp only
  split
  · rename_i hempty
    rw [List.isEmpty_iff.mp hempty, lookup_empty]
  · induction lines content with
    | nil => rfl
    | cons line ls ih =>
      rw [findSome?_cons, ih]
      simp only [entriesOf, filterMap_cons]
      cases parseConfigLine line with
      | none => rfl
      | some entry =>
        rw [lookup_cons]
        by_cases hkey : entry.1 = key
        · simp [hkey]
        · simp [hkey, beq_eq_false_iff_ne.mpr (Ne.symm hkey)]

theorem entriesOf_configLines (h : updates.Written)
    (hentries : ∀ entry ∈ entries, entry ∈ updates.entries) :
    entriesOf (entries.map configLine) = entries := by
  have hparse : filterMap (parseConfigLine ∘ configLine) entries = filterMap some entries :=
    filterMap_congr fun entry hentry => parse_configLine h (hentries entry hentry)
  rw [entriesOf, filterMap_map, hparse, filterMap_some]

theorem mem_missing :
    entry ∈ updates.missing seen ↔ entry ∈ updates.entries ∧ entry.1 ∉ seen := by
  simp [missing, mem_insertionSort]

theorem final_eq_none :
    final key entries = none ↔ ∀ entry ∈ entries, entry.1 ≠ key := by
  simp [final, lookup_eq_none_iff, ne_comm]

theorem final_eq
    (h : (key, value) ∈ entries) (hall : ∀ entry ∈ entries, entry.1 = key → entry.2 = value) :
    final key entries = some value := by
  cases hfinal : final key entries with
  | none => exact absurd rfl (final_eq_none.mp hfinal _ h)
  | some last =>
    obtain ⟨front, back, hsplit, -⟩ := lookup_eq_some_iff.mp hfinal
    have hlast : (key, last) ∈ entries := mem_reverse.mp (by simp [hsplit])
    rw [show last = value from hall _ hlast rfl]

theorem final_missing (h : updates.Written) (seen : List (List Char)) (key : List Char) :
    final key (entriesOf ((updates.missing seen).map configLine)) =
      if key ∈ seen then none else updates.get key := by
  rw [entriesOf_configLines h fun entry hentry => (mem_missing.mp hentry).1]
  split
  · rename_i hseen
    exact final_eq_none.mpr fun entry hentry hkey => (mem_missing.mp hentry).2 (hkey ▸ hseen)
  · rename_i hseen
    cases hget : updates.get key with
    | none =>
      refine final_eq_none.mpr fun entry hentry hkey => ?_
      have hvalue := get_eq_some_iff.mpr (mem_missing.mp hentry).1
      rw [hkey, hget] at hvalue
      cases hvalue
    | some value =>
      refine final_eq (mem_missing.mpr ⟨(@get_eq_some_iff updates (key, value)).mp hget, hseen⟩)
        fun entry hentry hkey => ?_
      have hvalue := get_eq_some_iff.mpr (mem_missing.mp hentry).1
      rw [hkey, hget] at hvalue
      exact (Option.some.inj hvalue).symm

/-- An updated key has its new value, once, and the other keys have theirs. -/
theorem final_updatedLines (h : updates.Written) (key : List Char) (seen ls : List (List Char)) :
    final key (entriesOf (updates.updatedLines seen ls)) =
      if updates.get key = none then final key (entriesOf ls)
      else if key ∈ seen then none else updates.get key := by
  fun_induction updatedLines updates seen ls with
  | case1 seen =>
    rw [final_missing h]
    cases updates.get key with
    | none =>
      simp only [ite_self, if_true]
      rfl
    | some value => simp
  | case2 seen line rest entry hentry hseen ih =>
    obtain ⟨hmem, value, hparsed⟩ := replaces_mem hentry
    have hget := get_eq_some_iff.mpr hmem
    by_cases hkey : entry.1 = key
    · subst hkey
      simp_all
    · simp_all [entriesOf, final_cons]
  | case3 seen line rest entry hentry hseen ih =>
    obtain ⟨hmem, value, hparsed⟩ := replaces_mem hentry
    have hget := get_eq_some_iff.mpr hmem
    have hline := parse_configLine h hmem
    by_cases hkey : entry.1 = key
    · subst hkey
      simp_all [entriesOf, final_cons]
    · simp_all [entriesOf, final_cons, Ne.symm hkey]
  | case4 seen line rest hkept ih =>
    cases hparsed : parseConfigLine line with
    | none => simp_all [entriesOf]
    | some entry =>
      have hget : updates.get entry.1 = none := by simpa [replaces, hparsed] using hkept
      by_cases hkey : entry.1 = key
      · subst hkey
        simp_all [entriesOf, final_cons]
      · simp_all [entriesOf, final_cons]

/-- The first and the last line of a key hold one value. -/
def Settled (content : List Char) : Prop := ∀ key, trimmed key = key →
  let entries := entriesOf (lines content)
  entries.lookup key = entries.reverse.lookup key

theorem readers_agree_iff (content : List Char) :
    (∀ key, trimmed key = key →
      loadConfigValueFromContent content key = parseConfigMapFromContent content key) ↔
      Settled content :=
  forall₂_congr fun key hkey => by rw [loadConfigValue_eq content hkey, parseConfigMap_eq]; rfl

theorem not_mem_configLine (h : updates.Written)
    (hentry : entry ∈ updates.entries) : '\n' ∉ configLine entry := by
  obtain ⟨-, ⟨hkey, hvalue⟩, -⟩ := h _ hentry
  simp [configLine, hkey, hvalue]

theorem mem_updatedLines (hline : line ∈ updates.updatedLines seen ls) :
    (line ∈ ls ∧ updates.replaces line = none) ∨
      ∃ entry ∈ updates.entries, line = configLine entry := by
  fun_induction updatedLines updates seen ls with
  | case1 seen =>
    obtain ⟨entry, hentry, rfl⟩ := mem_map.mp hline
    exact .inr ⟨entry, (mem_missing.mp hentry).1, rfl⟩
  | case2 seen next rest entry hentry hseen ih => exact (ih hline).imp_left fun h => by simp [h]
  | case3 seen next rest entry hentry hseen ih =>
    rcases mem_cons.mp hline with rfl | hline
    · exact .inr ⟨entry, (replaces_mem hentry).1, rfl⟩
    · exact (ih hline).imp_left fun h => by simp [h]
  | case4 seen next rest hkept ih =>
    rcases mem_cons.mp hline with rfl | hline
    · exact .inl ⟨by simp, hkept⟩
    · exact (ih hline).imp_left fun h => by simp [h]

/-- The other lines are kept as they are. -/
theorem filter_updatedLines (h : updates.Written) (seen ls : List (List Char)) :
    (updates.updatedLines seen ls).filter (fun line => (updates.replaces line).isNone) =
      ls.filter fun line => (updates.replaces line).isNone := by
  fun_induction updatedLines updates seen ls with
  | case1 seen =>
    refine filter_eq_nil_iff.mpr fun line hline => ?_
    obtain ⟨entry, hentry, rfl⟩ := mem_map.mp hline
    simp [replaces_configLine h (mem_missing.mp hentry).1]
  | case2 seen next rest entry hentry hseen ih => simp [hentry, ih]
  | case3 seen next rest entry hentry hseen ih =>
    simp [hentry, ih, replaces_configLine h (replaces_mem hentry).1]
  | case4 seen next rest hkept ih => simp [hkept, ih]

theorem updatedLines_missing (h : updates.Written)
    (hnew : ∀ entry ∈ entries, entry ∈ updates.entries ∧ entry.1 ∉ seen)
    (hnodup : (entries.map Prod.fst).Nodup)
    (hall : ∀ entry ∈ updates.entries, entry.1 ∉ seen → entry ∈ entries) :
    updates.updatedLines seen (entries.map configLine) = entries.map configLine := by
  induction entries generalizing seen with
  | nil =>
    have hnone : updates.missing seen = [] := eq_nil_iff_forall_not_mem.mpr fun entry hentry =>
      not_mem_nil (hall entry (mem_missing.mp hentry).1 (mem_missing.mp hentry).2)
    rw [map_nil, updatedLines, hnone, map_nil]
  | cons entry entries ih =>
    obtain ⟨hmem, hseen⟩ := hnew entry mem_cons_self
    obtain ⟨hkey, hlater⟩ := nodup_cons.mp hnodup
    have hrest := @ih (entry.1 :: seen)
      (fun other hother => ⟨(hnew other (mem_cons_of_mem _ hother)).1, by
        have hfresh := (hnew other (mem_cons_of_mem _ hother)).2
        have hne : other.1 ≠ entry.1 := fun heq => hkey (heq ▸ mem_map_of_mem hother)
        simp [hfresh, hne]⟩) hlater
      (fun other hother hfresh => by
        have hmem := hall other hother fun hold => hfresh (mem_cons_of_mem _ hold)
        exact (mem_cons.mp hmem).resolve_left fun heq => hfresh (heq ▸ mem_cons_self))
    rw [map_cons, updatedLines, replaces_configLine h hmem]
    simp [hseen, hrest]

theorem nodup_missing (updates : ConfigMap) (seen : List (List Char)) :
    ((updates.missing seen).map Prod.fst).Nodup :=
  ((perm_insertionSort _ _).map _).nodup_iff.mpr
    (updates.nodup.sublist ((filter_sublist).map Prod.fst))

/-- Each updated key has one line by now, which is as it will be. -/
theorem updatedLines_stripped (h : updates.Written) (seen ls : List (List Char)) :
    updates.updatedLines seen ((updates.updatedLines seen ls).map stripCr) =
      (updates.updatedLines seen ls).map stripCr := by
  fun_induction updatedLines updates seen ls with
  | case1 seen =>
    have hstripped : ((updates.missing seen).map configLine).map stripCr =
        (updates.missing seen).map configLine := by
      rw [List.map_map]
      exact map_congr_left fun entry hentry => stripCr_configLine h (mem_missing.mp hentry).1
    rw [hstripped]
    exact updatedLines_missing h (fun entry => mem_missing.mp) (nodup_missing updates seen)
      fun entry hentry hseen => mem_missing.mpr ⟨hentry, hseen⟩
  | case2 seen next rest entry hentry hseen ih => exact ih
  | case3 seen next rest entry hentry hseen ih =>
    have hmem := (replaces_mem hentry).1
    simp only [map_cons, stripCr_configLine h hmem]
    rw [updatedLines, replaces_configLine h hmem]
    simp only [hseen, Bool.false_eq_true, if_false, ih]
  | case4 seen next rest hkept ih =>
    have hstripped : updates.replaces (stripCr next) = none := by
      rw [← hkept, replaces, replaces, parse_stripCr]
    rw [map_cons, updatedLines, hstripped, ih]

def unlines (ls : List (List Char)) : List Char := ls.flatMap (· ++ ['\n'])

theorem render_eq (existing : List Char) (updates : ConfigMap) :
    renderConfigWithUpdates existing updates =
      unlines (updates.updatedLines [] (lines existing)) := by
  unfold renderConfigWithUpdates
  generalize updates.updatedLines [] (lines existing) = ls
  induction ls with
  | nil => rfl
  | cons line ls ih =>
    cases ls with
    | nil => simp [joinLines, unlines]
    | cons next ls => simpa [joinLines, unlines] using ih

theorem lines_unlines (h : ∀ line ∈ ls, '\n' ∉ line) :
    lines (unlines ls) = ls.map stripCr := by
  induction ls with
  | nil => rfl
  | cons line ls ih =>
    have hrest := lines_cons (h line mem_cons_self) (unlines ls)
    rw [ih fun other hother => h other (mem_cons_of_mem _ hother)] at hrest
    simpa [unlines] using hrest

theorem unlines_stripped :
    unlines (ls.map stripCr) = unlines ls ↔ ∀ line ∈ ls, stripCr line = line := by
  induction ls with
  | nil => simp
  | cons line ls ih =>
    rcases stripCr_eq line with hline | hline
    · have hcons : unlines ((line :: ls).map stripCr) = unlines (line :: ls) ↔
          unlines (ls.map stripCr) = unlines ls := by
        simp [unlines, hline]
      rw [hcons, ih]
      simp [hline]
    · have hne : stripCr line ≠ line := fun heq => by
        rw [heq] at hline
        simpa using congrArg length hline
      have hcut : unlines ((line :: ls).map stripCr) ≠ unlines (line :: ls) := by
        simp only [unlines, map_cons, flatMap_cons]
        conv_rhs => rw [hline]
        simp
      exact iff_of_false hcut fun h => hne (h line mem_cons_self)

theorem not_mem_lines (hline : line ∈ lines text) : '\n' ∉ line := by
  suffices h : ∀ (text front : List Char), '\n' ∉ front → ∀ l ∈ linesFrom front text, '\n' ∉ l from
    h text [] not_mem_nil line hline
  intro text
  induction text with
  | nil =>
    intro front hfront l hl
    unfold linesFrom at hl
    split at hl <;> simp_all
  | cons c text ih =>
    intro front hfront l hl
    unfold linesFrom at hl
    split at hl
    · rcases mem_cons.mp hl with rfl | hl
      · exact fun hmem => hfront ((stripCr_sublist front).subset hmem)
      · exact ih [] not_mem_nil l hl
    · exact ih (front ++ [c]) (by simp_all [eq_comm]) l hl

/-- The lines of the new text, and those of the old one that no update names. -/
def OthersKept (existing rendered : List Char) (updates : ConfigMap) : Prop :=
  ∃ ls, (∀ line ∈ ls, '\n' ∉ line) ∧ rendered = unlines ls ∧
    ls.filter (fun line => (updates.replaces line).isNone) =
      (lines existing).filter fun line => (updates.replaces line).isNone

theorem not_mem_rendered (h : updates.Written) {existing : List Char}
    (hline : line ∈ updates.updatedLines [] (lines existing)) : '\n' ∉ line := by
  rcases mem_updatedLines hline with ⟨hold, -⟩ | ⟨entry, hentry, rfl⟩
  · exact not_mem_lines hold
  · exact not_mem_configLine h hentry

theorem lines_render (h : updates.Written) (existing : List Char) :
    lines (renderConfigWithUpdates existing updates) =
      (updates.updatedLines [] (lines existing)).map stripCr := by
  rw [render_eq, lines_unlines fun line => not_mem_rendered h]

theorem parse_render (h : updates.Written) (existing key : List Char) :
    parseConfigMapFromContent (renderConfigWithUpdates existing updates) key =
      (updates.get key).or (parseConfigMapFromContent existing key) := by
  have hentries (ls : List (List Char)) : entriesOf (ls.map stripCr) = entriesOf ls := by
    rw [entriesOf, filterMap_map]
    exact filterMap_congr fun line _ => parse_stripCr line
  rw [parseConfigMap_eq, lines_render h, hentries, final_updatedLines h, ← parseConfigMap_eq]
  cases updates.get key <;> simp

theorem render_again_iff (h : updates.Written) (existing : List Char) :
    renderConfigWithUpdates (renderConfigWithUpdates existing updates) updates =
        renderConfigWithUpdates existing updates ↔
      ∀ line ∈ lines existing, updates.replaces line = none → line.getLast? ≠ some '\r' := by
  have hstrip (line : List Char) : stripCr line = line ↔ line.getLast? ≠ some '\r' := by
    unfold stripCr
    split
    · rename_i hcr
      have hne : line ≠ [] := fun hnil => by simp [hnil] at hcr
      refine iff_of_false (fun heq => ?_) (not_not_intro hcr)
      have hlength := congrArg length heq
      have hpos := length_pos_iff.mpr hne
      rw [length_dropLast] at hlength
      omega
    · simp_all
  rw [render_eq (renderConfigWithUpdates existing updates), lines_render h,
    updatedLines_stripped h, render_eq, unlines_stripped]
  constructor
  · intro hall line hline hkept
    refine (hstrip line).mp (hall line ?_)
    have hfilter : line ∈ (lines existing).filter fun line =>
        (updates.replaces line).isNone := by simp [hline, hkept]
    rw [← filter_updatedLines h []] at hfilter
    exact (mem_filter.mp hfilter).1
  · intro hall line hline
    rcases mem_updatedLines hline with ⟨hold, hkept⟩ | ⟨entry, hentry, rfl⟩
    · exact (hstrip line).mpr (hall line hold hkept)
    · exact stripCr_configLine h hentry

/-- The readers agree on files whose repeated keys are settled, and the writer on those of whose
kept lines none ends in a carriage return. -/
theorem configuration_agrees_iff (existing : List Char) (h : updates.Written) :
    ((∀ key, trimmed key = key →
        loadConfigValueFromContent existing key = parseConfigMapFromContent existing key) ∧
      (∀ key, parseConfigMapFromContent (renderConfigWithUpdates existing updates) key =
        (updates.get key).or (parseConfigMapFromContent existing key)) ∧
      OthersKept existing (renderConfigWithUpdates existing updates) updates ∧
      renderConfigWithUpdates (renderConfigWithUpdates existing updates) updates =
        renderConfigWithUpdates existing updates) ↔
    Settled existing ∧
      ∀ line ∈ lines existing, updates.replaces line = none → line.getLast? ≠ some '\r' := by
  rw [readers_agree_iff, render_again_iff h]
  have hkept : OthersKept existing (renderConfigWithUpdates existing updates) updates :=
    ⟨_, fun line hline => not_mem_rendered h hline, render_eq existing updates,
      filter_updatedLines h [] _⟩
  simp [parse_render h, hkept]

theorem first_configuration :
    renderConfigWithUpdates "a = 2\n".toList ⟨[(['a'], ['2'])], by decide⟩ = "a = 2\n".toList :=
  ((configuration_agrees_iff [] (show Written ⟨[(['a'], ['2'])], by decide⟩ by
    unfold Written; decide)).mpr
    ⟨fun key _ => rfl, by decide⟩).2.2.2

theorem repeated_key_disagrees :
    ¬ ∀ existing key, Text.trimmed key = key →
      loadConfigValueFromContent existing key = parseConfigMapFromContent existing key := by
  intro hall
  have h := hall "model = first\nmodel = second\n".toList "model".toList (by decide)
  revert h
  decide

end ColossalCode.Ui
