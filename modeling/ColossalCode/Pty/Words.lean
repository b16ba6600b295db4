import Mathlib.Data.List.Basic

/-! The words of a shell's command line, and their splitting. -/
namespace ColossalCode.Shell
open List Option

def singleQuote : Char := Char.ofNat 0x27

def doubleQuote : Char := Char.ofNat 0x22

def backslash : Char := Char.ofNat 0x5C

/-- A word is written as a sequence of quoted and unquoted parts. -/
inductive Fragment where
  | bare (c : Char)
  | single (text : List Char)
  | double (text : List Char)
  | escaped (c : Char)

abbrev Word := List Fragment

namespace Fragment

def written : Fragment → List Char
  | bare c => [c]
  | single text => singleQuote :: text ++ [singleQuote]
  | double text => doubleQuote :: text ++ [doubleQuote]
  | escaped c => [backslash, c]

def meaning : Fragment → List Char
  | bare c | escaped c => [c]
  | single text | double text => text

/-- What each kind of quoting can hold; `plain` are the characters that need none. -/
def Proper (plain : Char → Bool) : Fragment → Prop
  | bare c => plain c = true
  | single text => ∀ c ∈ text, c ≠ singleQuote
  | double text => ∀ c ∈ text, c ≠ doubleQuote ∧ c ≠ backslash ∧ c ≠ '$' ∧ c ≠ Char.ofNat 0x60
  | escaped c => c ≠ '\n'

theorem Proper.mono {plain plain' : Char → Bool} (h : ∀ c, plain c = true → plain' c = true)
    {f : Fragment} (hf : f.Proper plain) : f.Proper plain' := by
  cases f with
  | bare c => exact h c hf
  | single text => exact hf
  | double text => exact hf
  | escaped c => exact hf

end Fragment

namespace Word

def written (w : Word) : List Char := w.flatMap Fragment.written

def meaning (w : Word) : List Char := w.flatMap Fragment.meaning

/-- A text without any quoting. -/
def ofText (text : List Char) : Word := text.map .bare

@[simp] theorem written_append (v w : Word) : written (v ++ w) = written v ++ written w :=
  flatMap_append

@[simp] theorem meaning_append (v w : Word) : meaning (v ++ w) = meaning v ++ meaning w :=
  flatMap_append

@[simp] theorem written_ofText (text : List Char) : written (ofText text) = text := by
  induction text with
  | nil => rfl
  | cons c text ih => exact congrArg (c :: ·) ih

@[simp] theorem meaning_ofText (text : List Char) : meaning (ofText text) = text := by
  induction text with
  | nil => rfl
  | cons c text ih => exact congrArg (c :: ·) ih

end Word

def isSpace (c : Char) : Bool := c = ' ' || c = '\t' || c = '\n'

def isPlain (c : Char) : Bool :=
  !isSpace c && c ≠ singleQuote && c ≠ doubleQuote && c ≠ backslash

/-- A word that is no comment. -/
def IsWord (w : Word) : Prop :=
  w ≠ [] ∧ (∀ f ∈ w, f.Proper isPlain) ∧ w.written.head? ≠ some '#'

/-- A text made of the given words: blanks, tabs and newlines separate them, and nothing else. -/
inductive Words : List Char → List (List Char) → Prop where
  | nil {blanks : List Char} (h : ∀ c ∈ blanks, isSpace c = true) : Words blanks []
  | cons {blanks : List Char} {w : Word} {rest : List Char} {values : List (List Char)}
      (hblanks : ∀ c ∈ blanks, isSpace c = true) (hword : IsWord w)
      (hrest : rest.head?.all isSpace = true) (h : Words rest values) :
      Words (blanks ++ w.written ++ rest) (w.meaning :: values)

/-- `shlex::split` splits words as a shell does. -/
def SplitsWords (split : List Char → Option (List (List Char))) : Prop :=
  ∀ text values, Words text values → split text = some values

inductive Place where
  | words
  | single
  | double
  | doubleEscaped
  | escaped
  | comment
deriving DecidableEq

/-- The words so far, the word that is being read and what it is in. -/
structure Splitter where
  words : List (List Char) := []
  word : Option (List Char) := none
  place : Place := .words

namespace Splitter

def push (s : Splitter) (text : List Char) (place : Place) : Splitter :=
  { s with word := some (s.word.getD [] ++ text), place := place }

def read (s : Splitter) (c : Char) : Splitter :=
  match s.place with
  | .words =>
    if isSpace c then { s with words := s.words ++ s.word.toList, word := none }
    else if c = '#' ∧ s.word = none then { s with place := .comment }
    else if c = singleQuote then s.push [] .single
    else if c = doubleQuote then s.push [] .double
    else if c = backslash then { s with place := .escaped }
    else s.push [c] .words
  | .single => if c = singleQuote then { s with place := .words } else s.push [c] .single
  | .double =>
    if c = doubleQuote then { s with place := .words }
    else if c = backslash then { s with place := .doubleEscaped }
    else s.push [c] .double
  | .doubleEscaped =>
    if c = '\n' then { s with place := .double }
    else if c = '$' ∨ c = Char.ofNat 0x60 ∨ c = doubleQuote ∨ c = backslash then s.push [c] .double
    else s.push [backslash, c] .double
  | .escaped => if c = '\n' then { s with place := .words } else s.push [c] .words
  | .comment => if c = '\n' then { s with place := .words } else s

def finish (s : Splitter) : Option (List (List Char)) :=
  if s.place = .words ∨ s.place = .comment then some (s.words ++ s.word.toList) else none

variable (words : List (List Char))

theorem read_single (word text : List Char)
    (h : ∀ c ∈ text, c ≠ singleQuote) : text.foldl read ⟨words, some word, .single⟩ =
      ⟨words, some (word ++ text), .single⟩ := by
  induction text generalizing word with
  | nil => simp
  | cons c text ih =>
    rw [forall_mem_cons] at h
    have hread : read ⟨words, some word, .single⟩ c = ⟨words, some (word ++ [c]), .single⟩ :=
      if_neg h.1
    rw [foldl_cons, hread, ih (word ++ [c]) h.2, append_assoc]
    rfl

theorem read_double (word text : List Char) (h : ∀ c ∈ text, c ≠ doubleQuote ∧ c ≠ backslash) :
    text.foldl read ⟨words, some word, .double⟩ = ⟨words, some (word ++ text), .double⟩ := by
  induction text generalizing word with
  | nil => simp
  | cons c text ih =>
    rw [forall_mem_cons] at h
    have hread : read ⟨words, some word, .double⟩ c = ⟨words, some (word ++ [c]), .double⟩ :=
      (if_neg h.1.1).trans (if_neg h.1.2)
    rw [foldl_cons, hread, ih (word ++ [c]) h.2, append_assoc]
    rfl

theorem read_fragment (word : Option (List Char)) {f : Fragment}
    (hproper : f.Proper isPlain) (hcomment : word = none → f.written.head? ≠ some '#') :
    f.written.foldl read ⟨words, word, .words⟩ =
      ⟨words, some (word.getD [] ++ f.meaning), .words⟩ := by
  cases f with
  | bare c =>
    have hplain : isPlain c = true := hproper
    simp only [isPlain, Bool.and_eq_true, Bool.not_eq_true', decide_eq_true_eq, ne_eq] at hplain
    obtain ⟨⟨⟨hspace, hsingle⟩, hdouble⟩, hbackslash⟩ := hplain
    have hhash : ¬ (c = '#' ∧ word = none) := fun h => hcomment h.2 (by rw [h.1]; rfl)
    have hspace : ¬ isSpace c = true := by rw [hspace]; exact Bool.false_ne_true
    exact (if_neg hspace).trans ((if_neg hhash).trans ((if_neg hsingle).trans
      ((if_neg hdouble).trans (if_neg hbackslash))))
  | single text =>
    have hopen : read ⟨words, word, .words⟩ singleQuote =
        ⟨words, some (word.getD [] ++ []), .single⟩ := rfl
    have htext := read_single words (word.getD [] ++ []) text hproper
    simp only [Fragment.written, cons_append, foldl_cons, foldl_append]
    rw [hopen, htext, append_nil]
    rfl
  | double text =>
    have hopen : read ⟨words, word, .words⟩ doubleQuote =
        ⟨words, some (word.getD [] ++ []), .double⟩ := rfl
    have htext := read_double words (word.getD [] ++ []) text fun c hc =>
      ⟨(hproper c hc).1, (hproper c hc).2.1⟩
    simp only [Fragment.written, cons_append, foldl_cons, foldl_append]
    rw [hopen, htext, append_nil]
    rfl
  | escaped c =>
    have hopen : read ⟨words, word, .words⟩ backslash = ⟨words, word, .escaped⟩ := rfl
    have hescaped : read ⟨words, word, .escaped⟩ c = ⟨words, some (word.getD [] ++ [c]), .words⟩ :=
      if_neg hproper
    simp only [Fragment.written, foldl_cons, foldl_nil]
    rw [hopen, hescaped]
    rfl

theorem read_fragments (word : List Char) {w : Word}
    (h : ∀ f ∈ w, f.Proper isPlain) : w.written.foldl read ⟨words, some word, .words⟩ =
      ⟨words, some (word ++ w.meaning), .words⟩ := by
  induction w generalizing word with
  | nil => simp [Word.written, Word.meaning]
  | cons f w ih =>
    rw [forall_mem_cons] at h
    have hfirst := read_fragment words (some word) h.1 (by simp)
    simp only [Word.written, Word.meaning, flatMap_cons, foldl_append] at ih ⊢
    rw [hfirst, ih _ h.2, getD_some, append_assoc]

theorem written_ne_nil (f : Fragment) : f.written ≠ [] := by
  cases f <;> simp [Fragment.written]

theorem read_word {w : Word} (h : IsWord w) :
    w.written.foldl read ⟨words, none, .words⟩ = ⟨words, some w.meaning, .words⟩ := by
  obtain ⟨hsome, hproper, hcomment⟩ := h
  cases w with
  | nil => exact absurd rfl hsome
  | cons f w =>
    rw [forall_mem_cons] at hproper
    have hhead : f.written.head? ≠ some '#' := by
      cases htext : f.written with
      | nil => exact absurd htext (written_ne_nil f)
      | cons c text => simpa [Word.written, htext] using hcomment
    have hfirst := read_fragment words none hproper.1 fun _ => hhead
    have hrest := read_fragments words f.meaning hproper.2
    simp only [Word.written, Word.meaning, flatMap_cons, foldl_append] at hrest ⊢
    rw [hfirst]
    exact hrest

theorem read_blanks {blanks : List Char} (h : ∀ c ∈ blanks, isSpace c = true) :
    blanks.foldl read ⟨words, none, .words⟩ = ⟨words, none, .words⟩ := by
  induction blanks with
  | nil => rfl
  | cons c blanks ih =>
    rw [forall_mem_cons] at h
    have hread : read ⟨words, none, .words⟩ c = ⟨words, none, .words⟩ := by
      refine (if_pos h.1).trans ?_
      rw [toList_none, append_nil]
    rw [foldl_cons, hread]
    exact ih h.2

/-- A word is complete where a blank or the end follows it. -/
theorem read_rest (word : List Char) {rest : List Char} (h : rest.head?.all isSpace = true) :
    (rest.foldl read ⟨words, some word, .words⟩).finish =
      (rest.foldl read ⟨words ++ [word], none, .words⟩).finish := by
  cases rest with
  | nil => simp [finish]
  | cons c rest =>
    have hspace : isSpace c = true := h
    have hword : read ⟨words, some word, .words⟩ c = ⟨words ++ [word], none, .words⟩ :=
      if_pos hspace
    have hnone : read ⟨words ++ [word], none, .words⟩ c = ⟨words ++ [word], none, .words⟩ := by
      refine (if_pos hspace).trans ?_
      rw [toList_none, append_nil]
    rw [foldl_cons, foldl_cons, hword, hnone]

theorem read_words {text : List Char} {values : List (List Char)} (h : Words text values) :
    ∀ words, (text.foldl read ⟨words, none, .words⟩).finish = some (words ++ values) := by
  induction h with
  | nil hblanks =>
    intro words
    rw [read_blanks words hblanks]
    simp [finish]
  | @cons blanks w rest values hblanks hword hrest h ih =>
    intro words
    rw [foldl_append, foldl_append, read_blanks words hblanks, read_word words hword,
      read_rest words w.meaning hrest, ih, append_assoc]
    rfl

end Splitter

/-- What `shlex::split` does. -/
def shlexSplit (text : List Char) : Option (List (List Char)) :=
  (text.foldl Splitter.read {}).finish

theorem shlexSplit_splits : SplitsWords shlexSplit := fun _ _ h =>
  (Splitter.read_words h []).trans (congrArg some (nil_append _))

end ColossalCode.Shell
