import ColossalCode.Pty.Words

/-! The environment updates that are read off a command line. -/
namespace ColossalCode.Shell
open List Option Word Words

def shellSingleQuote (value : List Char) : List Char :=
  singleQuote :: (value.flatMap fun c =>
    if c = singleQuote then [singleQuote, doubleQuote, singleQuote, doubleQuote, singleQuote]
    else [c]) ++ [singleQuote]

def isValidEnvVarName : List Char → Bool
  | [] => false
  | c :: rest => (c = '_' || c.isAlpha) && rest.all fun c => c = '_' || c.isAlphanum

/-- A variable with its new value, or without one where it is unset. -/
abbrev Update := List Char × Option (List Char)

inductive Mode where
  | idle
  | exports
  | unsets
deriving DecidableEq

/-- `token.split_once('=')`. -/
def splitOnce (token : List Char) : Option (List Char × List Char) :=
  match token.dropWhile (· ≠ '=') with
  | [] => none
  | _ :: value => some (token.takeWhile (· ≠ '='), value)

/-- One token in the loop. -/
def readToken (mode : Mode) (token : List Char) : Mode × Option Update :=
  if token = "export".toList then (.exports, none)
  else if token = "unset".toList then (.unsets, none)
  else if token = [';'] ∨ token = ['&', '&'] ∨ token = ['|', '|'] ∨ token = ['|'] then
    (.idle, none)
  else
    match mode with
    | .exports => (.exports, (splitOnce token).bind fun assigned =>
        if isValidEnvVarName assigned.1 then some (assigned.1, some assigned.2) else none)
    | .unsets => (.unsets, if isValidEnvVarName token then some (token, none) else none)
    | .idle => (.idle, none)

def track : Mode → List (List Char) → List Update
  | _, [] => []
  | mode, token :: tokens =>
    (readToken mode token).2.toList ++ track (readToken mode token).1 tokens

def trackedEnvUpdatesFromCommand (split : List Char → Option (List (List Char)))
    (command : List Char) : List Update :=
  match split command with
  | some tokens => track .idle tokens
  | none => []

example : trackedEnvUpdatesFromCommand shlexSplit "export A=1 B=2 && unset A".toList =
    [(['A'], some ['1']), (['B'], some ['2']), (['A'], none)] := by decide

structure Name where
  text : List Char
  valid : isValidEnvVarName text = true

/-- What a shell takes as it stands in a word. -/
def needsNoQuotes (c : Char) : Bool := c.isAlphanum || c ∈ "_@%+=:,./-".toList

structure Quoted where
  word : Word
  proper : ∀ f ∈ word, f.Proper needsNoQuotes

inductive Blank where
  | space
  | tab

inductive Space where
  | blank (b : Blank)
  | newline

def Blank.char : Blank → Char
  | space => ' '
  | tab => '\t'

def Space.char : Space → Char
  | blank b => b.char
  | newline => '\n'

/-- One blank or several. -/
structure Gap where
  first : Blank
  more : List Blank

def Gap.written (g : Gap) : List Char := (g.first :: g.more).map Blank.char

inductive Statement where
  | exports (gap : Gap) (name : Name) (value : Quoted)
  | unsets (gap : Gap) (name : Name)

namespace Statement

def mode : Statement → Mode
  | exports _ _ _ => .exports
  | unsets _ _ => .unsets

def verb : Statement → List Char
  | exports _ _ _ => "export".toList
  | unsets _ _ => "unset".toList

def gap : Statement → Gap
  | exports gap _ _ | unsets gap _ => gap

def object : Statement → Word
  | exports _ name value => ofText (name.text ++ ['=']) ++ value.word
  | unsets _ name => ofText name.text

def written (s : Statement) : List Char := s.verb ++ s.gap.written ++ s.object.written

/-- What the shell does. -/
def update : Statement → Update
  | exports _ name value => (name.text, some value.word.meaning)
  | unsets _ name => (name.text, none)

end Statement

inductive Separator where
  | semicolon
  | and
  | newline
deriving DecidableEq

def Separator.written : Separator → List Char
  | semicolon => [';']
  | and => ['&', '&']
  | newline => ['\n']

structure Joint where
  separator : Separator
  before : List Blank
  after : List Space

def Joint.written (j : Joint) : List Char :=
  j.before.map Blank.char ++ j.separator.written ++ j.after.map Space.char

def restWritten : List (Joint × Statement) → List Char
  | [] => []
  | (j, s) :: rest => j.written ++ s.written ++ restWritten rest

/-- Statements with what joins them. -/
structure Command where
  first : Statement
  rest : List (Joint × Statement)

namespace Command

def written (c : Command) : List Char := c.first.written ++ restWritten c.rest

/-- Each statement succeeds, so that `&&` holds none of them back. -/
def updates (c : Command) : List Update := c.first.update :: c.rest.map (·.2.update)

end Command

/-- The words from the object of a statement on: what stands without a blank is one word. -/
def objectWords (object : Word) : List (Joint × Statement) → List Word
  | [] => [object]
  | (j, s) :: rest =>
    if j.separator = .newline then object :: ofText s.verb :: objectWords s.object rest
    else if j.before.isEmpty then
      if j.after.isEmpty then
        (object ++ ofText (j.separator.written ++ s.verb)) :: objectWords s.object rest
      else
        (object ++ ofText j.separator.written) :: ofText s.verb ::
          objectWords s.object rest
    else if j.after.isEmpty then
      object :: ofText (j.separator.written ++ s.verb) :: objectWords s.object rest
    else
      object :: ofText j.separator.written :: ofText s.verb :: objectWords s.object rest

theorem ne_of_alphanum {c d : Char} (h : (c = '_' || c.isAlphanum) = true)
    (hd : (d = '_' || d.isAlphanum) = false) : c ≠ d := by
  rintro rfl
  exact Bool.false_ne_true (hd.symm.trans h)

theorem plain_of_alphanum {c : Char} (h : (c = '_' || c.isAlphanum) = true) :
    isPlain c = true := by
  simp only [isPlain, isSpace, Bool.and_eq_true, Bool.not_eq_true', Bool.or_eq_false_iff,
    decide_eq_true_eq, decide_eq_false_iff_not]
  exact ⟨⟨⟨⟨⟨ne_of_alphanum h (by decide), ne_of_alphanum h (by decide)⟩,
    ne_of_alphanum h (by decide)⟩, ne_of_alphanum h (by decide)⟩,
    ne_of_alphanum h (by decide)⟩, ne_of_alphanum h (by decide)⟩

theorem plain_of_needsNoQuotes (c : Char) (h : needsNoQuotes c = true) : isPlain c = true := by
  rcases Bool.or_eq_true_iff.mp h with halnum | hmark
  · exact plain_of_alphanum (by rw [halnum, Bool.or_true])
  · have hmarks : "_@%+=:,./-".toList.all isPlain = true := by decide
    exact all_eq_true.mp hmarks c (of_decide_eq_true hmark)

theorem alphanum_of_valid {name : List Char} (h : isValidEnvVarName name = true) :
    ∀ c ∈ name, (c = '_' || c.isAlphanum) = true := by
  cases name with
  | nil => cases h
  | cons c name =>
    rw [isValidEnvVarName, Bool.and_eq_true] at h
    have hfirst : (c = '_' || c.isAlphanum) = true := by
      rw [Char.isAlphanum, ← Bool.or_assoc, h.1, Bool.true_or]
    rw [forall_mem_cons]
    exact ⟨hfirst, all_eq_true.mp h.2⟩

namespace Name

theorem plain (name : Name) : name.text.all (fun c => isPlain c && c ≠ '#') = true := by
  rw [List.all_eq_true]
  intro c hc
  have halnum := alphanum_of_valid name.valid c hc
  rw [plain_of_alphanum halnum, Bool.true_and]
  exact decide_eq_true (ne_of_alphanum halnum (by decide))

theorem ne_nil (name : Name) : name.text ≠ [] := by
  intro h
  have := name.valid
  rw [h] at this
  cases this

end Name

variable {text : List Char} {values : List (List Char)} {token : List Char}

theorem isWord_ofText (hsome : text ≠ [])
    (h : text.all (fun c => isPlain c && c ≠ '#') = true) : IsWord (ofText text) := by
  have hplain : ∀ c ∈ text, isPlain c = true ∧ c ≠ '#' := by simpa using h
  refine ⟨by simpa [ofText] using hsome, ?_, ?_⟩
  · intro f hf
    obtain ⟨c, hc, rfl⟩ := mem_map.mp hf
    exact (hplain c hc).1
  · rw [written_ofText]
    intro hhead
    exact (hplain '#' (mem_of_mem_head? hhead)).2 rfl

theorem IsWord.append {v w : Word} (hv : IsWord v) (hw : ∀ f ∈ w, f.Proper isPlain) :
    IsWord (v ++ w) := by
  obtain ⟨hsome, hproper, hcomment⟩ := hv
  refine ⟨by simp [hsome], ?_, ?_⟩
  · intro f hf
    rcases mem_append.mp hf with hleft | hright
    · exact hproper f hleft
    · exact hw f hright
  · intro hhead
    apply hcomment
    cases htext : v.written with
    | nil =>
      cases v with
      | nil => exact absurd rfl hsome
      | cons f v =>
        simp only [written, flatMap_cons, append_eq_nil_iff] at htext
        exact absurd htext.1 (Splitter.written_ne_nil f)
    | cons c text => simpa [htext] using hhead

namespace Statement

theorem object_isWord (s : Statement) : IsWord s.object := by
  cases s with
  | exports gap name value =>
    have hname : IsWord (ofText (name.text ++ ['='])) := by
      refine isWord_ofText (by simp) ?_
      rw [all_append, name.plain]
      rfl
    exact hname.append fun f hf => (value.proper f hf).mono plain_of_needsNoQuotes
  | unsets gap name => exact isWord_ofText name.ne_nil name.plain

theorem verb_plain (s : Statement) : s.verb.all (fun c => isPlain c && c ≠ '#') = true := by
  cases s <;> rfl

end Statement

theorem Words.word {w : Word} {rest : List Char} (hword : IsWord w)
    (hrest : rest.head?.all isSpace = true) (h : Words rest values) :
    Words (w.written ++ rest) (w.meaning :: values) :=
  @Words.cons [] w rest values (by simp) hword hrest h

theorem Words.spaced {blanks text : List Char}
    (hblanks : ∀ c ∈ blanks, isSpace c = true) (h : Words text values) :
    Words (blanks ++ text) values := by
  have hboth : ∀ {more : List Char}, (∀ c ∈ more, isSpace c = true) →
      ∀ c ∈ blanks ++ more, isSpace c = true := by
    intro more hmore c hc
    rcases mem_append.mp hc with hleft | hright
    · exact hblanks c hleft
    · exact hmore c hright
  cases h with
  | nil hmore => exact .nil (hboth hmore)
  | cons hmore hword hrest h =>
    rw [← append_assoc, ← append_assoc]
    exact .cons (hboth hmore) hword hrest h

theorem blanks_space (blanks : List Blank) : ∀ c ∈ blanks.map Blank.char, isSpace c = true := by
  intro c hc
  obtain ⟨b, -, rfl⟩ := mem_map.mp hc
  cases b <;> rfl

theorem spaces_space (spaces : List Space) : ∀ c ∈ spaces.map Space.char, isSpace c = true := by
  intro c hc
  obtain ⟨b, -, rfl⟩ := mem_map.mp hc
  rcases b with ⟨⟨⟩⟩ | ⟨⟩ <;> rfl

theorem head_space {blanks : List Char} (h : ∀ c ∈ blanks, isSpace c = true) (hsome : blanks ≠ [])
    (text : List Char) : (blanks ++ text).head?.all isSpace = true := by
  cases blanks with
  | nil => exact absurd rfl hsome
  | cons c blanks => exact h c mem_cons_self

/-- A verb, with what is written in front of it, is a word. -/
theorem words_verb {lead : List Char} (hlead : lead.all (fun c => isPlain c && c ≠ '#') = true)
    (s : Statement) (h : Words (s.object.written ++ text) values) :
    Words (lead ++ s.written ++ text) ((lead ++ s.verb) :: values) := by
  have hverb : IsWord (ofText (lead ++ s.verb)) := by
    refine isWord_ofText (by cases s <;> simp [Statement.verb]) ?_
    rw [all_append, hlead, s.verb_plain]
    rfl
  have hgap := blanks_space (s.gap.first :: s.gap.more)
  have hwords := word hverb (head_space hgap (by simp) _) (spaced hgap h)
  simpa [Statement.written, Gap.written] using hwords

theorem operator_plain {j : Joint} (h : j.separator ≠ .newline) :
    j.separator.written.all (fun c => isPlain c && c ≠ '#') = true := by
  cases hsep : j.separator with
  | semicolon => rfl
  | and => rfl
  | newline => exact absurd hsep h

theorem proper_ofText (h : text.all (fun c => isPlain c && c ≠ '#') = true) :
    ∀ f ∈ ofText text, f.Proper isPlain := by
  intro f hf
  obtain ⟨c, hc, rfl⟩ := mem_map.mp hf
  have hplain := all_eq_true.mp h c hc
  rw [Bool.and_eq_true] at hplain
  exact hplain.1

theorem words_object {object : Word} (hobject : IsWord object) (rest : List (Joint × Statement)) :
    Words (object.written ++ restWritten rest) ((objectWords object rest).map meaning) := by
  induction rest generalizing object with
  | nil => exact word hobject rfl (nil (by simp [restWritten]))
  | cons p rest ih =>
    rcases p with ⟨j, s⟩
    have hstatement := ih s.object_isWord
    have hbefore := blanks_space j.before
    have hafter := spaces_space j.after
    have hverb : Words ([] ++ s.written ++ restWritten rest)
        (([] ++ s.verb) :: (objectWords s.object rest).map meaning) :=
      words_verb rfl s hstatement
    rw [restWritten, objectWords]
    by_cases hline : j.separator = .newline
    · have hblanks : ∀ c ∈ j.written, isSpace c = true := by
        intro c hc
        simp only [Joint.written, hline, Separator.written, mem_append] at hc
        rcases hc with (hleft | hmiddle) | hright
        · exact hbefore c hleft
        · rw [mem_singleton.mp hmiddle]
          rfl
        · exact hafter c hright
      have hsome : j.written ≠ [] := by simp [Joint.written, hline, Separator.written]
      have hwords := word hobject (head_space hblanks hsome _) (spaced hblanks hverb)
      rw [if_pos hline]
      simpa using hwords
    · have hoperator := operator_plain hline
      have hglue := words_verb hoperator s hstatement
      rw [if_neg hline]
      cases hb : j.before with
      | nil =>
        cases ha : j.after with
        | nil =>
          have hproper : ∀ f ∈ ofText (j.separator.written ++ s.verb), f.Proper isPlain := by
            refine proper_ofText ?_
            rw [all_append, hoperator, s.verb_plain]
            rfl
          have hgap := blanks_space (s.gap.first :: s.gap.more)
          have hwords := word (hobject.append hproper) (head_space hgap (by simp) _)
            (spaced hgap hstatement)
          simpa [Joint.written, hb, ha, Statement.written, Gap.written] using hwords
        | cons a after =>
          have hsome : j.after.map Space.char ≠ [] := by simp [ha]
          have hwords := word (hobject.append (proper_ofText hoperator))
            (head_space hafter hsome _) (spaced hafter hverb)
          simpa [Joint.written, hb, ha] using hwords
      | cons b before =>
        have hsome : j.before.map Blank.char ≠ [] := by simp [hb]
        cases ha : j.after with
        | nil =>
          have hwords := word hobject (head_space hbefore hsome _)
            (spaced hbefore hglue)
          simpa [Joint.written, hb, ha] using hwords
        | cons a after =>
          have hsome' : j.after.map Space.char ≠ [] := by simp [ha]
          have hseparator : IsWord (ofText j.separator.written) :=
            isWord_ofText (by cases j.separator <;> simp [Separator.written]) hoperator
          have hwords := word hobject (head_space hbefore hsome _) (spaced hbefore
            (word hseparator (head_space hafter hsome' _) (spaced hafter hverb)))
          simpa [Joint.written, hb, ha] using hwords

theorem Command.words (c : Command) : Words c.written
    (c.first.verb :: (objectWords c.first.object c.rest).map meaning) := by
  have hfirst : Words ([] ++ c.first.written ++ restWritten c.rest)
      (([] ++ c.first.verb) :: (objectWords c.first.object c.rest).map meaning) :=
    words_verb rfl c.first (words_object c.first.object_isWord c.rest)
  simpa [Command.written] using hfirst

variable (mode : Mode)

@[simp] theorem readToken_verb (s : Statement) :
    readToken mode s.verb = (s.mode, none) := by
  cases s <;> rfl

theorem readToken_operator (separator : Separator) (h : separator ≠ .newline) :
    readToken mode separator.written = (.idle, none) := by
  cases separator with
  | semicolon => rfl
  | and => rfl
  | newline => exact absurd rfl h

/-- A verb behind a separator is none. -/
theorem readToken_glue (separator : Separator) (s : Statement)
    (h : separator ≠ .newline) : readToken mode (separator.written ++ s.verb) = (mode, none) := by
  cases separator with
  | semicolon => cases s <;> cases mode <;> rfl
  | and => cases s <;> cases mode <;> rfl
  | newline => exact absurd rfl h

namespace Statement

/-- The variable is not called like one of the two commands. -/
def Ordinary : Statement → Prop
  | exports _ _ _ => True
  | unsets _ name => name.text ≠ "export".toList ∧ name.text ≠ "unset".toList

end Statement

theorem splitOnce_assigned {key : List Char} (h : isValidEnvVarName key = true)
    (value : List Char) : splitOnce (key ++ '=' :: value) = some (key, value) := by
  have hkey : ∀ c ∈ key, decide (c ≠ '=') = true := fun c hc =>
    decide_eq_true (ne_of_alphanum (alphanum_of_valid h c hc) (by decide))
  have hrest : ('=' :: value).dropWhile (· ≠ '=') = '=' :: value := rfl
  have hnone : ('=' :: value).takeWhile (· ≠ '=') = [] := rfl
  rw [splitOnce, dropWhile_append_of_pos hkey, takeWhile_append_of_pos hkey, hrest, hnone,
    append_nil]

theorem readToken_exports (h : '=' ∈ token) : readToken .exports token =
    (.exports, (splitOnce token).bind fun assigned =>
      if isValidEnvVarName assigned.1 then some (assigned.1, some assigned.2) else none) := by
  have hne : ∀ word : List Char, ¬ '=' ∈ word → token ≠ word := by
    rintro word hword rfl
    exact hword h
  refine (if_neg (hne _ (by decide))).trans ((if_neg (hne _ (by decide))).trans (if_neg ?_))
  rintro (heq | heq | heq | heq)
  · exact hne _ (by decide) heq
  · exact hne _ (by decide) heq
  · exact hne _ (by decide) heq
  · exact hne _ (by decide) heq

theorem readToken_unsets (hvalid : isValidEnvVarName token = true)
    (hexport : token ≠ "export".toList) (hunset : token ≠ "unset".toList) :
    readToken .unsets token = (.unsets, some (token, none)) := by
  rw [readToken, if_neg hexport, if_neg hunset, if_neg]
  · exact congrArg (Prod.mk Mode.unsets) (if_pos hvalid)
  · rintro (rfl | rfl | rfl | rfl) <;> cases hvalid

/-- Where an update comes from. -/
theorem readToken_some {mode : Mode} {u : Update} (h : (readToken mode token).2 = some u) :
    (mode = .exports ∧ ∃ value, splitOnce token = some (u.1, value) ∧ u.2 = some value) ∨
      (mode = .unsets ∧ token = u.1 ∧ u.2 = none ∧ token ≠ "export".toList ∧
        token ≠ "unset".toList) := by
  unfold readToken at h
  by_cases hexport : token = "export".toList
  · rw [if_pos hexport] at h
    cases h
  by_cases hunset : token = "unset".toList
  · rw [if_neg hexport, if_pos hunset] at h
    cases h
  rw [if_neg hexport, if_neg hunset] at h
  split at h
  · cases h
  · cases mode with
    | idle => cases h
    | exports =>
      obtain ⟨⟨key, value⟩, hsplit, hkey⟩ := bind_eq_some_iff.mp h
      refine .inl ⟨rfl, value, ?_⟩
      dsimp only at hkey
      split at hkey
      · cases hkey
        exact ⟨hsplit, rfl⟩
      · cases hkey
    | unsets =>
      refine .inr ⟨rfl, ?_⟩
      dsimp only at h
      split at h
      · cases h
        exact ⟨rfl, rfl, hexport, hunset⟩
      · cases h

theorem object_exports (gap : Gap) (name : Name) (value : Quoted) :
    (Statement.exports gap name value).object.meaning = name.text ++ '=' :: value.word.meaning := by
  simp [Statement.object]

theorem object_unsets (gap : Gap) (name : Name) :
    (Statement.unsets gap name).object.meaning = name.text := by
  simp [Statement.object]

theorem readToken_object {s : Statement} (h : s.Ordinary) :
    readToken s.mode s.object.meaning = (s.mode, some s.update) := by
  cases s with
  | exports gap name value =>
    rw [object_exports]
    refine (readToken_exports (by simp)).trans ?_
    rw [splitOnce_assigned name.valid, bind_some, if_pos name.valid]
    rfl
  | unsets gap name =>
    rw [object_unsets]
    exact readToken_unsets name.valid h.1 h.2

/-- Only in its own mode an object is read as its update. -/
theorem readToken_object_iff (s : Statement) :
    (readToken mode s.object.meaning).2 = some s.update ↔ mode = s.mode ∧ s.Ordinary := by
  constructor
  · intro h
    rcases readToken_some h with ⟨hmode, value, -, hvalue⟩ | ⟨hmode, hname, hvalue, hordinary⟩
    · cases s with
      | exports gap name value => exact ⟨hmode, trivial⟩
      | unsets gap name => cases hvalue
    · cases s with
      | exports gap name value => cases hvalue
      | unsets gap name =>
        rw [object_unsets] at hordinary
        exact ⟨hmode, hordinary⟩
  · rintro ⟨rfl, hordinary⟩
    rw [readToken_object hordinary]

/-- With more behind it an object is read as something else. -/
theorem readToken_longer (s : Statement) {more : List Char} (h : more ≠ []) :
    (readToken mode (s.object.meaning ++ more)).2 ≠ some s.update := by
  intro hread
  rcases readToken_some hread with ⟨hmode, value, hsplit, hvalue⟩ | ⟨hmode, hname, hvalue, -⟩
  · cases s with
    | exports gap name quoted =>
      rw [object_exports, append_assoc, cons_append,
        splitOnce_assigned name.valid] at hsplit
      cases hsplit
      have heq : quoted.word.meaning = quoted.word.meaning ++ more := Option.some.inj hvalue
      exact h (append_right_eq_self.mp heq.symm)
    | unsets gap name => cases hvalue
  · cases s with
    | exports gap name quoted => cases hvalue
    | unsets gap name =>
      rw [object_unsets] at hname
      exact h (append_right_eq_self.mp hname)

/-- What a joint makes of the token before it and of the mode behind it. -/
theorem track_next (object : Word) (j : Joint) (s : Statement) (rest : List (Joint × Statement))
    (mode : Mode) : ∃ more mode',
      track mode ((objectWords object ((j, s) :: rest)).map meaning) =
        (readToken mode (object.meaning ++ more)).2.toList ++
          track mode' ((objectWords s.object rest).map meaning) ∧
      (more = [] ↔ j.separator = .newline ∨ j.before ≠ []) ∧
      (j.separator = .newline ∨ j.after ≠ [] → mode' = s.mode) ∧
      (¬ (j.separator = .newline ∨ j.after ≠ []) →
        mode' = (readToken mode (object.meaning ++ more)).1) := by
  rw [objectWords]
  by_cases hline : j.separator = .newline
  · refine ⟨[], s.mode, ?_, by simp [hline], fun _ => rfl, fun h => absurd (.inl hline) h⟩
    simp [hline, track]
  · have hsome : j.separator.written ≠ [] := by cases j.separator <;> simp [Separator.written]
    rw [if_neg hline]
    cases hb : j.before with
    | nil =>
      cases ha : j.after with
      | nil =>
        refine ⟨j.separator.written ++ s.verb, _, ?_, by simp [hline, hsome], by simp [hline],
          fun _ => rfl⟩
        simp [track]
      | cons a after =>
        refine ⟨j.separator.written, s.mode, ?_, by simp [hline, hsome], fun _ => rfl, by simp⟩
        simp [track]
    | cons b before =>
      cases ha : j.after with
      | nil =>
        refine ⟨[], (readToken mode object.meaning).1, ?_, by simp, by simp [hline], by simp⟩
        simp [track, readToken_glue _ _ _ hline]
      | cons a after =>
        refine ⟨[], s.mode, ?_, by simp, fun _ => rfl, by simp⟩
        simp [track, readToken_operator _ _ hline]

theorem track_length (object : Word) (rest : List (Joint × Statement)) (mode : Mode) :
    (track mode ((objectWords object rest).map meaning)).length ≤ rest.length + 1 := by
  have hone : ∀ (mode : Mode) (token : List Char), (readToken mode token).2.toList.length ≤ 1 := by
    intro mode token
    cases (readToken mode token).2 <;> simp
  induction rest generalizing object mode with
  | nil => simp [objectWords, track, hone]
  | cons p rest ih =>
    obtain ⟨more, mode', heq, -⟩ := track_next object p.1 p.2 rest mode
    have hfirst := hone mode (object.meaning ++ more)
    have hrest := ih p.2.object mode'
    rw [heq, length_append, length_cons]
    omega

/-- A joint that leaves the statement before it and the one behind it as they are. -/
def Joint.Clear (j : Joint) (s t : Statement) : Prop :=
  j.separator = .newline ∨ j.before ≠ [] ∧ (j.after ≠ [] ∨ s.mode = t.mode)

/-- All joints are clear, and no variable is called like one of the two commands. -/
def Clear : Statement → List (Joint × Statement) → Prop
  | s, [] => s.Ordinary
  | s, (j, t) :: rest => s.Ordinary ∧ j.Clear s t ∧ Clear t rest

theorem toList_append_iff {α : Type} {o : Option α} {xs ys : List α} {y : α}
    (h : xs.length ≤ ys.length) : o.toList ++ xs = y :: ys ↔ o = some y ∧ xs = ys := by
  cases o with
  | none =>
    refine iff_of_false ?_ (by simp)
    intro heq
    have := congrArg List.length heq
    simp at this
    omega
  | some x => simp

/-- Behind a token that is the object alone the right mode is left exactly by a clear joint. -/
theorem mode_iff {mode mode' : Mode} {j : Joint} {s t : Statement} (later : Prop)
    (hbefore : j.separator = .newline ∨ j.before ≠ [])
    (hown : j.separator = .newline ∨ j.after ≠ [] → mode' = t.mode)
    (hkept : ¬ (j.separator = .newline ∨ j.after ≠ []) →
      mode' = (readToken mode s.object.meaning).1) :
    (mode = s.mode ∧ s.Ordinary) ∧ mode' = t.mode ∧ later ↔
      mode = s.mode ∧ s.Ordinary ∧ j.Clear s t ∧ later := by
  constructor
  · rintro ⟨⟨rfl, hordinary⟩, hmode, hlater⟩
    refine ⟨rfl, hordinary, ?_, hlater⟩
    by_cases hline : j.separator = .newline
    · exact .inl hline
    · refine .inr ⟨hbefore.resolve_left hline, ?_⟩
      by_cases hafter : j.after ≠ []
      · exact .inl hafter
      · rw [hkept (not_or.mpr ⟨hline, hafter⟩), readToken_object hordinary] at hmode
        exact .inr hmode
  · rintro ⟨rfl, hordinary, hclear, hlater⟩
    refine ⟨⟨rfl, hordinary⟩, ?_, hlater⟩
    by_cases hafter : j.separator = .newline ∨ j.after ≠ []
    · exact hown hafter
    · rw [hkept hafter, readToken_object hordinary]
      rw [not_or] at hafter
      exact (hclear.resolve_left hafter.1).2.resolve_left hafter.2

theorem track_iff (s : Statement) (rest : List (Joint × Statement)) :
    track mode ((objectWords s.object rest).map meaning) =
      s.update :: rest.map (·.2.update) ↔ mode = s.mode ∧ Clear s rest := by
  induction rest generalizing mode s with
  | nil =>
    have hlast : (readToken mode s.object.meaning).2.toList ++ [] = s.update :: [] ↔ _ ∧ _ :=
      toList_append_iff (Nat.le_refl 0)
    rw [readToken_object_iff] at hlast
    simpa [objectWords, track, Clear] using hlast
  | cons p rest ih =>
    rcases p with ⟨j, t⟩
    obtain ⟨more, mode', heq, hmore, hown, hkept⟩ := track_next s.object j t rest mode
    have hlength : (track mode' ((objectWords t.object rest).map meaning)).length ≤
        (((j, t) :: rest).map (·.2.update)).length := by
      simpa using track_length t.object rest mode'
    rw [heq, toList_append_iff hlength, map_cons, ih mode' t, Clear]
    by_cases hlonger : more = []
    · subst hlonger
      rw [append_nil] at hkept ⊢
      rw [readToken_object_iff]
      exact mode_iff (Clear t rest) (hmore.mp rfl) hown hkept
    · refine iff_of_false (fun h => readToken_longer mode s hlonger h.1) ?_
      rintro ⟨-, -, hclear, -⟩
      exact hlonger (hmore.mpr (hclear.imp id And.left))

/-- The updates are those of a shell where blanks keep the separators from the words. -/
theorem tracked_updates_iff {split : List Char → Option (List (List Char))} (h : SplitsWords split)
    (c : Command) : trackedEnvUpdatesFromCommand split c.written = c.updates ↔
      Clear c.first c.rest := by
  have htrack : trackedEnvUpdatesFromCommand split c.written =
      track c.first.mode ((objectWords c.first.object c.rest).map meaning) := by
    rw [trackedEnvUpdatesFromCommand, h _ _ c.words]
    simp [track]
  rw [htrack, Command.updates, track_iff]
  exact and_iff_right rfl

/-- `export A='x y' ; export B=1` on one line, and `unset A` on the next. -/
theorem tracked_updates_iff_sample :
    trackedEnvUpdatesFromCommand shlexSplit "export A='x y' ;export B=1\nunset A".toList =
      [("A".toList, some "x y".toList), ("B".toList, some "1".toList), ("A".toList, none)] := by
  have hsingle : ∀ f ∈ [Fragment.single "x y".toList], f.Proper needsNoQuotes := by
    simp [Fragment.Proper, singleQuote]
  exact (tracked_updates_iff shlexSplit_splits
    ⟨.exports ⟨.space, []⟩ ⟨"A".toList, rfl⟩ ⟨[.single "x y".toList], hsingle⟩,
      [(⟨.semicolon, [.space], []⟩, .exports ⟨.space, []⟩ ⟨"B".toList, rfl⟩
          ⟨[.bare '1'], forall_mem_singleton.mpr rfl⟩),
        (⟨.newline, [], []⟩, .unsets ⟨.space, []⟩ ⟨"A".toList, rfl⟩)]⟩).mpr
    ⟨trivial, .inr ⟨by simp, .inr rfl⟩, trivial, .inl rfl, by decide, by decide⟩

/-- A value in single quotes is one word; `text` of it has been read. -/
theorem quoted_word (value : List Char) {text : List Char} (h : ∀ c ∈ text, c ≠ singleQuote) :
    ∃ w : Quoted, w.word.written = singleQuote :: text ++ (shellSingleQuote value).tail ∧
      w.word.meaning = text ++ value := by
  induction value generalizing text with
  | nil =>
    refine ⟨⟨[.single text], forall_mem_singleton.mpr h⟩, ?_⟩
    simp [shellSingleQuote, written, meaning, Fragment.written, Fragment.meaning]
  | cons c value ih =>
    by_cases hc : c = singleQuote
    · obtain ⟨⟨w, hproper⟩, hwritten, hmeaning⟩ := ih (forall_mem_nil _)
      have hquote : (Fragment.double [singleQuote]).Proper needsNoQuotes :=
        forall_mem_singleton.mpr (by decide)
      refine ⟨⟨.single text :: .double [singleQuote] :: w,
        forall_mem_cons.mpr ⟨h, forall_mem_cons.mpr ⟨hquote, hproper⟩⟩⟩, ?_⟩
      simp_all [shellSingleQuote, written, meaning, Fragment.written, Fragment.meaning]
    · obtain ⟨w, hw⟩ := ih (forall_mem_append.mpr ⟨h, forall_mem_singleton.mpr hc⟩)
      refine ⟨w, ?_⟩
      simpa [shellSingleQuote, hc] using hw

/-- The command that restores a variable is read back as that variable with its value. -/
theorem restored_variable_tracked {split : List Char → Option (List (List Char))}
    (h : SplitsWords split) (name : Name) (value : List Char) :
    trackedEnvUpdatesFromCommand split
        ("export ".toList ++ name.text ++ '=' :: shellSingleQuote value) =
      [(name.text, some value)] := by
  obtain ⟨w, hwritten, hmeaning⟩ := quoted_word value (forall_mem_nil _)
  let s : Statement := .exports ⟨.space, []⟩ name w
  have hcommand : Command.written ⟨s, []⟩ =
      "export ".toList ++ name.text ++ '=' :: shellSingleQuote value := by
    simp [s, Command.written, Statement.written, Statement.verb, Gap.written, restWritten,
      Statement.gap, Blank.char, Statement.object, hwritten, shellSingleQuote]
  have hread : readToken .exports s.object.meaning = (.exports, some s.update) :=
    readToken_object trivial
  rw [← hcommand, trackedEnvUpdatesFromCommand, h _ _ (Command.words _)]
  simp [s, track, objectWords, hread, Statement.update, hmeaning, Statement.mode]

theorem restored_variable_tracked_quoted : trackedEnvUpdatesFromCommand shlexSplit
    ("export ".toList ++ "A".toList ++ '=' :: shellSingleQuote "it's $B".toList) =
      [("A".toList, some "it's $B".toList)] :=
  restored_variable_tracked shlexSplit_splits ⟨"A".toList, rfl⟩ "it's $B".toList

theorem glued_separator_lost : ¬ ∀ split, SplitsWords split → ∀ c : Command,
    trackedEnvUpdatesFromCommand split c.written = c.updates := by
  intro hall
  have h := hall shlexSplit shlexSplit_splits
    ⟨.exports ⟨.space, []⟩ ⟨"A".toList, rfl⟩ ⟨[.bare '1'], forall_mem_singleton.mpr rfl⟩,
      [(⟨.semicolon, [], [.blank .space]⟩, .unsets ⟨.space, []⟩ ⟨"B".toList, rfl⟩)]⟩
  revert h
  decide

end ColossalCode.Shell
