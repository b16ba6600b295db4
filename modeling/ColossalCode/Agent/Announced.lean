import ColossalCode.Agent.Recorded
import Mathlib.Data.List.Nodup

/-! What a turn announces of its tool calls, before any of them is made. -/
namespace ColossalCode.Agent
open List Option Prod Turn

variable {tags : ThinkingTags}

/-- A name and arguments, as a call is announced and as it is made. -/
def CalledFunction.named (function : CalledFunction) : String × String :=
  (function.name, function.arguments)

def AgentMessage.started? : AgentMessage → Option (String × String)
  | .toolCallStarted name arguments => some (name, arguments)
  | _ => none

/-- The calls that messages announce. -/
def announced (sent : List AgentMessage) : List (String × String) :=
  sent.filterMap AgentMessage.started?

/-- The tool calls in the chunks of a stream, up to its end. -/
def fragments : List Response → List ToolCallResponse
  | .chunk choices :: responses =>
    ((choices.head?.bind (·.delta.toolCalls)).getD []) ++ fragments responses
  | .other :: responses => fragments responses
  | _ => []

/-- The tool calls of the response at the end of a stream. -/
def finalCalls : List Response → List ToolCallResponse
  | .chunk _ :: responses => finalCalls responses
  | .other :: responses => finalCalls responses
  | .done choices :: _ => (choices.head?.bind (·.message.toolCalls)).getD []
  | _ => []

/-- The fragments of a call all have the same arguments. -/
def SameArguments (fs : List ToolCallResponse) : Prop :=
  ∀ c ∈ fs, ∀ d ∈ fs, c.index = d.index → c.function.arguments = d.function.arguments

/-- The first fragment of a call. -/
def firstOf (index : Nat) (fs : List ToolCallResponse) : Option ToolCallResponse :=
  fs.find? fun c => c.index = index

/-- The last fragment of a call. -/
def lastOf (index : Nat) (fs : List ToolCallResponse) : Option ToolCallResponse :=
  firstOf index fs.reverse

/-- The calls in the chunks of a stream each have their arguments from the first fragment on, and at
last the name that they had at first; if the chunks have none, those at its end are different
calls. -/
def AnnouncedOnce (responses : List Response) : Prop :=
  if fragments responses = [] then ((finalCalls responses).map (·.index)).Nodup
  else SameArguments (fragments responses) ∧
    ∀ index, (firstOf index (fragments responses)).map (·.function.name) =
      (lastOf index (fragments responses)).map (·.function.name)

def AgentMessage.isText : AgentMessage → Bool
  | .thinkingContent _ _ => true
  | .agentResponse _ _ => true
  | _ => false

/-- From one state to the other, nothing but text is sent. -/
def Splitter.Speaks (s s' : Splitter) : Prop :=
  ∃ messages, s'.sent = s.sent ++ messages ∧ ∀ m ∈ messages, m.isText = true

section Speaks

variable {s s' s'' : Splitter} {messages : List AgentMessage}

theorem Splitter.Speaks.refl (s : Splitter) : s.Speaks s :=
  ⟨[], (append_nil _).symm, fun m hm => by cases hm⟩

theorem Splitter.Speaks.trans (h : s.Speaks s') (h' : s'.Speaks s'') : s.Speaks s'' := by
  obtain ⟨ms, hsent, htext⟩ := h
  obtain ⟨ms', hsent', htext'⟩ := h'
  refine ⟨ms ++ ms', ?_, fun m hm => ?_⟩
  · rw [hsent', hsent, append_assoc]
  · rcases mem_append.mp hm with hm | hm
    · exact htext m hm
    · exact htext' m hm

theorem speaks_of_sent (h : s'.sent = s.sent ++ messages)
    (htext : ∀ m ∈ messages, m.isText = true) :
    s.Speaks s' :=
  ⟨messages, h, htext⟩

theorem lastThinking_text (text : List Char) :
    ∀ m ∈ Splitter.lastThinking text, m.isText = true := by
  intro m hm
  unfold Splitter.lastThinking at hm
  split at hm
  · cases hm
  · obtain rfl := mem_singleton.mp hm
    rfl

theorem thinkingPieces_text (text : List Char) :
    ∀ m ∈ Splitter.thinkingPieces text, m.isText = true := by
  intro m hm
  obtain ⟨piece, -, rfl⟩ := mem_map.mp hm
  rfl

theorem think_speaks (s : Splitter) (closeTag chunk : List Char) :
    s.Speaks (s.think closeTag chunk) := by
  unfold Splitter.think
  split
  · exact .refl s
  · dsimp only
    split
    · rename_i endIdx _
      have hlast := lastThinking_text ((s.thinkingBuffer ++ chunk).take endIdx)
      split
      · refine speaks_of_sent (append_assoc ..) fun m hm => ?_
        rcases mem_append.mp hm with hm | hm
        · exact hlast m hm
        · obtain rfl := mem_singleton.mp hm
          rfl
      · exact speaks_of_sent rfl hlast
    · split
      · exact speaks_of_sent rfl (thinkingPieces_text _)
      · exact .refl s

theorem respond_speaks (s : Splitter) (chunk : List Char) : s.Speaks (s.respond chunk) := by
  unfold Splitter.respond
  split
  · exact .refl s
  · refine speaks_of_sent rfl fun m hm => ?_
    obtain rfl := mem_singleton.mp hm
    rfl

theorem content_speaks (s : Splitter) (chunk : List Char) : s.Speaks (s.content tags chunk) := by
  unfold Splitter.content
  split
  · exact .refl s
  · split
    · dsimp only
      split
      · exact .refl s
      · exact think_speaks { s with
          allowThinkingStart := false, inThinking := true, pendingPrefix := [] } _ _
      · split
        · exact think_speaks { s with allowThinkingStart := false, pendingPrefix := [] } _ _
        · exact respond_speaks { s with allowThinkingStart := false, pendingPrefix := [] } _
    · split
      · exact think_speaks s _ _
      · exact respond_speaks s _

theorem interrupt_speaks (s : Splitter) : s.Speaks s.interrupt := by
  unfold Splitter.interrupt
  split
  · refine speaks_of_sent rfl fun m hm => ?_
    obtain rfl := mem_singleton.mp hm
    rfl
  · exact .refl s

theorem flush_speaks (s : Splitter) : s.Speaks s.flush := by
  unfold Splitter.flush
  dsimp only
  generalize hs' : (if s.pendingPrefix.isEmpty then s else _ : Splitter) = s'
  have hpending : s.Speaks s' := by
    subst hs'
    split
    · exact .refl s
    · refine speaks_of_sent rfl fun m hm => ?_
      obtain rfl := mem_singleton.mp hm
      rfl
  split
  · exact hpending.trans (speaks_of_sent rfl (lastThinking_text _))
  · exact hpending

/-- Text announces nothing. -/
theorem announced_append (sent sent' : List AgentMessage) :
    announced (sent ++ sent') = announced sent ++ announced sent' :=
  filterMap_append ..

theorem Splitter.Speaks.announced (h : s.Speaks s') : announced s'.sent = announced s.sent := by
  obtain ⟨ms, hsent, htext⟩ := h
  have hnone : Agent.announced ms = [] := by
    refine filterMap_eq_nil_iff.mpr fun m hm => ?_
    have hm := htext m hm
    cases m with
    | toolCallStarted name arguments => cases hm
    | _ => rfl
  rw [hsent, announced_append, hnone, append_nil]

end Speaks

section InsertAt

variable {κ α : Type} [DecidableEq κ] {key other : κ} {value : α} {entries : List (κ × α)}

theorem lookup_cons (key : κ) (entry : κ × α) (entries : List (κ × α)) :
    (entry :: entries).lookup key = if key = entry.1 then some entry.2 else entries.lookup key := by
  obtain ⟨k, value⟩ := entry
  by_cases h : key = k
  · subst h
    simp
  · have hne : (key == k) = false := by simpa using h
    rw [if_neg h, List.lookup_cons, hne]

theorem lookup_insertAt : (insertAt key value entries).lookup other =
    if other = key then some value else entries.lookup other := by
  induction entries with
  | nil => exact lookup_cons other (key, value) []
  | cons entry entries ih =>
    unfold insertAt
    split
    · rename_i hkey
      rw [lookup_cons, lookup_cons, hkey]
      split <;> rfl
    · rename_i hkey
      rw [lookup_cons, ih, lookup_cons]
      by_cases hother : other = entry.1
      · rw [if_pos hother, if_pos hother, if_neg (hother ▸ hkey)]
      · rw [if_neg hother, if_neg hother]

/-- A new key comes last. -/
theorem insertAt_new (h : entries.lookup key = none) :
    insertAt key value entries = entries ++ [(key, value)] := by
  induction entries with
  | nil => rfl
  | cons entry entries ih =>
    rw [lookup_cons] at h
    by_cases hkey : key = entry.1
    · rw [if_pos hkey] at h
      cases h
    · rw [if_neg hkey] at h
      unfold insertAt
      rw [if_neg (Ne.symm hkey), ih h]
      rfl

/-- A key that is there keeps its place. -/
theorem keys_insertAt (h : entries.lookup key ≠ none) :
    (insertAt key value entries).map fst = entries.map fst := by
  induction entries with
  | nil => exact absurd rfl h
  | cons entry entries ih =>
    unfold insertAt
    split
    · rename_i hkey
      rw [map_cons, map_cons, hkey]
    · rename_i hkey
      rw [lookup_cons, if_neg (Ne.symm hkey)] at h
      rw [map_cons, map_cons, ih h]

theorem lookup_eq_none : entries.lookup key = none ↔ key ∉ entries.map fst := by
  simp only [lookup_eq_none_iff, List.mem_map, bne_iff_ne, not_exists, not_and, ne_comm, ne_eq]

theorem lookup_of_mem (hnodup : (entries.map fst).Nodup) {entry : κ × α}
    (h : entry ∈ entries) : entries.lookup entry.1 = some entry.2 := by
  induction entries with
  | nil => cases h
  | cons head entries ih =>
    rw [map_cons, nodup_cons] at hnodup
    rw [lookup_cons]
    rcases mem_cons.mp h with rfl | h
    · exact if_pos rfl
    · have hne : entry.1 ≠ head.1 := fun heq => hnodup.1 (heq ▸ mem_map_of_mem h)
      rw [if_neg hne]
      exact ih hnodup.2 h

end InsertAt

theorem nodup_snoc {α : Type} {xs : List α} {x : α} : (xs ++ [x]).Nodup ↔ xs.Nodup ∧ x ∉ xs := by
  rw [← concat_eq_append, nodup_concat, and_comm]

/-- What a turn holds of the fragments so far, and what it has announced of them. -/
structure Announces (fs : List ToolCallResponse) (calls : List (Nat × ToolCallResponse))
    (names : List (String × String)) : Prop where
  nodup : (calls.map fst).Nodup
  last : ∀ index, calls.lookup index = lastOf index fs
  fewer : calls.length ≤ names.length
  same : calls.length = names.length ↔ SameArguments fs
  first : calls.length = names.length →
    (calls.map fst).map (fun index => (firstOf index fs).map (·.function.named)) =
      names.map some

section Fragments

variable {fs : List ToolCallResponse} {calls : List (Nat × ToolCallResponse)}
  {names : List (String × String)} {call : ToolCallResponse}

theorem announces_nil : Announces [] [] [] where
  nodup := nodup_nil
  last _ := rfl
  fewer := Nat.le_refl _
  same := iff_of_true rfl fun c hc => by cases hc
  first _ := rfl

theorem firstOf_append (index : Nat) (fs gs : List ToolCallResponse) :
    firstOf index (fs ++ gs) = (firstOf index fs).or (firstOf index gs) :=
  List.find?_append

theorem lastOf_concat (index : Nat) (fs : List ToolCallResponse) (call : ToolCallResponse) :
    lastOf index (fs ++ [call]) = if call.index = index then some call else lastOf index fs := by
  unfold lastOf firstOf
  rw [reverse_append, reverse_singleton, singleton_append, List.find?_cons]
  by_cases h : call.index = index
  · rw [if_pos h]
    simp [h]
  · rw [if_neg h]
    simp [h]

variable {index : Nat} {c previous : ToolCallResponse}

theorem firstOf_eq_none : firstOf index fs = none ↔ ∀ c ∈ fs, c.index ≠ index := by
  unfold firstOf
  rw [List.find?_eq_none]
  constructor
  · intro h c hc heq
    exact h c hc (by simpa using heq)
  · intro h c hc heq
    exact h c hc (by simpa using heq)

theorem lastOf_eq_none : lastOf index fs = none ↔ ∀ c ∈ fs, c.index ≠ index := by
  unfold lastOf
  rw [firstOf_eq_none]
  constructor
  · intro h c hc
    exact h c (mem_reverse.mpr hc)
  · intro h c hc
    exact h c (mem_reverse.mp hc)

theorem firstOf_some (h : firstOf index fs = some c) :
    c ∈ fs ∧ c.index = index :=
  ⟨mem_of_find?_eq_some h, by simpa using List.find?_some h⟩

theorem lastOf_some (h : lastOf index fs = some c) :
    c ∈ fs ∧ c.index = index := by
  obtain ⟨hmem, hindex⟩ := firstOf_some h
  exact ⟨mem_reverse.mp hmem, hindex⟩

theorem sameArguments_new (h : lastOf call.index fs = none) :
    SameArguments (fs ++ [call]) ↔ SameArguments fs := by
  have hother := lastOf_eq_none.mp h
  constructor
  · intro hsame c hc d hd
    exact hsame c (mem_append_left _ hc) d (mem_append_left _ hd)
  · intro hsame c hc d hd hindex
    rcases mem_append.mp hc with hbefore | hnew
    · rcases mem_append.mp hd with hbefore' | hnew
      · exact hsame c hbefore d hbefore' hindex
      · obtain rfl := mem_singleton.mp hnew
        exact absurd hindex (hother c hbefore)
    · obtain rfl := mem_singleton.mp hnew
      rcases mem_append.mp hd with hbefore | hnew
      · exact absurd hindex.symm (hother d hbefore)
      · obtain rfl := mem_singleton.mp hnew
        rfl

theorem sameArguments_again (h : lastOf call.index fs = some previous) :
    SameArguments (fs ++ [call]) ↔
      SameArguments fs ∧ previous.function.arguments = call.function.arguments := by
  obtain ⟨hmem, hindex⟩ := lastOf_some h
  have hcall : call ∈ fs ++ [call] := mem_append_right _ (mem_singleton_self call)
  constructor
  · intro hsame
    exact ⟨fun c hc d hd => hsame c (mem_append_left _ hc) d (mem_append_left _ hd),
      hsame previous (mem_append_left _ hmem) call hcall hindex⟩
  · rintro ⟨hsame, harguments⟩ c hc d hd hsameIndex
    have hof : ∀ c ∈ fs, c.index = call.index → c.function.arguments = call.function.arguments :=
      fun c hc hc' => (hsame c hc previous hmem (hc'.trans hindex.symm)).trans harguments
    rcases mem_append.mp hc with hbefore | hnew
    · rcases mem_append.mp hd with hbefore' | hnew
      · exact hsame c hbefore d hbefore' hsameIndex
      · obtain rfl := mem_singleton.mp hnew
        exact hof c hbefore hsameIndex
    · obtain rfl := mem_singleton.mp hnew
      rcases mem_append.mp hd with hbefore | hnew
      · exact (hof d hbefore hsameIndex.symm).symm
      · obtain rfl := mem_singleton.mp hnew
        rfl

/-- A call that is held has a first fragment, and keeps it. -/
theorem Announces.first_append (h : Announces fs calls names) (call : ToolCallResponse) :
    (calls.map fst).map (fun index => (firstOf index (fs ++ [call])).map (·.function.named)) =
      (calls.map fst).map fun index => (firstOf index fs).map (·.function.named) := by
  refine map_congr_left fun index hindex => ?_
  have hlast : lastOf index fs ≠ none := by
    rw [← h.last]
    exact fun hnone => lookup_eq_none.mp hnone hindex
  have hfirst : firstOf index fs ≠ none :=
    fun hnone => hlast (lastOf_eq_none.mpr (firstOf_eq_none.mp hnone))
  obtain ⟨c, hc⟩ := ne_none_iff_exists'.mp hfirst
  rw [firstOf_append, hc]
  rfl

theorem Announces.last_insert (h : Announces fs calls names)
    (call : ToolCallResponse) (index : Nat) :
    (insertAt call.index call calls).lookup index = lastOf index (fs ++ [call]) := by
  rw [lookup_insertAt, lastOf_concat, h.last]
  by_cases hindex : index = call.index
  · rw [if_pos hindex, if_pos hindex.symm]
  · rw [if_neg hindex, if_neg (Ne.symm hindex)]

/-- The first fragment of a call is announced. -/
theorem Announces.addNew (h : Announces fs calls names) (hnew : calls.lookup call.index = none) :
    Announces (fs ++ [call]) (insertAt call.index call calls) (names ++ [call.function.named]) := by
  have hlast : lastOf call.index fs = none := (h.last _).symm.trans hnew
  have hfirst : firstOf call.index fs = none := firstOf_eq_none.mpr (lastOf_eq_none.mp hlast)
  have hfewer := h.fewer
  refine ⟨?_, h.last_insert call, ?_, ?_, fun hlength => ?_⟩
  · rw [insertAt_new hnew, map_append, map_singleton]
    exact nodup_snoc.mpr ⟨h.nodup, lookup_eq_none.mp hnew⟩
  · rw [insertAt_new hnew, length_append, length_append]
    exact Nat.add_le_add_right hfewer 1
  · rw [insertAt_new hnew, length_append, length_append,
      sameArguments_new hlast, ← h.same]
    exact Nat.add_right_cancel_iff
  · rw [insertAt_new hnew, length_append, length_append] at hlength
    have hbefore := h.first (Nat.add_right_cancel hlength)
    have hcall : (firstOf call.index (fs ++ [call])).map (·.function.named) =
        some call.function.named := by
      rw [firstOf_append, hfirst]
      simp [firstOf]
    rw [insertAt_new hnew, map_append, map_append, map_append,
      h.first_append, hbefore,
      map_singleton, map_singleton, map_singleton, hcall]

/-- A later fragment is announced if it has other arguments. -/
theorem Announces.addAgain (h : Announces fs calls names)
    (hagain : calls.lookup call.index = some previous) :
    Announces (fs ++ [call]) (insertAt call.index call calls) (names ++
      if previous.function.arguments = call.function.arguments then []
      else [call.function.named]) := by
  have hlast : lastOf call.index fs = some previous := (h.last _).symm.trans hagain
  have hkeys : (insertAt call.index call calls).map fst = calls.map fst :=
    keys_insertAt (hagain ▸ some_ne_none _)
  have hlength : (insertAt call.index call calls).length = calls.length := by
    have hmap := congrArg List.length hkeys
    rwa [length_map, length_map] at hmap
  have hfewer := h.fewer
  refine ⟨hkeys ▸ h.nodup, h.last_insert call, ?_, ?_, ?_⟩
  · rw [hlength, length_append]
    omega
  · rw [hlength, sameArguments_again hlast, ← h.same]
    split
    · rename_i harguments
      rw [append_nil]
      exact (and_iff_left harguments).symm
    · rename_i harguments
      refine iff_of_false ?_ fun hsame => harguments hsame.2
      rw [length_append, length_singleton]
      omega
  · rw [hlength, hkeys, h.first_append]
    split
    · rw [append_nil]
      exact h.first
    · intro hsame
      rw [length_append, length_singleton] at hsame
      omega

/-- What is announced first is made of the first fragments. -/
theorem Announces.names_eq_iff (h : Announces fs calls names)
    (hlength : calls.length = names.length) :
    names = calls.map (fun entry => entry.2.function.named) ↔
      ∀ entry ∈ calls, (firstOf entry.1 fs).map (·.function.named) =
        some entry.2.function.named := by
  have hfirst := h.first hlength
  rw [List.map_map] at hfirst
  constructor
  · intro heq
    rw [heq, List.map_map] at hfirst
    exact List.map_inj_left.mp hfirst
  · intro hentries
    apply List.map_injective_iff.mpr fun _ _ => Option.some.inj
    rw [← hfirst, List.map_map]
    exact List.map_congr_left hentries

/-- The calls are announced as they are made if and only if their fragments agree. -/
theorem Announces.exact (h : Announces fs calls names) :
    names = calls.map (fun entry => entry.2.function.named) ↔ SameArguments fs ∧
      ∀ index, (firstOf index fs).map (·.function.name) = (lastOf index fs).map
        (·.function.name) := by
  constructor
  · intro heq
    have hlength : calls.length = names.length := by rw [heq, length_map]
    have hentries := (h.names_eq_iff hlength).mp heq
    refine ⟨h.same.mp hlength, fun index => ?_⟩
    by_cases hindex : index ∈ calls.map fst
    · obtain ⟨entry, hentry, rfl⟩ := mem_map.mp hindex
      have hlast : lastOf entry.1 fs = some entry.2 :=
        (h.last _).symm.trans (lookup_of_mem h.nodup hentry)
      have hnamed := hentries entry hentry
      obtain ⟨c, hc, hcall⟩ := map_eq_some_iff.mp hnamed
      rw [hc, hlast]
      exact congrArg some (congrArg fst hcall)
    · have hlast : lastOf index fs = none := (h.last _).symm.trans (lookup_eq_none.mpr hindex)
      have hfirst : firstOf index fs = none := firstOf_eq_none.mpr (lastOf_eq_none.mp hlast)
      rw [hfirst, hlast]
  · rintro ⟨hsame, hnames⟩
    refine (h.names_eq_iff (h.same.mpr hsame)).mpr fun entry hentry => ?_
    have hlast : lastOf entry.1 fs = some entry.2 :=
      (h.last _).symm.trans (lookup_of_mem h.nodup hentry)
    obtain ⟨hmem, hindex⟩ := lastOf_some hlast
    have hname := hnames entry.1
    rw [hlast] at hname
    obtain ⟨c, hc, hcname⟩ := map_eq_some_iff.mp hname
    obtain ⟨hcmem, hcindex⟩ := firstOf_some hc
    have harguments := hsame c hcmem entry.2 hmem (hcindex.trans hindex.symm)
    rw [hc, map_some, CalledFunction.named, CalledFunction.named, hcname, harguments]

end Fragments

/-- What a turn holds of the calls at the end of its stream, each of which it announces. -/
structure Concludes (given : List ToolCallResponse)
    (calls : List (Nat × ToolCallResponse)) : Prop where
  nodup : (calls.map fst).Nodup
  known : ∀ index, calls.lookup index ≠ none ↔ index ∈ given.map (·.index)
  fewer : calls.length ≤ given.length
  distinct : calls.length = given.length ↔ (given.map (·.index)).Nodup
  whole : calls.length = given.length → calls = given.map fun call => (call.index, call)

section Concludes

variable {given : List ToolCallResponse} {calls : List (Nat × ToolCallResponse)}

theorem concludes_nil : Concludes [] [] where
  nodup := nodup_nil
  known _ := iff_of_false (fun h => h rfl) not_mem_nil
  fewer := Nat.le_refl _
  distinct := iff_of_true rfl nodup_nil
  whole _ := rfl

theorem Concludes.add (h : Concludes given calls) (call : ToolCallResponse) :
    Concludes (given ++ [call]) (insertAt call.index call calls) := by
  have hknown : ∀ index, (insertAt call.index call calls).lookup index ≠ none ↔
      index ∈ (given ++ [call]).map (·.index) := by
    intro index
    rw [lookup_insertAt, map_append, mem_append, ← h.known, map_singleton,
      mem_singleton]
    by_cases hindex : index = call.index
    · rw [if_pos hindex]
      exact iff_of_true (some_ne_none _) (.inr hindex)
    · rw [if_neg hindex]
      exact (or_iff_left hindex).symm
  have hnodup : ((given ++ [call]).map (·.index)).Nodup ↔
      (given.map (·.index)).Nodup ∧ call.index ∉ given.map (·.index) := by
    rw [map_append]
    exact nodup_snoc
  have hfewer := h.fewer
  by_cases hnew : calls.lookup call.index = none
  · have hfree : call.index ∉ given.map (·.index) := fun hmem => (h.known _).mpr hmem hnew
    refine ⟨?_, hknown, ?_, ?_, fun hlength => ?_⟩
    · rw [insertAt_new hnew, map_append]
      exact nodup_snoc.mpr ⟨h.nodup, lookup_eq_none.mp hnew⟩
    · rw [insertAt_new hnew, length_append, length_append]
      exact Nat.add_le_add_right hfewer 1
    · rw [insertAt_new hnew, length_append, length_append, hnodup, ← h.distinct]
      exact Nat.add_right_cancel_iff.trans (and_iff_left hfree).symm
    · rw [insertAt_new hnew, length_append, length_append] at hlength
      rw [insertAt_new hnew, h.whole (Nat.add_right_cancel hlength), map_append]
      rfl
  · have hkeys : (insertAt call.index call calls).map fst = calls.map fst :=
      keys_insertAt hnew
    have hlength : (insertAt call.index call calls).length = calls.length := by
      have hmap := congrArg List.length hkeys
      rwa [length_map, length_map] at hmap
    refine ⟨hkeys ▸ h.nodup, hknown, ?_, ?_, ?_⟩
    · rw [hlength, length_append]
      omega
    · rw [hlength, hnodup, length_append, length_singleton]
      exact iff_of_false (by omega) fun hdistinct => hdistinct.2 ((h.known _).mp hnew)
    · rw [hlength, length_append, length_singleton]
      intro hsame
      omega

theorem Concludes.exact (h : Concludes given calls) :
    given.map (·.function.named) = calls.map (fun entry => entry.2.function.named) ↔
      (given.map (·.index)).Nodup := by
  rw [← h.distinct]
  constructor
  · intro heq
    have hlength := congrArg List.length heq
    rw [List.length_map, List.length_map] at hlength
    exact hlength.symm
  · intro hlength
    rw [h.whole hlength, List.map_map]
    rfl

end Concludes

section Turn

variable {t : Turn} {fs : List ToolCallResponse}

def Turn.Follows (t : Turn) (fs : List ToolCallResponse) : Prop :=
  Announces fs t.accumulatedToolCalls (announced t.splitter.sent)

variable {calls : List (Nat × ToolCallResponse)} {names : List (String × String)}

theorem Announces.eq_nil_iff (h : Announces fs calls names) : calls = [] ↔ fs = [] := by
  constructor
  · rintro rfl
    cases fs with
    | nil => rfl
    | cons c fs =>
      have hlast : lastOf c.index (c :: fs) = none := (h.last _).symm
      exact absurd rfl (lastOf_eq_none.mp hlast c mem_cons_self)
  · rintro rfl
    cases calls with
    | nil => rfl
    | cons entry calls =>
      have hlookup := h.last entry.1
      rw [lookup_cons, if_pos rfl] at hlookup
      cases hlookup

theorem Announces.names_nil (h : Announces [] calls names) : names = [] := by
  have hsame : SameArguments [] := fun c hc => by cases hc
  have hlength := h.same.mpr hsame
  rw [h.eq_nil_iff.mpr rfl] at hlength
  exact length_eq_zero_iff.mp hlength.symm

theorem init_follows : init.Follows [] := announces_nil

theorem Turn.Follows.speaks {s : Splitter} (h : t.Follows fs) (hs : t.splitter.Speaks s) :
    Turn.Follows { t with splitter := s } fs := by
  unfold Turn.Follows at *
  rw [hs.announced]
  exact h

theorem announced_started (t : Turn) (call : ToolCallResponse) :
    announced (t.send [started call]).splitter.sent =
      announced t.splitter.sent ++ [call.function.named] :=
  announced_append ..

theorem toolCall_follows (h : t.Follows fs) (call : ToolCallResponse) :
    (t.toolCall call).Follows (fs ++ [call]) := by
  unfold toolCall
  dsimp only
  cases hlookup : t.accumulatedToolCalls.lookup call.index with
  | none =>
    rw [map_none, all_none, if_pos rfl, Turn.Follows, announced_started]
    exact Announces.addNew h hlookup
  | some previous =>
    have hadd := Announces.addAgain h hlookup
    rw [map_some, all_some]
    by_cases hsame : previous.function.arguments = call.function.arguments
    · rw [if_pos hsame, append_nil] at hadd
      rw [if_neg (by simpa using hsame)]
      exact hadd
    · rw [if_neg hsame] at hadd
      rw [if_pos (by simpa using hsame), Turn.Follows, announced_started]
      exact hadd

theorem toolCalls_follows (h : t.Follows fs) (calls : List ToolCallResponse) :
    (calls.foldl toolCall t).Follows (fs ++ calls) := by
  induction calls generalizing t fs with
  | nil =>
    rw [append_nil]
    exact h
  | cons call calls ih =>
    have hrest := ih (toolCall_follows h call)
    rw [append_assoc, singleton_append] at hrest
    exact hrest

theorem delta_follows (h : t.Follows fs) (delta : Delta) :
    (t.delta tags delta).Follows (fs ++ delta.toolCalls.getD []) := by
  unfold Turn.delta
  split
  · rename_i htoolCalls
    rw [htoolCalls]
    exact toolCalls_follows (h.speaks (interrupt_speaks _)) _
  · rename_i hnone _
    rw [hnone, getD_none, append_nil]
    exact h.speaks (content_speaks _ _)
  · rename_i hnone _
    rw [hnone, getD_none, append_nil]
    exact h

/-- The calls at the end of a stream are announced one by one. -/
theorem conclude_calls {given : List ToolCallResponse} (h : Concludes given t.accumulatedToolCalls)
    (hnames : announced t.splitter.sent = given.map (·.function.named))
    (calls : List ToolCallResponse) :
    let u := calls.foldl (fun t call => { t with
      accumulatedToolCalls := insertAt call.index call t.accumulatedToolCalls }.send
        [started call]) t
    Concludes (given ++ calls) u.accumulatedToolCalls ∧
      announced u.splitter.sent = (given ++ calls).map (·.function.named) := by
  induction calls generalizing t given with
  | nil =>
    rw [append_nil]
    exact ⟨h, hnames⟩
  | cons call calls ih =>
    have hrest := ih (t := { t with
      accumulatedToolCalls := insertAt call.index call t.accumulatedToolCalls }.send
        [started call]) (h.add call) (by
      rw [announced_started, map_append, ← hnames]
      rfl)
    rw [append_assoc, singleton_append] at hrest
    exact hrest

variable (responses : List Response)

/-- What a stream makes of a turn. -/
theorem read_follows (h : t.Follows fs) :
    (fs ++ fragments responses ≠ [] →
      (Turn.read tags responses t).Follows (fs ++ fragments responses)) ∧
    (fs ++ fragments responses = [] →
      Concludes (finalCalls responses) (Turn.read tags responses t).accumulatedToolCalls ∧
      announced (Turn.read tags responses t).splitter.sent =
        (finalCalls responses).map (·.function.named)) := by
  have hnothing : ∀ {t : Turn} {fs}, t.Follows fs → fs = [] →
      Concludes [] t.accumulatedToolCalls ∧ announced t.splitter.sent = [] := by
    rintro t fs h rfl
    have hcalls := h.eq_nil_iff.mpr rfl
    exact ⟨hcalls ▸ concludes_nil, h.names_nil⟩
  have hfailed : ∀ {t : Turn} {fs} (message : String), t.Follows fs →
      (t.send [.error message]).Follows fs := by
    intro t fs message h
    have hannounced : announced (t.send [.error message]).splitter.sent =
        announced t.splitter.sent ++ [] := announced_append ..
    rw [Turn.Follows, hannounced, append_nil]
    exact h
  induction responses generalizing t fs with
  | nil =>
    have hfragments : fragments [] = [] := rfl
    rw [hfragments, append_nil]
    exact ⟨fun _ => h, hnothing h⟩
  | cons response responses ih =>
    cases response with
    | chunk choices =>
      unfold Turn.read fragments finalCalls
      cases hchoice : choices.head? with
      | none => exact ih h
      | some choice =>
        have hdelta : (t.delta tags choice.delta).Follows (fs ++ choice.delta.toolCalls.getD []) :=
          delta_follows h choice.delta
        have hrest := ih hdelta
        rw [append_assoc] at hrest
        exact hrest
    | done choices =>
      unfold Turn.read fragments finalCalls
      rw [append_nil]
      refine ⟨fun hfs => ?_, fun hfs => ?_⟩
      · have hcalls : ¬ t.accumulatedToolCalls.isEmpty = true :=
          fun hempty => hfs (h.eq_nil_iff.mp (isEmpty_iff.mp hempty))
        rw [Turn.done, if_neg hcalls]
        exact h
      · obtain ⟨hcalls, hnames⟩ := hnothing h hfs
        have hempty : t.accumulatedToolCalls.isEmpty = true :=
          isEmpty_iff.mpr (h.eq_nil_iff.mpr hfs)
        rw [Turn.done, if_pos hempty]
        cases choices.head?.bind (·.message.toolCalls) with
        | none => exact ⟨hcalls, hnames⟩
        | some toolCalls => exact conclude_calls hcalls hnames toolCalls
    | internalError error | validationError error | modelError message =>
      unfold Turn.read fragments finalCalls
      rw [append_nil]
      exact ⟨fun _ => hfailed _ h, hnothing (hfailed _ h)⟩
    | other => exact ih h

theorem Turn.map_calls (t : Turn) : t.calls.map (·.function.named) =
    t.accumulatedToolCalls.map fun entry => entry.2.function.named :=
  map_map

/-- A turn announces each of its calls, exactly as it is made if and only if its fragments agree. -/
theorem turn_announced :
    (announced (readTurn tags responses).splitter.sent =
        (readTurn tags responses).calls.map (·.function.named) ↔ AnnouncedOnce responses) ∧
      (readTurn tags responses).calls.length ≤
        (announced (readTurn tags responses).splitter.sent).length ∧
      ((readTurn tags responses).calls = [] →
        announced (readTurn tags responses).splitter.sent = []) := by
  obtain ⟨hsome, hnone⟩ := @read_follows tags _ _ responses init_follows
  rw [nil_append] at hsome hnone
  have hsent : announced (readTurn tags responses).splitter.sent =
      announced (read tags responses .init).splitter.sent := (flush_speaks _).announced
  have hcalls : (readTurn tags responses).accumulatedToolCalls =
      (read tags responses .init).accumulatedToolCalls := rfl
  rw [hsent, map_calls, calls, hcalls, length_map, map_eq_nil_iff]
  by_cases hfragments : fragments responses = []
  · obtain ⟨hconcludes, hnames⟩ := hnone hfragments
    rw [hnames, AnnouncedOnce, if_pos hfragments, length_map]
    refine ⟨hconcludes.exact, hconcludes.fewer, fun hempty => ?_⟩
    cases hfinal : finalCalls responses with
    | nil => rfl
    | cons call calls =>
      have hknown := (hconcludes.known call.index).mpr (by simp [hfinal])
      rw [hempty] at hknown
      exact absurd rfl hknown
  · have hfollows := hsome hfragments
    rw [AnnouncedOnce, if_neg hfragments]
    exact ⟨hfollows.exact, hfollows.fewer,
      fun hempty => absurd (hfollows.eq_nil_iff.mp hempty) hfragments⟩

/-- A message that is sent while a stream is read. -/
def AgentMessage.ofTurn : AgentMessage → Bool
  | .toolCallCompleted _ _ => false
  | .done => false
  | _ => true

def Turn.Quiet (t : Turn) : Prop := ∀ m ∈ t.splitter.sent, m.ofTurn = true

theorem Turn.Quiet.speaks {s : Splitter} (h : t.Quiet) (hs : t.splitter.Speaks s) :
    Turn.Quiet { t with splitter := s } := by
  obtain ⟨ms, hsent, htext⟩ := hs
  intro m hm
  dsimp only at hm
  rw [hsent] at hm
  rcases mem_append.mp hm with hm | hm
  · exact h m hm
  · have hm := htext m hm
    cases m with
    | thinkingContent | agentResponse => rfl
    | _ => cases hm

theorem Turn.Quiet.send {message : AgentMessage} (h : t.Quiet) (hmessage : message.ofTurn = true) :
    (t.send [message]).Quiet := by
  intro m hm
  rcases mem_append.mp hm with hm | hm
  · exact h m hm
  · obtain rfl := mem_singleton.mp hm
    exact hmessage

theorem foldl_quiet {f : Turn → ToolCallResponse → Turn} (h : t.Quiet)
    (hf : ∀ t call, t.Quiet → (f t call).Quiet) (calls : List ToolCallResponse) :
    (calls.foldl f t).Quiet := by
  induction calls generalizing t with
  | nil => exact h
  | cons call calls ih => exact ih (hf t call h)

theorem toolCall_quiet (t : Turn) (call : ToolCallResponse)
    (h : t.Quiet) : (t.toolCall call).Quiet := by
  unfold toolCall
  dsimp only
  split
  · exact Turn.Quiet.send h rfl
  · exact h

theorem delta_quiet (h : t.Quiet) (delta : Delta) : (t.delta tags delta).Quiet := by
  unfold Turn.delta
  split
  · exact foldl_quiet (h.speaks (interrupt_speaks _)) toolCall_quiet _
  · exact h.speaks (content_speaks _ _)
  · exact h

theorem done_quiet (h : t.Quiet) (choices : List Choice) : (t.done choices).Quiet := by
  unfold Turn.done
  split
  · split
    · refine foldl_quiet h (fun t call ht => ?_) _
      have hstarted : (started call).ofTurn = true := rfl
      exact Turn.Quiet.send ht hstarted
    · exact h
  · exact h

theorem read_quiet (h : t.Quiet) :
    (Turn.read tags responses t).Quiet := by
  induction responses generalizing t with
  | nil => exact h
  | cons response responses ih =>
    cases response with
    | chunk choices =>
      unfold Turn.read
      split
      · exact ih (delta_quiet h _)
      · exact ih h
    | done choices => exact done_quiet h choices
    | internalError error | validationError error | modelError message => exact h.send rfl
    | other => exact ih h

/-- A turn ends nothing and completes no call. -/
theorem turn_quiet : (readTurn tags responses).Quiet := by
  have hinit : init.Quiet := fun m hm => by cases hm
  exact (read_quiet responses hinit).speaks (flush_speaks _)

end Turn

end ColossalCode.Agent
