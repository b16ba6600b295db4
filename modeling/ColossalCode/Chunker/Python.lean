import ColossalCode.Backend.Utf8
import Mathlib.Data.List.DropRight
import Mathlib.Data.List.Sort

/-! The chunks of a Python file: one pass over the top-level nodes of its syntax tree, with a
comment and a docstring held back for the node that follows them. -/
namespace ColossalCode.Chunker
open Bool List Option

open Text (isWhitespace utf8)

structure Chunk where
  startByte : Nat
  endByte : Nat
  sourceCode : List Char
  fileName : String
  kind : String
  deriving DecidableEq

/-- A top-level node: what it is, what its first child is, and where its text stands. -/
structure Node where
  kind : String
  firstChild : Option String
  startByte : Nat
  endByte : Nat
  text : List Char
  bytes : startByte + (utf8 text).length = endByte

namespace Node

variable (n : Node)

def isDocstringExpression : Bool :=
  n.kind = "expression_statement" && n.firstChild = some "string"

def isComment : Bool := n.kind = "comment"

def isImport : Bool := n.kind = "import_statement" || n.kind = "import_from_statement"

def isExpression : Bool := n.kind = "expression_statement"

/-- The next node is taken into the same chunk. -/
def joins (next : Node) : Bool :=
  (n.isImport && next.isImport || n.isExpression && next.isExpression) && !next.isComment &&
    !next.isDocstringExpression

end Node

structure State where
  currentChunk : List Char
  startByte : Option Nat
  endByte : Nat
  currentKind : String
  isNewChunk : Bool
  commentBuffer : List Char
  commentStartByte : Option Nat
  docBuffer : List Char
  docStartByte : Option Nat
  chunks : List Chunk

namespace State

def init : State := ⟨[], none, 0, "", true, [], none, [], none, []⟩

variable (fileName : String)

/-- The start is there whenever the chunk has text. -/
def push (s : State) : State :=
  { s with
    currentChunk := []
    isNewChunk := true
    chunks := s.chunks ++
      [⟨s.startByte.getD 0, s.endByte, s.currentChunk.rdropWhile isWhitespace, fileName,
        s.currentKind⟩] }

def earliestStart (comment doc : Option Nat) (child : Nat) : Nat :=
  match comment with
  | none => doc.getD child
  | some c =>
    match doc with
    | none => c
    | some d => min c d

def held (start : Option Nat) (buffer : List Char) : List (Nat × List Char) :=
  if buffer = [] then [] else start.toList.map fun start => (start, buffer)

/-- A new chunk begins with what is held back. -/
def begin (s : State) (child : Node) : State :=
  let trivia := held s.commentStartByte s.commentBuffer ++ held s.docStartByte s.docBuffer
  { s with
    startByte := some (earliestStart s.commentStartByte s.docStartByte child.startByte)
    currentKind :=
      if child.isImport then "import_group"
      else if child.isExpression then "expression_group"
      else child.kind
    isNewChunk := false
    currentChunk := s.currentChunk ++
      (trivia.insertionSort fun a b => a.1 ≤ b.1).flatMap fun held => held.2
    commentBuffer := []
    commentStartByte := none
    docBuffer := []
    docStartByte := none }

/-- The kinds of groups go on with their own kind of node only. -/
def leaves (s : State) (child : Node) : Bool :=
  s.currentChunk ≠ [] &&
    !(child.isImport && s.currentKind = "import_group" ||
      child.isExpression && s.currentKind = "expression_group")

/-- A node that is no comment and no docstring. -/
def take (s : State) (child : Node) (next : Option Node) : State :=
  let s := if s.leaves child then s.push fileName else s
  let s := if s.isNewChunk then s.begin child else s
  let s := { s with
    currentChunk := s.currentChunk ++ (child.text ++ ['\n'])
    endByte := child.endByte }
  if next.any child.joins then s
  else if s.currentChunk ≠ [] then s.push fileName
  else s

def step (s : State) (child : Node) (next : Option Node) : State :=
  if child.isComment then
    { s with
      commentBuffer := child.text ++ ['\n']
      commentStartByte := some child.startByte }
  else if child.isDocstringExpression then
    { s with
      docBuffer := child.text ++ ['\n']
      docStartByte := some child.startByte }
  else s.take fileName child next

def run (s : State) : List Node → State
  | [] => s
  | child :: nodes => run (s.step fileName child nodes.head?) nodes

/-- A chunk of what is held back at the end. -/
def last (start : Option Nat) (buffer : List Char) (kind : String) : List Chunk :=
  if buffer = [] then []
  else
    [⟨start.getD 0, start.getD 0 + (utf8 buffer).length - 1, buffer.rdropWhile isWhitespace,
      fileName, kind⟩]

def finish (s : State) : List Chunk :=
  s.chunks ++ last fileName s.commentStartByte s.commentBuffer "comment" ++
    last fileName s.docStartByte s.docBuffer "docstring"

end State

def collectChunks (fileName : String) (nodes : List Node) : List Chunk :=
  (State.init.run fileName nodes).finish fileName

def Node.isTrivia (n : Node) : Bool := n.isComment || n.isDocstringExpression

/-- Comments and docstrings, and the nodes of one chunk after them: none at the end of the file. -/
structure Stretch where
  trivia : List Node
  body : List Node

def Stretch.nodes (s : Stretch) : List Node := s.trivia ++ s.body

def stretchesFrom (trivia body : List Node) : List Node → List Stretch
  | [] => if trivia = [] then [] else [⟨trivia, body⟩]
  | n :: nodes =>
    if n.isTrivia then stretchesFrom (trivia ++ [n]) body nodes
    else if nodes.head?.any n.joins then stretchesFrom trivia (body ++ [n]) nodes
    else ⟨trivia, body ++ [n]⟩ :: stretchesFrom [] [] nodes

def stretches (nodes : List Node) : List Stretch := stretchesFrom [] [] nodes

def lastOf (isKind : Node → Bool) (trivia : List Node) : Option Node :=
  (trivia.filter isKind).getLast?

/-- The comment and the docstring that are still held back at the end, in the order of the file. -/
def survivors (trivia : List Node) : List Node :=
  ((lastOf Node.isComment trivia).toList ++
    (lastOf Node.isDocstringExpression trivia).toList).insertionSort
      fun a b => a.startByte ≤ b.startByte

def joined (nodes : List Node) : List Char := nodes.flatMap fun n => n.text ++ ['\n']

def chunkOf (fileName kind : String) (nodes : List Node) : Chunk :=
  ⟨(nodes.head?.map Node.startByte).getD 0, (nodes.getLast?.map Node.endByte).getD 0,
    (joined nodes).rdropWhile isWhitespace, fileName, kind⟩

def groupKind (n : Node) : String :=
  if n.isImport then "import_group" else if n.isExpression then "expression_group" else n.kind

/-- The chunks that come of a stretch. -/
def Stretch.chunks (fileName : String) (s : Stretch) : List Chunk :=
  match s.body with
  | [] =>
    (lastOf Node.isComment s.trivia).toList.map (fun n => chunkOf fileName "comment" [n]) ++
      (lastOf Node.isDocstringExpression s.trivia).toList.map fun n =>
        chunkOf fileName "docstring" [n]
  | first :: _ => [chunkOf fileName (groupKind first) (survivors s.trivia ++ s.body)]

section Pass

variable {fileName : String} {s : State} {trivia body nodes : List Node} {n : Node}
  {next : Option Node}

def bufferOf (held : Option Node) : List Char := held.elim [] fun n => n.text ++ ['\n']

/-- No chunk is open; of the comments and docstrings passed the last ones are held back. -/
structure Between (s : State) (trivia : List Node) : Prop where
  chunk : s.currentChunk = []
  new : s.isNewChunk = true
  comment : s.commentBuffer = bufferOf (lastOf Node.isComment trivia)
  commentStart : s.commentStartByte = (lastOf Node.isComment trivia).map Node.startByte
  doc : s.docBuffer = bufferOf (lastOf Node.isDocstringExpression trivia)
  docStart : s.docStartByte = (lastOf Node.isDocstringExpression trivia).map Node.startByte

/-- A chunk is open that goes on with the next node. -/
structure Within (s : State) (trivia body : List Node) (first : Node) : Prop where
  head : body.head? = some first
  chunk : s.currentChunk = joined (survivors trivia ++ body)
  start : s.startByte = (survivors trivia ++ body).head?.map Node.startByte
  new : s.isNewChunk = false
  kind : s.currentKind = groupKind first
  comment : s.commentBuffer = []
  commentStart : s.commentStartByte = none
  doc : s.docBuffer = []
  docStart : s.docStartByte = none

theorem comment_not_doc (h : n.isComment = true) : n.isDocstringExpression = false := by
  have hkind : n.kind = "comment" := of_decide_eq_true h
  rw [Node.isDocstringExpression, hkind]
  rfl

theorem lastOf_snoc (isKind : Node → Bool) (trivia : List Node) (n : Node) :
    lastOf isKind (trivia ++ [n]) = if isKind n then some n else lastOf isKind trivia := by
  rw [lastOf, filter_append]
  by_cases h : isKind n = true
  · rw [if_pos h, filter_cons_of_pos h, filter_nil, List.getLast?_concat]
  · rw [if_neg h, filter_cons_of_neg h, filter_nil, append_nil, lastOf]

theorem step_trivia (fileName : String) (next : Option Node) (hbetween : Between s trivia)
    (h : n.isTrivia = true) :
    Between (s.step fileName n next) (trivia ++ [n]) ∧
      (s.step fileName n next).chunks = s.chunks := by
  rw [State.step]
  by_cases hcomment : n.isComment = true
  · have hdoc := comment_not_doc hcomment
    rw [if_pos hcomment]
    refine ⟨?_, rfl⟩
    constructor
    · exact hbetween.chunk
    · exact hbetween.new
    · rw [lastOf_snoc, if_pos hcomment]
      rfl
    · rw [lastOf_snoc, if_pos hcomment]
      rfl
    · rw [lastOf_snoc, hdoc, if_neg Bool.false_ne_true]
      exact hbetween.doc
    · rw [lastOf_snoc, hdoc, if_neg Bool.false_ne_true]
      exact hbetween.docStart
  · have hdoc : n.isDocstringExpression = true := by
      rw [Node.isTrivia, Bool.eq_false_iff.mpr hcomment, Bool.false_or] at h
      exact h
    rw [if_neg hcomment, if_pos hdoc]
    refine ⟨?_, rfl⟩
    constructor
    · exact hbetween.chunk
    · exact hbetween.new
    · rw [lastOf_snoc, if_neg hcomment]
      exact hbetween.comment
    · rw [lastOf_snoc, if_neg hcomment]
      exact hbetween.commentStart
    · rw [lastOf_snoc, if_pos hdoc]
      rfl
    · rw [lastOf_snoc, if_pos hdoc]
      rfl

theorem step_plain (h : n.isTrivia = false) : s.step fileName n next = s.take fileName n next := by
  rw [Node.isTrivia, or_eq_false_iff] at h
  rw [State.step, h.1, h.2]
  rfl

theorem held_bufferOf (m : Option Node) :
    State.held (m.map Node.startByte) (bufferOf m) =
      m.toList.map fun n => (n.startByte, n.text ++ ['\n']) := by
  cases m with
  | none => rfl
  | some m =>
    rw [State.held, if_neg]
    · rfl
    · simp [bufferOf]

/-- What is held back is written in the order of the file. -/
theorem begin_within (hbetween : Between s trivia) (n : Node) :
    (s.begin n).currentChunk = joined (survivors trivia) ∧
      (s.begin n).startByte = (survivors trivia ++ [n]).head?.map Node.startByte := by
  have hchunk : (s.begin n).currentChunk =
      s.currentChunk ++ ((State.held s.commentStartByte s.commentBuffer ++
        State.held s.docStartByte s.docBuffer).insertionSort fun a b => a.1 ≤ b.1).flatMap
          fun held => held.2 := rfl
  have hstart : (s.begin n).startByte =
      some (State.earliestStart s.commentStartByte s.docStartByte n.startByte) := rfl
  rw [hchunk, hstart, hbetween.chunk, hbetween.comment, hbetween.commentStart, hbetween.doc,
    hbetween.docStart, held_bufferOf, held_bufferOf, survivors]
  cases lastOf Node.isComment trivia with
  | none =>
    cases lastOf Node.isDocstringExpression trivia with
    | none => exact ⟨rfl, rfl⟩
    | some d => exact ⟨by simp [joined], rfl⟩
  | some c =>
    cases lastOf Node.isDocstringExpression trivia with
    | none => exact ⟨by simp [joined], rfl⟩
    | some d =>
      by_cases horder : c.startByte ≤ d.startByte
      · simp [joined, horder, State.earliestStart]
      · simp [joined, horder, State.earliestStart]
        omega

/-- Where the pass stands once it has taken a node into a chunk. -/
def Taken (fileName : String) (trivia body : List Node) (first : Node) (chunks : List Chunk)
    (s : State) (goesOn : Bool) : Prop :=
  if goesOn then Within s trivia body first ∧ s.chunks = chunks
  else Between s [] ∧
    s.chunks = chunks ++ [chunkOf fileName (groupKind first) (survivors trivia ++ body)]

theorem joined_snoc (nodes : List Node) (n : Node) :
    joined (nodes ++ [n]) = joined nodes ++ (n.text ++ ['\n']) := by
  simp [joined]

/-- The end of the turn for a node. -/
theorem taken_of_within (body : List Node) (hwithin : Within s trivia (body ++ [n]) first)
    (hend : s.endByte = n.endByte) (goesOn : Bool) :
    Taken fileName trivia (body ++ [n]) first s.chunks
      (if goesOn then s else if s.currentChunk ≠ [] then s.push fileName else s) goesOn := by
  cases goesOn with
  | true => exact ⟨hwithin, rfl⟩
  | false =>
    have hchunk : s.currentChunk ≠ [] := by
      rw [hwithin.chunk, ← append_assoc, joined_snoc]
      simp
    have hlast : (survivors trivia ++ (body ++ [n])).getLast? = some n := by
      rw [← append_assoc, List.getLast?_concat]
    rw [if_neg Bool.false_ne_true, if_pos hchunk]
    refine ⟨⟨rfl, rfl, hwithin.comment, hwithin.commentStart, hwithin.doc, hwithin.docStart⟩, ?_⟩
    change s.chunks ++ [_] = s.chunks ++ [_]
    rw [chunkOf, hlast, hwithin.start, hwithin.chunk, hwithin.kind, hend]
    rfl

theorem take_between (hbetween : Between s trivia) :
    Taken fileName trivia [n] n s.chunks (s.take fileName n next) (next.any n.joins) := by
  have hleaves : s.leaves n = false := by
    rw [State.leaves, hbetween.chunk]
    rfl
  obtain ⟨hchunk, hstart⟩ := begin_within hbetween n
  rw [State.take, hleaves]
  simp only [false_eq_true, if_false, hbetween.new, if_true]
  apply taken_of_within []
  · constructor
    · rfl
    · change (s.begin n).currentChunk ++ _ = _
      rw [hchunk, nil_append, joined_snoc]
    · exact hstart
    · rfl
    · rfl
    · rfl
    · rfl
    · rfl
    · rfl
  · rfl

/-- The node goes on with the group that the chunk is of. -/
def Continues (first n : Node) : Prop :=
  n.isTrivia = false ∧
    (first.isImport = true ∧ n.isImport = true ∨
      first.isImport = false ∧ first.isExpression = true ∧ n.isExpression = true)

theorem import_not_expression (h : n.isImport = true) : n.isExpression = false := by
  rw [Node.isImport, or_eq_true, decide_eq_true_iff, decide_eq_true_iff] at h
  rw [Node.isExpression]
  rcases h with h | h <;> rw [h] <;> rfl

theorem continues_joins {m : Node} (h : n.joins m = true) : Continues n m := by
  rw [Node.joins, and_eq_true, and_eq_true, or_eq_true, and_eq_true,
    and_eq_true, not_eq_true', not_eq_true'] at h
  obtain ⟨⟨hkinds, hcomment⟩, hdoc⟩ := h
  refine ⟨by rw [Node.isTrivia, hcomment, hdoc]; rfl, ?_⟩
  rcases hkinds with himport | hexpression
  · exact .inl himport
  · refine .inr ⟨?_, hexpression⟩
    by_contra himport
    have hother := import_not_expression (eq_true_of_not_eq_false himport)
    rw [hother] at hexpression
    exact absurd hexpression.1 false_ne_true

theorem Continues.trans {first m : Node} (h : Continues first n) (h' : Continues n m) :
    Continues first m := by
  refine ⟨h'.1, ?_⟩
  rcases h.2 with ⟨hfirst, hn⟩ | ⟨hfirst, hexpression, hn⟩
  · rcases h'.2 with ⟨-, hm⟩ | ⟨hother, -⟩
    · exact .inl ⟨hfirst, hm⟩
    · rw [hn] at hother
      cases hother
  · rcases h'.2 with ⟨himport, -⟩ | ⟨-, -, hm⟩
    · rw [import_not_expression himport] at hn
      cases hn
    · exact .inr ⟨hfirst, hexpression, hm⟩

theorem take_within {first : Node} (hwithin : Within s trivia body first)
    (hcontinues : Continues first n) :
    Taken fileName trivia (body ++ [n]) first s.chunks (s.take fileName n next)
      (next.any n.joins) := by
  have hleaves : s.leaves n = false := by
    rw [State.leaves, hwithin.kind, groupKind]
    rcases hcontinues.2 with ⟨hfirst, hn⟩ | ⟨hfirst, hexpression, hn⟩
    · simp [hfirst, hn]
    · simp [hfirst, hexpression, hn]
  rw [State.take, hleaves]
  simp only [false_eq_true, if_false, hwithin.new]
  have hne : body ≠ [] := by
    rintro rfl
    exact absurd hwithin.head (by simp)
  have hassoc : survivors trivia ++ (body ++ [n]) = survivors trivia ++ body ++ [n] :=
    (append_assoc _ _ _).symm
  have hhead : (survivors trivia ++ body ++ [n]).head? = (survivors trivia ++ body).head? :=
    List.head?_append_of_ne_nil _ (by simp [hne])
  apply taken_of_within
  · constructor
    · rw [List.head?_append_of_ne_nil _ hne]
      exact hwithin.head
    · change s.currentChunk ++ _ = _
      rw [hwithin.chunk, hassoc, joined_snoc]
    · change s.startByte = _
      rw [hwithin.start, hassoc, hhead]
    · rfl
    · exact hwithin.kind
    · exact hwithin.comment
    · exact hwithin.commentStart
    · exact hwithin.doc
    · exact hwithin.docStart
  · rfl

theorem last_bufferOf (m : Option Node) (kind : String) :
    State.last fileName (m.map Node.startByte) (bufferOf m) kind =
      m.toList.map fun n => chunkOf fileName kind [n] := by
  cases m with
  | none => rfl
  | some m =>
    have hbuffer : bufferOf (some m) = joined [m] := by simp [bufferOf, joined]
    have hnewline : (utf8 ['\n']).length = 1 := by decide
    have hbytes : (utf8 (joined [m])).length = (utf8 m.text).length + 1 := by
      rw [← hbuffer]
      change (utf8 (m.text ++ ['\n'])).length = _
      rw [utf8, flatMap_append, length_append]
      exact congrArg _ hnewline
    have hend : m.startByte + (utf8 (joined [m])).length - 1 = m.endByte := by
      rw [hbytes, ← m.bytes]
      rfl
    rw [State.last, hbuffer, if_neg (by simp [joined])]
    change [Chunk.mk _ (m.startByte + _ - 1) _ _ _] = _
    rw [hend]
    rfl

theorem finish_between (hbetween : Between s trivia) :
    s.finish fileName = s.chunks ++ (Stretch.mk trivia []).chunks fileName := by
  rw [State.finish, hbetween.comment, hbetween.commentStart, hbetween.doc, hbetween.docStart,
    last_bufferOf, last_bufferOf, append_assoc]
  rfl

/-- The pass from a state on gives the chunks of the stretches that are left. -/
theorem run_eq (nodes : List Node) :
    (∀ (s : State) (trivia : List Node), Between s trivia →
      (s.run fileName nodes).finish fileName =
        s.chunks ++ (stretchesFrom trivia [] nodes).flatMap (Stretch.chunks fileName)) ∧
    ∀ (s : State) (trivia body : List Node) (first : Node), Within s trivia body first →
      nodes ≠ [] → (∀ n ∈ nodes.head?, Continues first n) →
      (s.run fileName nodes).finish fileName =
        s.chunks ++ (stretchesFrom trivia body nodes).flatMap (Stretch.chunks fileName) := by
  induction nodes with
  | nil =>
    refine ⟨?_, fun s trivia body first _ hne => absurd rfl hne⟩
    intro s trivia hbetween
    rw [State.run, finish_between hbetween, stretchesFrom]
    by_cases hnone : trivia = []
    · subst hnone
      rfl
    · rw [if_neg hnone, flatMap_singleton]
  | cons n nodes ih =>
    have htaken {s' : State} {trivia body : List Node} {first : Node} {chunks : List Chunk}
        (hplain : n.isTrivia = false) (hself : body = [] ∧ first = n ∨ Continues first n)
        (hhead : (body ++ [n]).head? = some first)
        (h : Taken fileName trivia (body ++ [n]) first chunks s' (nodes.head?.any n.joins)) :
        (s'.run fileName nodes).finish fileName =
          chunks ++ (stretchesFrom trivia body (n :: nodes)).flatMap (Stretch.chunks fileName) := by
      rw [stretchesFrom, hplain, if_neg Bool.false_ne_true]
      cases hjoins : nodes.head?.any n.joins with
      | true =>
        rw [hjoins] at h
        obtain ⟨next, hnext, hjoin⟩ := (any_eq_true _ _).mp hjoins
        rw [if_pos rfl, ← h.2]
        refine ih.2 s' trivia (body ++ [n]) first h.1 ?_ ?_
        · rintro rfl
          cases hnext
        · intro m hm
          rw [hnext] at hm
          cases hm
          rcases hself with ⟨-, rfl⟩ | hself
          · exact continues_joins hjoin
          · exact hself.trans (continues_joins hjoin)
      | false =>
        rw [hjoins] at h
        rw [if_neg Bool.false_ne_true, ih.1 s' [] h.1, h.2, flatMap_cons,
          append_assoc]
        congr 2
        cases hbody : body ++ [n] with
        | nil =>
          rw [hbody] at hhead
          cases hhead
        | cons m rest =>
          rw [hbody] at hhead
          cases hhead
          rfl
    constructor
    · intro s trivia hbetween
      cases htrivia : n.isTrivia with
      | true =>
        obtain ⟨hnext, hchunks⟩ :=
          step_trivia fileName nodes.head? hbetween htrivia
        rw [State.run, ih.1 _ _ hnext, hchunks, stretchesFrom, if_pos htrivia]
      | false =>
        rw [State.run, step_plain htrivia]
        exact htaken htrivia (.inl ⟨rfl, rfl⟩) rfl (take_between hbetween)
    · intro s trivia body first hwithin _ hcontinues
      have hcontinue := hcontinues n rfl
      rw [State.run, step_plain hcontinue.1]
      refine htaken hcontinue.1 (.inr hcontinue) ?_ (take_within hwithin hcontinue)
      cases body with
      | nil => exact absurd hwithin.head (by simp)
      | cons m rest => exact hwithin.head

theorem collectChunks_eq (fileName : String) (nodes : List Node) :
    collectChunks fileName nodes = (stretches nodes).flatMap (Stretch.chunks fileName) :=
  (run_eq nodes).1 State.init [] ⟨rfl, rfl, rfl, rfl, rfl, rfl⟩

end Pass

end ColossalCode.Chunker
