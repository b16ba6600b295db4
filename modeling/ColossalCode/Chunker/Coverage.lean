import ColossalCode.Chunker.Python

/-! When the chunks of a Python file cover its top-level nodes. -/
namespace ColossalCode.Chunker
open List Option Node

open Text (isWhitespace utf8)

/-- The texts stand in the source one after the other. -/
inductive Stands : List (List Char) → List Char → Prop
  | nil (source : List Char) : Stands [] source
  | cons (gap : List Char) {text rest : List Char} {texts : List (List Char)}
      (h : Stands texts rest) : Stands (text :: texts) (gap ++ text ++ rest)

/-- The text does not end in white space. -/
def Closed (text : List Char) : Prop := ∀ c ∈ text.getLast?, isWhitespace c = false

def solid (text : List Char) : Nat := text.countP fun c => !isWhitespace c

section Texts

variable {text rest source gap : List Char} {texts : List (List Char)}

theorem solid_append (text rest : List Char) : solid (text ++ rest) = solid text + solid rest :=
  countP_append

theorem solid_blank (text : List Char) (h : ∀ c ∈ text, isWhitespace c = true) :
    solid text = 0 := by
  rw [solid, countP_eq_zero]
  intro c hc
  rw [h c hc]
  exact Bool.false_ne_true

theorem solid_pos (hne : text ≠ []) (h : Closed text) : 0 < solid text := by
  rw [solid, countP_pos_iff]
  refine ⟨text.getLast hne, getLast_mem hne, ?_⟩
  rw [h _ (getLast?_eq_some_getLast hne)]
  rfl

theorem solid_trimmed (text : List Char) : solid (text.rdropWhile isWhitespace) = solid text := by
  have hsplit := congrArg solid (rdropWhile_append_rtakeWhile (p := isWhitespace) (l := text))
  rw [solid_append, solid_blank (text.rtakeWhile isWhitespace)
    fun c hc => mem_rtakeWhile_imp hc] at hsplit
  exact hsplit

theorem closed_trimmed (text : List Char) : Closed (text.rdropWhile isWhitespace) := by
  intro c hc
  have hne : text.rdropWhile isWhitespace ≠ [] := by
    intro hnil
    rw [hnil] at hc
    cases hc
  have hlast := rdropWhile_last_not isWhitespace text hne
  rw [getLast?_eq_some_getLast hne, mem_some_iff] at hc
  rw [hc] at hlast
  exact Bool.eq_false_iff.mpr hlast

theorem trimmed_closed (h : Closed text) : text.rdropWhile isWhitespace = text := by
  rw [rdropWhile_eq_self_iff]
  intro hne hblank
  rw [h _ (getLast?_eq_some_getLast hne)] at hblank
  cases hblank

theorem trimmed_append_blank (h : ∀ c ∈ rest, isWhitespace c = true) :
    (text ++ rest).rdropWhile isWhitespace = text.rdropWhile isWhitespace := by
  induction rest using List.reverseRecOn with
  | nil => rw [append_nil]
  | append_singleton rest c ih =>
    rw [← append_assoc, rdropWhile_concat_pos _ _ _ (h c (by simp))]
    exact ih fun d hd => h d (by simp [hd])

theorem trimmed_append (text : List Char) (h : 0 < solid rest) :
    (text ++ rest).rdropWhile isWhitespace = text ++ rest.rdropWhile isWhitespace := by
  induction rest using List.reverseRecOn with
  | nil => exact absurd h (Nat.lt_irrefl 0)
  | append_singleton rest c ih =>
    rw [← append_assoc]
    by_cases hc : isWhitespace c = true
    · rw [rdropWhile_concat_pos _ _ _ hc, rdropWhile_concat_pos _ _ _ hc]
      apply ih
      rw [solid_append, solid_blank [c] (by simpa using hc)] at h
      exact h
    · rw [rdropWhile_concat_neg _ _ _ hc, rdropWhile_concat_neg _ _ _ hc,
        append_assoc]

theorem closed_append (hne : rest ≠ []) : Closed (text ++ rest) ↔ Closed rest := by
  rw [Closed, getLast?_append_of_ne_nil _ hne, Closed]

theorem Stands.after (h : Stands texts source) (gap : List Char) :
    Stands texts (gap ++ source) := by
  cases h with
  | nil => exact .nil _
  | cons gap' h =>
    rw [← append_assoc, ← append_assoc]
    exact .cons (gap ++ gap') h

/-- Empty texts stand anywhere. -/
theorem stands_nonempty (texts : List (List Char)) :
    ∀ {source}, Stands (texts.filter (· ≠ [])) source ↔ Stands texts source := by
  induction texts with
  | nil => exact Iff.rfl
  | cons text texts ih =>
    intro source
    by_cases hempty : text = []
    · subst hempty
      rw [filter_cons_of_neg (by simp), ih]
      constructor
      · intro h
        exact Stands.cons [] h
      · rintro ⟨⟩
        rename_i gap rest h
        rw [append_nil]
        exact h.after gap
    · rw [filter_cons_of_pos (by simpa using hempty)]
      constructor
      · rintro ⟨⟩
        rename_i gap rest h
        exact .cons gap (ih.mp h)
      · rintro ⟨⟩
        rename_i gap rest h
        exact .cons gap (ih.mpr h)

theorem Stands.solid_le (h : Stands texts source) : solid texts.flatten ≤ solid source := by
  induction h with
  | nil => exact Nat.zero_le _
  | cons gap h ih =>
    rw [flatten_cons, solid_append, solid_append, solid_append]
    omega

theorem Stands.length_le (h : Stands texts source) : texts.flatten.length ≤ source.length := by
  induction h with
  | nil => exact Nat.zero_le _
  | cons gap h ih =>
    rw [flatten_cons, length_append, length_append, length_append]
    omega

/-- Where the source holds no more than the texts, they end where it does. -/
theorem Stands.closed (h : Stands texts source) (hsolid : solid source ≤ solid texts.flatten)
    (hclosed : Closed source) : Closed texts.flatten := by
  induction h with
  | nil => exact fun c hc => absurd hc (by simp)
  | @cons gap text rest texts h ih =>
    have hle := h.solid_le
    rw [flatten_cons, solid_append, solid_append, solid_append] at hsolid
    rw [flatten_cons]
    by_cases hrest : rest = []
    · subst hrest
      have hnone : texts.flatten = [] := by
        have hlength := h.length_le
        exact length_eq_zero_iff.mp (Nat.le_zero.mp hlength)
      rw [append_nil] at hclosed
      rw [hnone, append_nil]
      by_cases htext : text = []
      · subst htext
        exact fun c hc => absurd hc (by simp)
      · exact (closed_append htext).mp hclosed
    · have hend := (closed_append hrest).mp hclosed
      have hrestSolid := solid_pos hrest hend
      have htexts : texts.flatten ≠ [] := by
        intro hnil
        rw [hnil] at hsolid hle
        have hzero : solid [] = 0 := rfl
        omega
      exact (closed_append htexts).mpr (ih (by omega) hend)

end Texts

section Joined

variable {nodes : List Node}

def texts (nodes : List Node) : List (List Char) := nodes.map text

theorem joined_cons (n : Node) (nodes : List Node) :
    joined (n :: nodes) = n.text ++ ('\n' :: joined nodes) := by
  simp [joined]

theorem solid_joined (nodes : List Node) : solid (joined nodes) = solid (texts nodes).flatten := by
  induction nodes with
  | nil => rfl
  | cons n nodes ih =>
    have hnewline : solid ('\n' :: joined nodes) = solid (joined nodes) :=
      countP_cons_of_neg (by decide)
    have htexts : texts (n :: nodes) = n.text :: texts nodes := rfl
    rw [joined_cons, solid_append, hnewline, ih, htexts, flatten_cons, solid_append]

theorem joined_blank (h : (texts nodes).flatten = []) :
    ∀ c ∈ joined nodes, isWhitespace c = true := by
  induction nodes with
  | nil => exact fun c hc => absurd hc not_mem_nil
  | cons n nodes ih =>
    rw [texts, map_cons, flatten_cons, append_eq_nil_iff] at h
    rw [joined_cons, h.1, nil_append]
    intro c hc
    rcases mem_cons.mp hc with rfl | hc
    · decide
    · exact ih h.2 c hc

theorem stands_joined (nodes : List Node) (h : Closed (texts nodes).flatten) :
    Stands (texts nodes) ((joined nodes).rdropWhile isWhitespace) := by
  induction nodes with
  | nil => exact .nil _
  | cons n nodes ih =>
    rw [texts, map_cons, flatten_cons] at h
    rw [joined_cons, texts, map_cons]
    by_cases hnone : (texts nodes).flatten = []
    · rw [texts] at hnone
      rw [hnone, append_nil] at h
      rw [trimmed_append_blank, trimmed_closed h]
      · have hstands : Stands (nodes.map text) [] := by
          rw [← stands_nonempty, filter_eq_nil_iff.mpr]
          · exact .nil _
          · intro text htext
            have hempty := flatten_eq_nil_iff.mp hnone text htext
            simpa using hempty
        have hcons : Stands (n.text :: texts nodes) ([] ++ n.text ++ []) := .cons [] hstands
        rw [nil_append, append_nil] at hcons
        exact hcons
      · intro c hc
        rcases mem_cons.mp hc with rfl | hc
        · decide
        · exact joined_blank hnone c hc
    · have hclosed := (closed_append hnone).mp h
      have hsolid : 0 < solid (joined nodes) := by
        rw [solid_joined]
        exact solid_pos hnone hclosed
      have hlater : 0 < solid ('\n' :: joined nodes) :=
        Nat.lt_of_lt_of_le hsolid (List.Sublist.countP_le (sublist_cons_self _ _))
      have hnext : ('\n' :: joined nodes).rdropWhile isWhitespace =
          ['\n'] ++ (joined nodes).rdropWhile isWhitespace := trimmed_append ['\n'] hsolid
      rw [trimmed_append _ hlater, hnext]
      exact .cons [] ((ih hclosed).after ['\n'])

end Joined

def Node.inside (n : Node) (c : Chunk) : Bool :=
  c.startByte ≤ n.startByte && n.endByte ≤ c.endByte

/-- The chunks follow one another; every node is inside one of them, only one unless it is empty;
and the texts of the nodes inside a chunk stand in it in the order of the file. -/
structure Covered (nodes : List Node) (chunks : List Chunk) : Prop where
  ordered : chunks.Pairwise fun c d => c.endByte ≤ d.startByte
  placed : ∀ n ∈ nodes, ∃ c ∈ chunks, n.inside c = true
  once : ∀ n ∈ nodes, n.text ≠ [] → ∀ c ∈ chunks, ∀ d ∈ chunks, n.inside c = true →
    n.inside d = true → c = d
  stands : ∀ c ∈ chunks, Stands (texts (nodes.filter fun n => n.inside c)) c.sourceCode

/-- Nodes as the parser gives them: one after the other, and no comment or docstring is blank. -/
structure Parsed (nodes : List Node) : Prop where
  ordered : nodes.Pairwise fun a b => a.endByte ≤ b.startByte
  solid : ∀ n ∈ nodes, n.isTrivia = true → 0 < solid n.text

section Ranges

variable {nodes : List Node} {n m : Node} {c d : Chunk} {chunks : List Chunk}

theorem start_le_end (n : Node) : n.startByte ≤ n.endByte := by
  rw [← n.bytes]
  exact Nat.le_add_right _ _

theorem wide_of_text (h : n.text ≠ []) : n.startByte < n.endByte := by
  rw [← n.bytes]
  cases htext : n.text with
  | nil => exact absurd htext h
  | cons ch text =>
    have hpos := Char.utf8Size_pos ch
    rw [utf8, flatMap_cons, length_append, String.length_utf8EncodeChar]
    omega

theorem text_of_solid (h : 0 < solid n.text) : n.text ≠ [] := by
  intro hnil
  rw [hnil] at h
  exact absurd h (Nat.lt_irrefl 0)

theorem inside_iff : n.inside c = true ↔ c.startByte ≤ n.startByte ∧ n.endByte ≤ c.endByte := by
  rw [inside, Bool.and_eq_true, decide_eq_true_iff, decide_eq_true_iff]

/-- In ordered chunks no node but an empty one is inside two. -/
theorem once_of_ordered (hordered : chunks.Pairwise fun c d => c.endByte ≤ d.startByte)
    (htext : n.text ≠ []) (hc : c ∈ chunks) (hd : d ∈ chunks) (hinside : n.inside c = true)
    (hinside' : n.inside d = true) : c = d := by
  have hwide := wide_of_text htext
  rw [inside_iff] at hinside hinside'
  induction hordered with
  | nil => exact absurd hc not_mem_nil
  | @cons first chunks hfirst hrest ih =>
    rcases mem_cons.mp hc with rfl | hlater
    · rcases mem_cons.mp hd with rfl | hlater
      · rfl
      · have hafter := hfirst d hlater
        omega
    · rcases mem_cons.mp hd with rfl | hlater'
      · have hafter := hfirst c hlater
        omega
      · exact ih hlater hlater'

theorem start_of_head (hordered : nodes.Pairwise fun a b => a.endByte ≤ b.startByte)
    (hn : n ∈ nodes) (hm : nodes.head? = some m) : m.startByte ≤ n.startByte := by
  cases hordered with
  | nil => cases hm
  | cons hfirst hrest =>
    cases hm
    rcases mem_cons.mp hn with rfl | hn
    · exact Nat.le_refl _
    · exact Nat.le_trans (start_le_end m) (hfirst n hn)

theorem end_of_last (hordered : nodes.Pairwise fun a b => a.endByte ≤ b.startByte)
    (hn : n ∈ nodes) (hm : nodes.getLast? = some m) : n.endByte ≤ m.endByte := by
  obtain ⟨front, rfl⟩ := getLast?_eq_some_iff.mp hm
  rw [pairwise_append] at hordered
  rcases mem_append.mp hn with hn | hn
  · exact Nat.le_trans (hordered.2.2 n hn m mem_cons_self) (start_le_end m)
  · rw [mem_singleton.mp hn]

end Ranges

section Stretches

variable {fileName : String} {trivia body nodes : List Node} {n : Node} {s : Stretch} {c : Chunk}

theorem mem_lastOf {isKind : Node → Bool} (h : n ∈ (lastOf isKind trivia).toList) :
    n ∈ trivia ∧ isKind n = true := by
  rw [mem_toList, lastOf] at h
  exact mem_filter.mp (mem_of_getLast? h)

theorem mem_survivors (h : n ∈ survivors trivia) : n ∈ trivia := by
  rw [survivors, mem_insertionSort, mem_append] at h
  rcases h with h | h
  · exact (mem_lastOf h).1
  · exact (mem_lastOf h).1

theorem chunkOf_bounds (fileName kind : String) (hne : nodes ≠ []) :
    ∃ first ∈ nodes, ∃ last ∈ nodes, (chunkOf fileName kind nodes).startByte = first.startByte ∧
      (chunkOf fileName kind nodes).endByte = last.endByte := by
  refine ⟨nodes.head hne, head_mem hne, nodes.getLast hne, getLast_mem hne, ?_, ?_⟩
  · rw [chunkOf, head?_eq_some_head hne]
    rfl
  · rw [chunkOf, getLast?_eq_some_getLast hne]
    rfl

/-- A chunk begins and ends with nodes of its stretch. -/
theorem chunk_bounds (h : c ∈ s.chunks fileName) : ∃ first ∈ s.nodes, ∃ last ∈ s.nodes,
    c.startByte = first.startByte ∧ c.endByte = last.endByte := by
  obtain ⟨trivia, body⟩ := s
  have hsingle {isKind : Node → Bool} {kind : String}
      (hc : c ∈ (lastOf isKind trivia).toList.map fun n => chunkOf fileName kind [n]) :
      ∃ first ∈ trivia ++ body, ∃ last ∈ trivia ++ body,
        c.startByte = first.startByte ∧ c.endByte = last.endByte := by
    obtain ⟨n, hn, rfl⟩ := mem_map.mp hc
    have hmem := mem_append_left body (mem_lastOf hn).1
    exact ⟨n, hmem, n, hmem, rfl, rfl⟩
  cases body with
  | nil =>
    rcases mem_append.mp h with h | h
    · exact hsingle h
    · exact hsingle h
  | cons first body =>
    have hc := mem_singleton.mp h
    have hne : survivors trivia ++ first :: body ≠ [] := by simp
    obtain ⟨m, hm, last, hlast, hstart, hend⟩ := chunkOf_bounds fileName (groupKind first) hne
    have hwithin {m : Node} (hm : m ∈ survivors trivia ++ first :: body) :
        m ∈ trivia ++ first :: body := by
      rcases mem_append.mp hm with hm | hm
      · exact mem_append_left _ (mem_survivors hm)
      · exact mem_append_right _ hm
    rw [hc]
    exact ⟨m, hwithin hm, last, hwithin hlast, hstart, hend⟩

theorem stretchesFrom_nodes (trivia body : List Node) (nodes : List Node)
    (hbody : body ≠ [] → ∃ n, nodes.head? = some n ∧ n.isTrivia = false) :
    (stretchesFrom trivia body nodes).flatMap Stretch.nodes = trivia ++ body ++ nodes := by
  induction nodes generalizing trivia body with
  | nil =>
    have hnone : body = [] := by
      by_contra hne
      obtain ⟨n, hn, -⟩ := hbody hne
      cases hn
    subst hnone
    rw [stretchesFrom]
    by_cases htrivia : trivia = []
    · subst htrivia
      rfl
    · rw [if_neg htrivia, flatMap_singleton]
      simp [Stretch.nodes]
  | cons n nodes ih =>
    rw [stretchesFrom]
    cases hn : n.isTrivia with
    | true =>
      have hnone : body = [] := by
        by_contra hne
        obtain ⟨m, hm, hplain⟩ := hbody hne
        cases hm
        rw [hn] at hplain
        cases hplain
      subst hnone
      rw [if_pos rfl, ih (trivia ++ [n]) [] fun hne => absurd rfl hne]
      simp
    | false =>
      rw [if_neg Bool.false_ne_true]
      by_cases hjoins : nodes.head?.any n.joins = true
      · rw [if_pos hjoins, ih]
        · simp
        · intro _
          obtain ⟨m, hm, hjoin⟩ := (any_eq_true _ _).mp hjoins
          exact ⟨m, hm, (continues_joins hjoin).1⟩
      · rw [if_neg hjoins, flatMap_cons, ih [] [] fun hne => absurd rfl hne]
        simp [Stretch.nodes]

theorem stretches_nodes (nodes : List Node) : (stretches nodes).flatMap Stretch.nodes = nodes :=
  stretchesFrom_nodes [] [] nodes fun hne => absurd rfl hne

/-- Comments and docstrings stand before the body, and a stretch without one has some. -/
structure Stretch.Formed (s : Stretch) : Prop where
  trivia : ∀ n ∈ s.trivia, n.isTrivia = true
  body : ∀ n ∈ s.body, n.isTrivia = false
  some : s.nodes ≠ []

theorem stretchesFrom_formed (htrivia : ∀ n ∈ trivia, n.isTrivia = true)
    (hbody : ∀ n ∈ body, n.isTrivia = false) :
    ∀ s ∈ stretchesFrom trivia body nodes, s.Formed := by
  induction nodes generalizing trivia body with
  | nil =>
    rw [stretchesFrom]
    by_cases hnone : trivia = []
    · rw [if_pos hnone]
      exact fun s hs => absurd hs not_mem_nil
    · rw [if_neg hnone]
      intro s hs
      rw [mem_singleton.mp hs]
      exact ⟨htrivia, hbody, by simp [Stretch.nodes, hnone]⟩
  | cons n nodes ih =>
    rw [stretchesFrom]
    cases hn : n.isTrivia with
    | true =>
      rw [if_pos rfl]
      refine ih ?_ hbody
      intro m hm
      rcases mem_append.mp hm with hm | hm
      · exact htrivia m hm
      · rw [mem_singleton.mp hm]
        exact hn
    | false =>
      have hlonger : ∀ m ∈ body ++ [n], m.isTrivia = false := by
        intro m hm
        rcases mem_append.mp hm with hm | hm
        · exact hbody m hm
        · rw [mem_singleton.mp hm]
          exact hn
      rw [if_neg Bool.false_ne_true]
      by_cases hjoins : nodes.head?.any n.joins = true
      · rw [if_pos hjoins]
        exact ih htrivia hlonger
      · rw [if_neg hjoins]
        intro s hs
        rcases mem_cons.mp hs with rfl | hs
        · exact ⟨htrivia, hlonger, by simp [Stretch.nodes]⟩
        · exact ih (fun m hm => absurd hm not_mem_nil) (fun m hm => absurd hm not_mem_nil)
            s hs

/-- The nodes of a body are inside its chunk, whatever is left of the trivia before them. -/
theorem inside_body (hordered : s.nodes.Pairwise fun a b => a.endByte ≤ b.startByte)
    (hn : n ∈ s.body) : ∃ c ∈ s.chunks fileName, n.inside c = true := by
  obtain ⟨trivia, body⟩ := s
  rw [Stretch.nodes, pairwise_append] at hordered
  obtain ⟨-, hbody, hcross⟩ := hordered
  cases hbodyCases : body with
  | nil =>
    rw [hbodyCases] at hn
    exact absurd hn not_mem_nil
  | cons first rest =>
    subst hbodyCases
    refine ⟨_, mem_singleton_self _, ?_⟩
    rw [inside_iff, chunkOf]
    constructor
    · cases hsurvivors : survivors trivia with
      | nil => exact start_of_head hbody hn rfl
      | cons m held =>
        have hm : m ∈ survivors trivia := by
          rw [hsurvivors]
          exact mem_cons_self
        exact Nat.le_trans (start_le_end m) (hcross m (mem_survivors hm) n hn)
    · rw [getLast?_append_of_ne_nil _ (cons_ne_nil first rest),
        getLast?_eq_some_getLast (cons_ne_nil first rest)]
      exact end_of_last hbody hn (getLast?_eq_some_getLast _)

section Parts

variable (hparsed : Parsed nodes)

include hparsed

theorem stretch_split (hs : s ∈ stretches nodes) : ∃ front back later earlier,
    stretches nodes = earlier ++ s :: later ∧ front = earlier.flatMap Stretch.nodes ∧
      back = later.flatMap Stretch.nodes ∧ nodes = front ++ (s.nodes ++ back) ∧
      (∀ a ∈ front, ∀ n ∈ s.nodes, a.endByte ≤ n.startByte) ∧
      (∀ n ∈ s.nodes, ∀ b ∈ back, n.endByte ≤ b.startByte) ∧ Parsed s.nodes := by
  obtain ⟨earlier, later, hsplit⟩ := append_of_mem hs
  have hnodes : nodes = earlier.flatMap Stretch.nodes ++
      (s.nodes ++ later.flatMap Stretch.nodes) := by
    rw [← flatMap_cons, ← flatMap_append, ← hsplit, stretches_nodes]
  have hordered := hparsed.ordered
  rw [hnodes, pairwise_append, pairwise_append] at hordered
  refine ⟨_, _, later, earlier, hsplit, rfl, rfl, hnodes, ?_, hordered.2.1.2.2, hordered.2.1.1, ?_⟩
  · exact fun a ha n hn => hordered.2.2 a ha n (mem_append_left _ hn)
  · intro n hn
    apply hparsed.solid
    rw [hnodes]
    exact mem_append_right _ (mem_append_left _ hn)

/-- A node that is not empty is inside chunks of its own stretch only. -/
theorem own_chunk {s' : Stretch} (hs : s ∈ stretches nodes) (hs' : s' ∈ stretches nodes)
    (hn : n ∈ s.nodes) (htext : n.text ≠ []) (hc : c ∈ s'.chunks fileName)
    (hinside : n.inside c = true) : s' = s := by
  have hwide := wide_of_text htext
  obtain ⟨first, hfirst, last, hlast, hstart, hend⟩ := chunk_bounds hc
  rw [inside_iff, hstart, hend] at hinside
  obtain ⟨front, back, later, earlier, hsplit, rfl, rfl, -, hbefore, hafter, -⟩ :=
    stretch_split hparsed hs
  rw [hsplit] at hs'
  rcases mem_append.mp hs' with hs' | hs'
  · have := hbefore last (mem_flatMap.mpr ⟨s', hs', hlast⟩) n hn
    omega
  · rcases mem_cons.mp hs' with rfl | hs'
    · rfl
    · have := hafter n hn first (mem_flatMap.mpr ⟨s', hs', hfirst⟩)
      omega

/-- Of the nodes that are not empty only those of its stretch are inside a chunk. -/
theorem stands_part (hs : s ∈ stretches nodes) (hc : c ∈ s.chunks fileName) :
    Stands (texts (nodes.filter fun n => n.inside c)) c.sourceCode ↔
      Stands (texts (s.nodes.filter fun n => n.inside c)) c.sourceCode := by
  obtain ⟨first, hfirst, last, hlast, hstart, hend⟩ := chunk_bounds hc
  obtain ⟨front, back, later, earlier, -, rfl, rfl, hnodes, hbefore, hafter, -⟩ :=
    stretch_split hparsed hs
  have hnone {part : List Node}
      (hout : ∀ n ∈ part, n.endByte ≤ first.startByte ∨ last.endByte ≤ n.startByte) :
      (texts (part.filter fun n => n.inside c)).filter (· ≠ []) = [] := by
    rw [filter_eq_nil_iff]
    intro text htext
    obtain ⟨n, hn, rfl⟩ := mem_map.mp htext
    obtain ⟨hn, hinside⟩ := mem_filter.mp hn
    intro hne
    have hwide := wide_of_text (of_decide_eq_true hne)
    rw [inside_iff, hstart, hend] at hinside
    rcases hout n hn with hout | hout <;> omega
  rw [← stands_nonempty, ← stands_nonempty (texts (s.nodes.filter _))]
  have hsplit : (texts (nodes.filter fun n => n.inside c)).filter (· ≠ []) =
      (texts (s.nodes.filter fun n => n.inside c)).filter (· ≠ []) := by
    conv_lhs => rw [hnodes]
    simp only [texts, filter_append, map_append] at hnone ⊢
    rw [hnone fun n hn => .inl (hbefore n hn first hfirst),
      hnone fun n hn => .inr (hafter last hlast n hn), nil_append, append_nil]
  rw [hsplit]

theorem covered_parts (hformed : ∀ s ∈ stretches nodes, s.Formed) :
    Covered nodes (collectChunks fileName nodes) ↔
      ∀ s ∈ stretches nodes, Covered s.nodes (s.chunks fileName) := by
  have hnode {s : Stretch} (hs : s ∈ stretches nodes) {n : Node} (hn : n ∈ s.nodes) :
      n ∈ nodes := by
    rw [← stretches_nodes nodes]
    exact mem_flatMap.mpr ⟨s, hs, hn⟩
  have hchunk {s : Stretch} (hs : s ∈ stretches nodes) {c : Chunk} (hc : c ∈ s.chunks fileName) :
      c ∈ collectChunks fileName nodes := by
    rw [collectChunks_eq]
    exact mem_flatMap.mpr ⟨s, hs, hc⟩
  constructor
  · intro h s hs
    obtain ⟨-, -, -, -, -, -, -, -, -, -, hpart⟩ := stretch_split hparsed hs
    constructor
    · have hordered := h.ordered
      rw [collectChunks_eq, pairwise_flatMap] at hordered
      exact hordered.1 s hs
    · intro n hn
      by_cases htext : n.text = []
      · rcases mem_append.mp hn with htrivia | hbody
        · have hsolid := hpart.solid n hn ((hformed s hs).trivia n htrivia)
          exact absurd htext (text_of_solid hsolid)
        · exact inside_body hpart.ordered hbody
      · obtain ⟨c, hc, hinside⟩ := h.placed n (hnode hs hn)
        rw [collectChunks_eq] at hc
        obtain ⟨s', hs', hc⟩ := mem_flatMap.mp hc
        have hown := own_chunk hparsed hs hs' hn htext hc hinside
        subst hown
        exact ⟨c, hc, hinside⟩
    · intro n hn htext c hc d hd
      exact h.once n (hnode hs hn) htext c (hchunk hs hc) d (hchunk hs hd)
    · intro c hc
      exact (stands_part hparsed hs hc).mp (h.stands c (hchunk hs hc))
  · intro h
    have hordered : (collectChunks fileName nodes).Pairwise
        fun c d => c.endByte ≤ d.startByte := by
      have hnodes := hparsed.ordered
      rw [← stretches_nodes nodes, pairwise_flatMap] at hnodes
      rw [collectChunks_eq, pairwise_flatMap]
      refine ⟨fun s hs => (h s hs).ordered, hnodes.2.imp ?_⟩
      intro s s' hcross c hc d hd
      obtain ⟨_, _, last, hlast, -, hend⟩ := chunk_bounds hc
      obtain ⟨first, hfirst, _, _, hstart, -⟩ := chunk_bounds hd
      rw [hend, hstart]
      exact hcross last hlast first hfirst
    constructor
    · exact hordered
    · intro n hn
      rw [← stretches_nodes nodes] at hn
      obtain ⟨s, hs, hn⟩ := mem_flatMap.mp hn
      obtain ⟨c, hc, hinside⟩ := (h s hs).placed n hn
      exact ⟨c, hchunk hs hc, hinside⟩
    · intro n hn htext c hc d hd
      exact once_of_ordered hordered htext hc hd
    · intro c hc
      rw [collectChunks_eq] at hc
      obtain ⟨s, hs, hc⟩ := mem_flatMap.mp hc
      exact (stands_part hparsed hs hc).mpr ((h s hs).stands c hc)

end Parts

/-- No comment and no docstring is followed by another before the body, the comment is first where
there is no body, and no chunk's text ends in white space. -/
structure Stretch.Sound (s : Stretch) : Prop where
  comment : (s.trivia.filter isComment).length ≤ 1
  doc : (s.trivia.filter isDocstringExpression).length ≤ 1
  order : s.body = [] →
    s.trivia.Pairwise fun a b => ¬(a.isDocstringExpression = true ∧ b.isComment = true)
  tail : s.body = [] → ∀ n ∈ s.trivia, Closed n.text
  closed : s.body ≠ [] → Closed (texts s.nodes).flatten

def solidIn (nodes : List Node) : Nat := solid (texts nodes).flatten

theorem solidIn_append (nodes later : List Node) :
    solidIn (nodes ++ later) = solidIn nodes + solidIn later := by
  rw [solidIn, texts, map_append, flatten_append, solid_append]
  rfl

theorem solidIn_perm {later : List Node} (h : nodes.Perm later) : solidIn nodes = solidIn later :=
  ((h.map text).flatten).countP_eq _

theorem solidIn_filter (isKind : Node → Bool) (nodes : List Node) :
    solidIn nodes = solidIn (nodes.filter isKind) + solidIn (nodes.filter fun n => !isKind n) := by
  rw [← solidIn_append]
  exact solidIn_perm (filter_append_perm isKind nodes).symm

theorem not_comment_iff (h : n.isTrivia = true) : (!n.isComment) = n.isDocstringExpression := by
  cases hcomment : n.isComment with
  | true => rw [comment_not_doc hcomment]; rfl
  | false =>
    rw [isTrivia, hcomment, Bool.false_or] at h
    rw [h]
    rfl

theorem solidIn_trivia (htrivia : ∀ n ∈ trivia, n.isTrivia = true) :
    solidIn trivia = solidIn (trivia.filter isComment) +
      solidIn (trivia.filter isDocstringExpression) := by
  have hdocs : (trivia.filter fun n => !n.isComment) =
      trivia.filter isDocstringExpression :=
    filter_congr fun n hn => not_comment_iff (htrivia n hn)
  rw [solidIn_filter isComment, hdocs]

/-- Of a kind of node the last one alone is held back. -/
theorem solidIn_lastOf (isKind : Node → Bool) (hsolid : ∀ n ∈ trivia, 0 < solid n.text) :
    solidIn (lastOf isKind trivia).toList ≤ solidIn (trivia.filter isKind) ∧
      (solidIn (trivia.filter isKind) ≤ solidIn (lastOf isKind trivia).toList →
        (trivia.filter isKind).length ≤ 1) := by
  have hkind : ∀ n ∈ trivia.filter isKind, 0 < solid n.text :=
    fun n hn => hsolid n (mem_of_mem_filter hn)
  rw [lastOf]
  generalize trivia.filter isKind = found at hkind
  rcases eq_nil_or_concat' found with rfl | ⟨front, last, rfl⟩
  · exact ⟨Nat.le_refl _, fun _ => Nat.zero_le _⟩
  · rw [getLast?_concat, toList_some, solidIn_append]
    refine ⟨Nat.le_add_left _ _, ?_⟩
    intro hle
    cases front with
    | nil => exact Nat.le_refl 1
    | cons n front =>
      have hpos := hkind n mem_cons_self
      rw [← singleton_append, solidIn_append] at hle
      have hone : solidIn [n] = solid n.text := by simp [solidIn, texts]
      omega

theorem survivors_perm (trivia : List Node) : (survivors trivia).Perm
    ((lastOf isComment trivia).toList ++
      (lastOf isDocstringExpression trivia).toList) :=
  perm_insertionSort _ _

/-- At most one comment and one docstring are one or two nodes. -/
theorem trivia_cases (htrivia : ∀ n ∈ trivia, n.isTrivia = true)
    (hcomment : (trivia.filter isComment).length ≤ 1)
    (hdoc : (trivia.filter isDocstringExpression).length ≤ 1) :
    trivia = [] ∨ (∃ n, trivia = [n]) ∨ ∃ a b, trivia = [a, b] ∧
      a.isComment = b.isDocstringExpression ∧ b.isComment = a.isDocstringExpression := by
  have hlength : trivia.length ≤ 2 := by
    have hsplit := (filter_append_perm isComment trivia).length_eq
    have hdocs : (trivia.filter fun n => !n.isComment) =
        trivia.filter isDocstringExpression :=
      filter_congr fun n hn => not_comment_iff (htrivia n hn)
    rw [hdocs, length_append] at hsplit
    omega
  cases trivia with
  | nil => exact .inl rfl
  | cons a rest =>
    cases rest with
    | nil => exact .inr (.inl ⟨a, rfl⟩)
    | cons b rest =>
      have hnil : rest = [] := by
        simp only [length_cons] at hlength
        exact length_eq_zero_iff.mp (by omega)
      subst hnil
      have ha := not_comment_iff (htrivia a (by simp))
      have hb := not_comment_iff (htrivia b (by simp))
      refine .inr (.inr ⟨a, b, rfl, ?_⟩)
      cases hac : a.isComment <;> cases hbc : b.isComment <;> rw [hac] at ha <;> rw [hbc] at hb <;>
        simp [hac, hbc, ← ha, ← hb] at hcomment hdoc ⊢

/-- Those are all left before the body. -/
theorem survivors_eq (hordered : trivia.Pairwise fun a b => a.endByte ≤ b.startByte)
    (htrivia : ∀ n ∈ trivia, n.isTrivia = true) (hsolid : ∀ n ∈ trivia, 0 < solid n.text)
    (hcomment : (trivia.filter isComment).length ≤ 1)
    (hdoc : (trivia.filter isDocstringExpression).length ≤ 1) : survivors trivia = trivia := by
  rcases trivia_cases htrivia hcomment hdoc with rfl | ⟨n, rfl⟩ | ⟨a, b, rfl, hab, hba⟩
  · rfl
  · have hn := not_comment_iff (htrivia n mem_cons_self)
    cases hkind : n.isComment <;> rw [hkind] at hn <;> simp [survivors, lastOf, hkind, ← hn]
  · have ha := not_comment_iff (htrivia a (by simp))
    have hwide := wide_of_text (text_of_solid (hsolid a (by simp)))
    have horder : a.endByte ≤ b.startByte := (pairwise_cons.mp hordered).1 b (by simp)
    cases hkind : a.isComment with
    | true =>
      rw [hkind] at ha hab
      rw [← ha] at hba
      have hle : a.startByte ≤ b.startByte := by omega
      simp [survivors, lastOf, hkind, hba, ← ha, ← hab, hle]
    | false =>
      rw [hkind] at ha hab
      rw [← ha] at hba
      have hlt : a.startByte < b.startByte := by omega
      simp [survivors, lastOf, hkind, hba, ← ha, ← hab, List.orderedInsert, hlt]

/-- A stretch with a body keeps its nodes exactly when it is sound. -/
theorem covered_body_iff {first : Node} {rest : List Node} (hformed : s.Formed)
    (hparsed : Parsed s.nodes) (hbody : s.body = first :: rest) :
    Covered s.nodes (s.chunks fileName) ↔ s.Sound := by
  obtain ⟨trivia, body⟩ := s
  dsimp only at hbody
  subst hbody
  have hordered := hparsed.ordered
  rw [Stretch.nodes, pairwise_append] at hordered
  have htrivia : ∀ n ∈ trivia, n.isTrivia = true := hformed.trivia
  have hsolid : ∀ n ∈ trivia, 0 < solid n.text :=
    fun n hn => hparsed.solid n (mem_append_left _ hn) (htrivia n hn)
  have hsource : solid (joined (survivors trivia ++ first :: rest)) =
      solidIn (survivors trivia) + solidIn (first :: rest) := by
    rw [solid_joined]
    exact solidIn_append _ _
  constructor
  · intro h
    obtain ⟨c, hc⟩ : ∃ c, c = chunkOf fileName (groupKind first)
      (survivors trivia ++ first :: rest) := ⟨_, rfl⟩
    have hchunks : (Stretch.mk trivia (first :: rest)).chunks fileName = [c] := by
      rw [hc]
      rfl
    have hall : ∀ n ∈ trivia ++ first :: rest, n.inside c = true := by
      intro n hn
      obtain ⟨d, hd, hinside⟩ := h.placed n hn
      rw [hchunks] at hd
      rw [← mem_singleton.mp hd]
      exact hinside
    have hstands := h.stands c (by rw [hchunks]; exact mem_singleton_self c)
    rw [Stretch.nodes, filter_eq_self.mpr hall, hc] at hstands
    have hle := hstands.solid_le
    have hall : solidIn (trivia ++ first :: rest) ≤
        solidIn (survivors trivia) + solidIn (first :: rest) := by
      rw [← hsource, ← solid_trimmed]
      exact hle
    rw [solidIn_append, solidIn_trivia htrivia, solidIn_perm (survivors_perm trivia),
      solidIn_append] at hall
    obtain ⟨hcomments, hcomment⟩ := solidIn_lastOf isComment hsolid
    obtain ⟨hdocs, hdoc⟩ := solidIn_lastOf isDocstringExpression hsolid
    have hone := hcomment (by omega)
    have hone' := hdoc (by omega)
    have hne : first :: rest ≠ [] := cons_ne_nil first rest
    refine ⟨hone, hone', fun hnil => absurd hnil hne, fun hnil => absurd hnil hne, fun _ => ?_⟩
    have hkept := survivors_eq hordered.1 htrivia hsolid hone hone'
    refine hstands.closed ?_ (closed_trimmed _)
    change solid ((joined _).rdropWhile isWhitespace) ≤ _
    rw [solid_trimmed, solid_joined, hkept]
  · intro h
    have hkept := survivors_eq hordered.1 htrivia hsolid h.comment h.doc
    obtain ⟨c, hc⟩ : ∃ c, c = chunkOf fileName (groupKind first) (trivia ++ first :: rest) :=
      ⟨_, rfl⟩
    have hchunks : (Stretch.mk trivia (first :: rest)).chunks fileName = [c] := by
      rw [hc]
      change [chunkOf _ _ (survivors trivia ++ first :: rest)] = _
      rw [hkept]
    have hall : ∀ n ∈ trivia ++ first :: rest, n.inside c = true := by
      intro n hn
      rw [inside_iff, hc, chunkOf]
      constructor
      · rw [head?_eq_some_head (by simp)]
        exact start_of_head hparsed.ordered hn (head?_eq_some_head _)
      · rw [getLast?_eq_some_getLast (by simp)]
        exact end_of_last hparsed.ordered hn (getLast?_eq_some_getLast _)
    rw [hchunks]
    constructor
    · exact pairwise_singleton _ _
    · exact fun n hn => ⟨c, mem_singleton_self c, hall n hn⟩
    · intro n _ _ d hd e he _ _
      rw [mem_singleton.mp hd, mem_singleton.mp he]
    · intro d hd
      rw [mem_singleton.mp hd, Stretch.nodes, filter_eq_self.mpr hall, hc]
      exact stands_joined _ (h.closed (cons_ne_nil _ _))

theorem chunk_of_one (fileName kind : String) (n : Node) :
    n.inside (chunkOf fileName kind [n]) = true ∧
      (Stands [n.text] (chunkOf fileName kind [n]).sourceCode ↔ Closed n.text) := by
  refine ⟨inside_iff.mpr ⟨Nat.le_refl _, Nat.le_refl _⟩, ?_⟩
  have htexts : (texts [n]).flatten = n.text := by simp [texts]
  constructor
  · intro h
    have hclosed := h.closed (by
      change solid ((joined [n]).rdropWhile isWhitespace) ≤ solid (texts [n]).flatten
      rw [solid_trimmed, solid_joined]) (closed_trimmed _)
    change Closed (texts [n]).flatten at hclosed
    rw [htexts] at hclosed
    exact hclosed
  · intro h
    exact stands_joined [n] (by rw [htexts]; exact h)

theorem covered_one (kind : String) (n : Node) :
    Covered [n] [chunkOf fileName kind [n]] ↔ Closed n.text := by
  obtain ⟨hinside, hstands⟩ := chunk_of_one fileName kind n
  have hfilter : [n].filter (fun m => m.inside (chunkOf fileName kind [n])) = [n] := by
    simp [hinside]
  constructor
  · intro h
    have hthere := h.stands _ (mem_singleton_self _)
    rw [hfilter] at hthere
    exact hstands.mp hthere
  · intro h
    constructor
    · exact pairwise_singleton _ _
    · intro m hm
      rw [mem_singleton.mp hm]
      exact ⟨_, mem_singleton_self _, hinside⟩
    · intro m _ _ c hc d hd _ _
      rw [mem_singleton.mp hc, mem_singleton.mp hd]
    · intro c hc
      rw [mem_singleton.mp hc, hfilter]
      exact hstands.mpr h

/-- Two nodes that follow one another, each in a chunk of its own. -/
theorem covered_two (kind kind' : String) {a b : Node} (ha : a.text ≠ []) (hb : b.text ≠ [])
    (horder : a.endByte ≤ b.startByte) :
    Covered [a, b] [chunkOf fileName kind [a], chunkOf fileName kind' [b]] ↔
      Closed a.text ∧ Closed b.text := by
  have hwideA := wide_of_text ha
  have hwideB := wide_of_text hb
  obtain ⟨hinsideA, hstandsA⟩ := chunk_of_one fileName kind a
  obtain ⟨hinsideB, hstandsB⟩ := chunk_of_one fileName kind' b
  have houtA : ¬ a.inside (chunkOf fileName kind' [b]) = true := by
    rw [inside_iff]
    change ¬ (b.startByte ≤ a.startByte ∧ a.endByte ≤ b.endByte)
    omega
  have houtB : ¬ b.inside (chunkOf fileName kind [a]) = true := by
    rw [inside_iff]
    change ¬ (a.startByte ≤ b.startByte ∧ b.endByte ≤ a.endByte)
    omega
  have hfilterA : [a, b].filter (fun m => m.inside (chunkOf fileName kind [a])) = [a] := by
    simp [hinsideA, houtB]
  have hfilterB : [a, b].filter (fun m => m.inside (chunkOf fileName kind' [b])) = [b] := by
    simp [hinsideB, houtA]
  constructor
  · intro h
    have hthereA := h.stands (chunkOf fileName kind [a]) (by simp)
    have hthereB := h.stands (chunkOf fileName kind' [b]) (by simp)
    rw [hfilterA] at hthereA
    rw [hfilterB] at hthereB
    exact ⟨hstandsA.mp hthereA, hstandsB.mp hthereB⟩
  · rintro ⟨hclosedA, hclosedB⟩
    have hordered : [chunkOf fileName kind [a], chunkOf fileName kind' [b]].Pairwise
        fun c d => c.endByte ≤ d.startByte := by
      rw [pairwise_pair]
      exact horder
    constructor
    · exact hordered
    · intro n hn
      rcases mem_cons.mp hn with rfl | hn
      · exact ⟨_, mem_cons_self, hinsideA⟩
      · rw [mem_singleton.mp hn]
        exact ⟨_, mem_cons_of_mem _ (mem_singleton_self _), hinsideB⟩
    · intro n _ htext c hc d hd
      exact once_of_ordered hordered htext hc hd
    · intro c hc
      rcases mem_cons.mp hc with rfl | hc
      · rw [hfilterA]
        exact hstandsA.mpr hclosedA
      · rw [mem_singleton.mp hc, hfilterB]
        exact hstandsB.mpr hclosedB

theorem apart_of_pairwise (hordered : nodes.Pairwise fun a b => a.endByte ≤ b.startByte)
    {m : Node} (hn : n ∈ nodes) (hm : m ∈ nodes) :
    n = m ∨ n.endByte ≤ m.startByte ∨ m.endByte ≤ n.startByte := by
  induction hordered with
  | nil => exact absurd hn not_mem_nil
  | @cons first nodes hfirst hrest ih =>
    rcases mem_cons.mp hn with rfl | hlater
    · rcases mem_cons.mp hm with rfl | hlater'
      · exact .inl rfl
      · exact .inr (.inl (hfirst m hlater'))
    · rcases mem_cons.mp hm with rfl | hlater'
      · exact .inr (.inr (hfirst n hlater))
      · exact ih hlater hlater'

/-- Where every node of the kind is the last one there are no two of them. -/
theorem one_of_last {isKind : Node → Bool}
    (hordered : trivia.Pairwise fun a b => a.endByte ≤ b.startByte)
    (hsolid : ∀ n ∈ trivia, 0 < solid n.text)
    (hlast : ∀ n ∈ trivia, isKind n = true → n ∈ (lastOf isKind trivia).toList) :
    (trivia.filter isKind).length ≤ 1 := by
  have hfound := hordered.filter isKind
  have hall : ∀ n ∈ trivia.filter isKind, (trivia.filter isKind).getLast? = some n := by
    intro n hn
    obtain ⟨hmem, hkind⟩ := mem_filter.mp hn
    exact mem_toList.mp (hlast n hmem hkind)
  have hwide : ∀ n ∈ trivia.filter isKind, n.startByte < n.endByte :=
    fun n hn => wide_of_text (text_of_solid (hsolid n (mem_of_mem_filter hn)))
  generalize trivia.filter isKind = found at hfound hall hwide
  cases hfound with
  | nil => exact Nat.zero_le _
  | @cons a rest ha hrest =>
    cases rest with
    | nil => exact Nat.le_refl 1
    | cons b rest =>
      have hsame := (hall a mem_cons_self).symm.trans
        (hall b (mem_cons_of_mem a mem_cons_self))
      cases hsame
      have hbefore := ha a mem_cons_self
      have hself := hwide a mem_cons_self
      omega

/-- What is left at the end of a file keeps its nodes exactly when it is sound. -/
theorem covered_tail_iff (htrivia : ∀ n ∈ trivia, n.isTrivia = true) (hparsed : Parsed trivia)
    (hne : trivia ≠ []) :
    Covered trivia ((Stretch.mk trivia []).chunks fileName) ↔ (Stretch.mk trivia []).Sound := by
  have hsolid : ∀ n ∈ trivia, 0 < solid n.text := fun n hn => hparsed.solid n hn (htrivia n hn)
  have htext : ∀ n ∈ trivia, n.text ≠ [] := fun n hn => text_of_solid (hsolid n hn)
  have hchunks : (Stretch.mk trivia []).chunks fileName =
      (lastOf isComment trivia).toList.map (fun n => chunkOf fileName "comment" [n]) ++
        (lastOf isDocstringExpression trivia).toList.map fun n =>
          chunkOf fileName "docstring" [n] := rfl
  have hcases (hcomment : (trivia.filter isComment).length ≤ 1)
      (hdoc : (trivia.filter isDocstringExpression).length ≤ 1) :
      Covered trivia ((Stretch.mk trivia []).chunks fileName) ↔ (Stretch.mk trivia []).Sound := by
    have hsound : (Stretch.mk trivia []).Sound ↔
        (trivia.Pairwise fun a b => ¬(a.isDocstringExpression = true ∧ b.isComment = true)) ∧
          ∀ n ∈ trivia, Closed n.text :=
      ⟨fun h => ⟨h.order rfl, h.tail rfl⟩, fun h =>
        ⟨hcomment, hdoc, fun _ => h.1, fun _ => h.2, fun hnone => absurd rfl hnone⟩⟩
    rw [hsound, hchunks]
    rcases trivia_cases htrivia hcomment hdoc with rfl | ⟨n, rfl⟩ | ⟨a, b, rfl, hab, hba⟩
    · exact absurd rfl hne
    · have hn := not_comment_iff (htrivia n mem_cons_self)
      cases hkind : n.isComment with
      | true =>
        rw [hkind] at hn
        have hlast : lastOf isComment [n] = some n := by simp [lastOf, hkind]
        have hnone : lastOf isDocstringExpression [n] = none := by simp [lastOf, ← hn]
        rw [hlast, hnone]
        change Covered [n] [chunkOf fileName "comment" [n]] ↔ _
        rw [covered_one]
        simp
      | false =>
        rw [hkind] at hn
        have hlast : lastOf isDocstringExpression [n] = some n := by simp [lastOf, ← hn]
        have hnone : lastOf isComment [n] = none := by simp [lastOf, hkind]
        rw [hlast, hnone]
        change Covered [n] [chunkOf fileName "docstring" [n]] ↔ _
        rw [covered_one]
        simp
    · have ha := not_comment_iff (htrivia a (by simp))
      have horder : a.endByte ≤ b.startByte :=
        (pairwise_cons.mp hparsed.ordered).1 b mem_cons_self
      have htextA := htext a (by simp)
      have htextB := htext b (by simp)
      cases hkind : a.isComment with
      | true =>
        rw [hkind] at ha hab
        rw [← ha] at hba
        have hlast : lastOf isComment [a, b] = some a := by simp [lastOf, hkind, hba]
        have hlast' : lastOf isDocstringExpression [a, b] = some b := by
          simp [lastOf, ← ha, ← hab]
        rw [hlast, hlast']
        change Covered [a, b] [chunkOf fileName "comment" [a], chunkOf fileName "docstring" [b]] ↔ _
        rw [covered_two _ _ htextA htextB horder]
        simp [← ha]
      | false =>
        -- the comment's chunk comes before that of the docstring
        rw [hkind] at ha hab
        rw [← ha] at hba
        have hlast : lastOf isComment [a, b] = some b := by simp [lastOf, hkind, hba]
        have hlast' : lastOf isDocstringExpression [a, b] = some a := by
          simp [lastOf, ← ha, ← hab]
        rw [hlast, hlast']
        change Covered [a, b] [chunkOf fileName "comment" [b], chunkOf fileName "docstring" [a]] ↔ _
        have hwide := wide_of_text htextA
        refine iff_of_false ?_ ?_
        · intro h
          have hbefore : b.endByte ≤ a.startByte :=
            (pairwise_cons.mp h.ordered).1 _ mem_cons_self
          have hb := start_le_end b
          omega
        · rintro ⟨hpairs, -⟩
          exact pairwise_pair.mp hpairs ⟨ha.symm, hba⟩
  constructor
  · intro h
    have hheld : ∀ n ∈ trivia, n ∈ (lastOf isComment trivia).toList ∨
        n ∈ (lastOf isDocstringExpression trivia).toList := by
      intro n hn
      have hsame {isKind : Node → Bool} {kind : String} {c : Chunk} (hinside : n.inside c = true)
          (hc : c ∈ (lastOf isKind trivia).toList.map fun n => chunkOf fileName kind [n]) :
          n ∈ (lastOf isKind trivia).toList := by
        obtain ⟨m, hm, rfl⟩ := mem_map.mp hc
        have hwide := wide_of_text (text_of_solid (hsolid n hn))
        obtain ⟨hstart, hend⟩ := inside_iff.mp hinside
        change m.startByte ≤ n.startByte at hstart
        change n.endByte ≤ m.endByte at hend
        rcases apart_of_pairwise hparsed.ordered hn (mem_lastOf hm).1 with rfl | hout
        · exact hm
        · omega
      obtain ⟨c, hc, hinside⟩ := h.placed n hn
      rw [hchunks] at hc
      rcases mem_append.mp hc with hc | hc
      · exact .inl (hsame hinside hc)
      · exact .inr (hsame hinside hc)
    have hcomment : (trivia.filter isComment).length ≤ 1 := by
      refine one_of_last hparsed.ordered hsolid ?_
      intro n hn hkind
      rcases hheld n hn with hlast | hlast
      · exact hlast
      · have hdoc := (mem_lastOf hlast).2
        rw [comment_not_doc hkind] at hdoc
        cases hdoc
    have hdoc : (trivia.filter isDocstringExpression).length ≤ 1 := by
      refine one_of_last hparsed.ordered hsolid ?_
      intro n hn hkind
      rcases hheld n hn with hlast | hlast
      · rw [comment_not_doc (mem_lastOf hlast).2] at hkind
        cases hkind
      · exact hlast
    exact (hcases hcomment hdoc).mp h
  · intro h
    exact (hcases h.comment h.doc).mpr h

theorem covered_stretch_iff (hformed : s.Formed) (hparsed : Parsed s.nodes) :
    Covered s.nodes (s.chunks fileName) ↔ s.Sound := by
  cases hbody : s.body with
  | nil =>
    obtain ⟨trivia, body⟩ := s
    dsimp only at hbody
    subst hbody
    have hnodes : (Stretch.mk trivia []).nodes = trivia := append_nil trivia
    have hsome := hformed.some
    rw [hnodes] at hparsed hsome ⊢
    exact covered_tail_iff hformed.trivia hparsed hsome
  | cons first rest => exact covered_body_iff hformed hparsed hbody

end Stretches

/-- The chunks cover the nodes exactly when no stretch has two comments or two docstrings before
its body, the last one no docstring before its comment, and none ends in white space. -/
theorem chunks_cover_iff (fileName : String) {nodes : List Node} (hparsed : Parsed nodes) :
    Covered nodes (collectChunks fileName nodes) ↔ ∀ s ∈ stretches nodes, s.Sound := by
  have hformed : ∀ s ∈ stretches nodes, s.Formed :=
    stretchesFrom_formed (fun n hn => absurd hn not_mem_nil)
      (fun n hn => absurd hn not_mem_nil)
  rw [covered_parts hparsed hformed]
  constructor
  · intro h s hs
    obtain ⟨-, -, -, -, -, -, -, -, -, -, hpart⟩ := stretch_split hparsed hs
    exact (covered_stretch_iff (hformed s hs) hpart).mp (h s hs)
  · intro h s hs
    obtain ⟨-, -, -, -, -, -, -, -, -, -, hpart⟩ := stretch_split hparsed hs
    exact (covered_stretch_iff (hformed s hs) hpart).mpr (h s hs)

def nodeAt (startByte : Nat) (kind : String) (text : List Char) : Node :=
  ⟨kind, none, startByte, startByte + (utf8 text).length, text, rfl⟩

theorem chunks_cover_iff_commented :
    let nodes := [nodeAt 0 "comment" ['#'], nodeAt 2 "import_statement" ['i', ' ', 'a']]
    Covered nodes (collectChunks "a.py" nodes) := by
  have hparsed : Parsed
      [nodeAt 0 "comment" ['#'], nodeAt 2 "import_statement" ['i', ' ', 'a']] := by
    constructor
    · decide
    · decide
  apply (chunks_cover_iff "a.py" hparsed).mpr
  intro s hs
  rw [mem_singleton.mp hs]
  refine ⟨by decide, by decide, fun hnil => ?_, fun hnil => ?_, fun _ c hc => ?_⟩
  · cases hnil
  · cases hnil
  · cases hc
    decide

/-- Of two comments one after the other the first is in no chunk. -/
theorem chunks_lose_comment :
    ¬ ∀ (fileName : String) (nodes : List Node), Parsed nodes →
      Covered nodes (collectChunks fileName nodes) := by
  intro hall
  have hplaced := (hall "a.py" [nodeAt 0 "comment" ['#'], nodeAt 2 "comment" ['#'],
    nodeAt 4 "import_statement" ['i', ' ', 'a']] ⟨by decide, by decide⟩).placed
      (nodeAt 0 "comment" ['#']) mem_cons_self
  revert hplaced
  decide

end ColossalCode.Chunker
