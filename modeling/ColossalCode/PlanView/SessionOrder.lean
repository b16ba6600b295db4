import ColossalCode.PlanView.SessionManager
import Mathlib.Data.String.Basic

/-! What the tree of sessions shows of its entries, and in which order. -/
namespace ColossalCode.PlanView
open List Option SessionManager

variable {entries done rest : List OrchestratorEntry} {entry : OrchestratorEntry} {root : Session}
  {base path : List (List Char)} {sessions : List Session}

/-- The status of the last entry with the prefix. -/
def lastStatus (entries : List OrchestratorEntry) (stepPrefix : String) : Option SessionStatus :=
  ((entries.filter fun entry => entry.stepPrefix = stepPrefix).getLast?).map (·.status)

theorem lastStatus_append (entries : List OrchestratorEntry) (entry : OrchestratorEntry)
    (stepPrefix : String) : lastStatus (entries ++ [entry]) stepPrefix =
      if entry.stepPrefix = stepPrefix then some entry.status else lastStatus entries stepPrefix := by
  unfold lastStatus
  rw [filter_append]
  by_cases h : entry.stepPrefix = stepPrefix
  · rw [if_pos h]
    simp [h]
  · rw [if_neg h]
    simp [h]

/-- An entry below the root has the path, or one below it. -/
def OnWay (entries : List OrchestratorEntry) (path : List (List Char)) : Prop :=
  ∃ entry ∈ entries, entry.stepPrefix ≠ "" ∧ path <+: segments entry.stepPrefix

/-- The status that a node below the root is given. -/
def nodeStatus (entries : List OrchestratorEntry) (path : List (List Char)) : SessionStatus :=
  if keyOf path = "" then .pending else (lastStatus entries (keyOf path)).getD .pending

/-- What a tree that was built from the entries of one specification shows. -/
structure Grown (entries : List OrchestratorEntry) (root : Session) : Prop where
  unlabelled : root.stepPrefix = none
  ordered : Ordered [] root.children
  root_status : root.status = (lastStatus entries "").getD .pending
  shown : ∀ path, Dotless path → path ≠ [] → OnWay entries path →
    statusAt [] root.children path = some (nodeStatus entries path)
  only : ∀ path, Dotless path → path ≠ [] → ¬ OnWay entries path →
    statusAt [] root.children path = none

theorem statusAt_nil (base path : List (List Char)) : statusAt base [] path = none := by
  cases path with
  | nil => rfl
  | cons segment rest => cases rest <;> rfl

theorem grown_empty : Grown [] emptyRoot where
  unlabelled := rfl
  ordered := .nil []
  root_status := rfl
  shown := fun _ _ _ ⟨_, hentry, _⟩ => absurd hentry not_mem_nil
  only := fun path _ _ _ => statusAt_nil [] path

theorem onWay_append : OnWay (entries ++ [entry]) path ↔
    OnWay entries path ∨ entry.stepPrefix ≠ "" ∧ path <+: segments entry.stepPrefix := by
  simp only [OnWay, mem_append, mem_singleton, or_and_right, exists_or, exists_eq_left]

theorem nodeStatus_same (h : path = segments entry.stepPrefix)
    (hbelow : entry.stepPrefix ≠ "") : nodeStatus (entries ++ [entry]) path = entry.status := by
  have hkey : keyOf path = entry.stepPrefix := by rw [h, keyOf_segments]
  rw [nodeStatus, hkey, if_neg hbelow, lastStatus_append, if_pos rfl, getD_some]

theorem nodeStatus_other (hpath : Dotless path) (hsome : path ≠ [])
    (h : path ≠ segments entry.stepPrefix) :
    nodeStatus (entries ++ [entry]) path = nodeStatus entries path := by
  have hkey : entry.stepPrefix ≠ keyOf path := by
    intro hsame
    exact h (by rw [hsame, segments_keyOf hpath hsome])
  rw [nodeStatus, nodeStatus, lastStatus_append, if_neg hkey]

/-- A node that no entry has the path of is pending. -/
theorem nodeStatus_off (hpath : Dotless path) (hsome : path ≠ []) (h : ¬ OnWay entries path) :
    nodeStatus entries path = .pending := by
  unfold nodeStatus
  split
  · rfl
  · rename_i hkey
    have hnone : (entries.filter fun entry => entry.stepPrefix = keyOf path) = [] := by
      rw [filter_eq_nil_iff]
      intro entry hentry hsame
      rw [decide_eq_true_eq] at hsame
      refine h ⟨entry, hentry, hsame ▸ hkey, ?_⟩
      rw [hsame, segments_keyOf hpath hsome]
    rw [lastStatus, hnone]
    rfl

theorem Grown.insert_root (h : Grown entries root) (hroot : entry.stepPrefix = "") :
    Grown (entries ++ [entry]) (insertEntry root entry) := by
  have hinsert : insertEntry root entry =
      { root with status := entry.status, role := some entry.role } := if_pos hroot
  have hway : ∀ path, OnWay (entries ++ [entry]) path ↔ OnWay entries path := by
    intro path
    rw [onWay_append]
    exact or_iff_left fun hboth => hboth.1 hroot
  have hstatus : ∀ path, nodeStatus (entries ++ [entry]) path = nodeStatus entries path := by
    intro path
    unfold nodeStatus
    split
    · rfl
    · rename_i hkey
      rw [lastStatus_append, if_neg fun hsame => hkey (hsame.symm.trans hroot)]
  rw [hinsert]
  refine ⟨h.unlabelled, h.ordered, ?_, ?_, ?_⟩
  · rw [lastStatus_append, if_pos hroot]
    rfl
  · intro path hdotless hpath honWay
    rw [hstatus]
    exact h.shown path hdotless hpath ((hway path).mp honWay)
  · intro path hdotless hpath honWay
    exact h.only path hdotless hpath fun hold => honWay ((hway path).mpr hold)

theorem Grown.insert_below (h : Grown entries root) (hbelow : entry.stepPrefix ≠ "") :
    Grown (entries ++ [entry]) (insertEntry root entry) := by
  have hbase : Dotless [] := fun _ h => absurd h not_mem_nil
  have hdotless := dotless_segments entry.stepPrefix
  have hinsert : insertEntry root entry = insertAt entry [] (segments entry.stepPrefix) root :=
    if_neg hbelow
  rw [hinsert]
  refine ⟨?_, h.ordered.insertAt hbase hdotless, ?_, ?_, ?_⟩
  · rw [insertAt_stepPrefix]
    exact h.unlabelled
  · rw [lastStatus_append, if_neg hbelow, ← h.root_status]
    cases hsegments : segments entry.stepPrefix with
    | nil => exact absurd hsegments (segments_ne_nil _)
    | cons segment rest => rfl
  · intro path hpath hsome honWay
    rw [statusAt_insertAt hbase hdotless hpath]
    by_cases hsame : path = segments entry.stepPrefix
    · rw [if_pos ⟨hsome, hsame⟩, nodeStatus_same hsame hbelow]
    rw [if_neg fun hboth => hsame hboth.2, nodeStatus_other hpath hsome hsame]
    by_cases hold : OnWay entries path
    · rw [h.shown path hpath hsome hold, getD_some, ite_self]
    · have hway := ((onWay_append.mp honWay).resolve_left hold).2
      rw [if_pos ⟨hsome, hway⟩, h.only path hpath hsome hold, nodeStatus_off hpath hsome hold]
      rfl
  · intro path hpath hsome honWay
    rw [onWay_append, not_or] at honWay
    have hapart : ¬ path <+: segments entry.stepPrefix := fun hway => honWay.2 ⟨hbelow, hway⟩
    rw [statusAt_insertAt hbase hdotless hpath, if_neg ?_, if_neg fun hboth => hapart hboth.2]
    · exact h.only path hpath hsome honWay.1
    · rintro ⟨-, rfl⟩
      exact hapart prefix_rfl

theorem Grown.foldl (h : Grown done root) (rest : List OrchestratorEntry) :
    Grown (done ++ rest) (rest.foldl insertEntry root) := by
  induction rest generalizing done root with
  | nil => rwa [append_nil]
  | cons entry rest ih =>
    have hinsert : Grown (done ++ [entry]) (insertEntry root entry) := by
      by_cases hroot : entry.stepPrefix = ""
      · exact h.insert_root hroot
      · exact h.insert_below hroot
    have hrest := ih hinsert
    rwa [append_assoc, singleton_append] at hrest

/-- Entries with one prefix stay in their order when they are sorted. -/
theorem filter_orderedInsert (entry : OrchestratorEntry) (entries : List OrchestratorEntry)
    (stepPrefix : String) :
    ((entries.orderedInsert (fun a b => a.stepPrefix ≤ b.stepPrefix) entry).filter
      fun entry => entry.stepPrefix = stepPrefix) =
      (entry :: entries).filter fun entry => entry.stepPrefix = stepPrefix := by
  induction entries with
  | nil => rfl
  | cons first entries ih =>
    rw [orderedInsert_cons]
    split
    · rfl
    · rename_i hlater
      have hne : first.stepPrefix ≠ entry.stepPrefix := fun hsame => hlater (by rw [hsame])
      rw [filter_cons, ih]
      by_cases hentry : entry.stepPrefix = stepPrefix
      · have hfirst : first.stepPrefix ≠ stepPrefix := fun hsame => hne (hsame.trans hentry.symm)
        simp [hentry, hfirst]
      · simp [hentry, filter_cons]

theorem lastStatus_sorted (entries : List OrchestratorEntry) (stepPrefix : String) :
    lastStatus (entries.insertionSort fun a b => a.stepPrefix ≤ b.stepPrefix) stepPrefix =
      lastStatus entries stepPrefix := by
  have hfilter : ((entries.insertionSort fun a b => a.stepPrefix ≤ b.stepPrefix).filter
      fun entry => entry.stepPrefix = stepPrefix) =
        entries.filter fun entry => entry.stepPrefix = stepPrefix := by
    induction entries with
    | nil => rfl
    | cons entry entries ih =>
      rw [insertionSort_cons, filter_orderedInsert, filter_cons, ih, filter_cons]
  rw [lastStatus, hfilter, ← lastStatus]

theorem specRoot_grown (entries : List OrchestratorEntry) (specId : String) :
    Grown (ofSpec entries specId) (specRoot entries specId) := by
  let steps := (ofSpec entries specId).insertionSort fun a b => a.stepPrefix ≤ b.stepPrefix
  have hgrown : Grown steps (specRoot entries specId) := grown_empty.foldl steps
  have hway : ∀ path, OnWay steps path ↔ OnWay (ofSpec entries specId) path := by
    intro path
    simp only [OnWay, steps, mem_insertionSort]
  have hstatus : ∀ path, nodeStatus steps path = nodeStatus (ofSpec entries specId) path := by
    intro path
    rw [nodeStatus, nodeStatus, lastStatus_sorted]
  refine ⟨hgrown.unlabelled, hgrown.ordered, ?_, ?_, ?_⟩
  · rw [hgrown.root_status, lastStatus_sorted]
  · intro path hpath hsome honWay
    rw [hgrown.shown path hpath hsome ((hway path).mpr honWay), hstatus]
  · intro path hpath hsome honWay
    exact hgrown.only path hpath hsome fun h => honWay ((hway path).mp h)

def isDigit (c : Char) : Bool := '0' ≤ c && c ≤ '9'

/-- The number of a step, if its index is one. -/
def stepNumber (segment : List Char) : Option Nat :=
  if segment ≠ [] ∧ segment.all isDigit = true then
    some (segment.foldl (fun n c => 10 * n + (c.toNat - '0'.toNat)) 0)
  else none

def Session.number (node : Session) : Option Nat :=
  node.stepPrefix.bind fun stepPrefix => (segments stepPrefix).getLast?.bind stepNumber

/-- The children of each node whose indices are numbers stand in the order of these. -/
inductive Numbered : List Session → Prop
  | intro {sessions : List Session}
      (siblings : sessions.Pairwise fun a b => ∀ m n, a.number = some m → b.number = some n → m ≤ n)
      (inside : ∀ node ∈ sessions, Numbered node.children) : Numbered sessions

/-- Siblings whose numbers are ordered as texts are ordered so as numbers. -/
def NumbersSorted (entries : List OrchestratorEntry) : Prop :=
  ∀ first ∈ entries, ∀ second ∈ entries, first.specId = second.specId → ∀ base s t m n,
    base ++ [s] <+: segments first.stepPrefix → base ++ [t] <+: segments second.stepPrefix →
      stepNumber s = some m → stepNumber t = some n → s < t → m ≤ n

theorem digits_of_number {s : List Char} {m : Nat} (h : stepNumber s = some m) :
    s ≠ [] ∧ ∀ c ∈ s, isDigit c = true := by
  unfold stepNumber at h
  split at h
  · rename_i hdigits
    exact ⟨hdigits.1, all_eq_true.mp hdigits.2⟩
  · cases h

theorem dot_lt_digit {c : Char} (h : isDigit c = true) : '.' < c := by
  have hzero : '0' ≤ c := by
    rw [isDigit, Bool.and_eq_true, decide_eq_true_eq] at h
    exact h.1
  exact lt_of_lt_of_le (by decide) hzero

/-- A text before another comes before it with anything behind that does not begin with a digit. -/
theorem lt_append {s t u v : List Char} (hst : s < t) (hdigits : ∀ c ∈ t, isDigit c = true)
    (hu : u = [] ∨ ∃ rest, u = '.' :: rest) : s ++ u < t ++ v := by
  induction s generalizing t with
  | nil =>
    cases t with
    | nil => exact absurd hst (not_lt_nil _)
    | cons d t =>
      rcases hu with rfl | ⟨rest, rfl⟩
      · exact nil_lt_cons _ _
      · exact List.Lex.rel (dot_lt_digit (hdigits d mem_cons_self))
  | cons c s ih =>
    cases t with
    | nil => exact absurd hst (not_lt_nil _)
    | cons d t =>
      rcases cons_lt_cons_iff.mp hst with hlt | ⟨rfl, hlt⟩
      · exact List.Lex.rel hlt
      · exact cons_lt_cons_iff.mpr
          (.inr ⟨rfl, ih hlt fun c hc => hdigits c (mem_cons_of_mem _ hc)⟩)

variable {s t segment : List Char} {node : Session}

/-- A key begins with the segments of the nodes above. -/
theorem keyOf_append (base : List (List Char)) (s : List Char) (rest : List (List Char)) :
    ∃ u, (u = [] ∨ ∃ tail, u = '.' :: tail) ∧
      (keyOf (base ++ s :: rest)).toList = base.flatMap (· ++ ['.']) ++ (s ++ u) := by
  simp only [keyOf, String.toList_ofList]
  induction base with
  | nil =>
    cases rest with
    | nil => exact ⟨[], .inl rfl, by simp⟩
    | cons next rest =>
      refine ⟨'.' :: ['.'].intercalate (next :: rest), .inr ⟨_, rfl⟩, ?_⟩
      rw [nil_append, intercalate_cons_cons]
      simp
  | cons first base ih =>
    obtain ⟨u, hu, hkey⟩ := ih
    refine ⟨u, hu, ?_⟩
    rw [cons_append, intercalate_cons_of_ne_nil (by simp), hkey]
    simp

theorem prefix_lt {first second : String}
    (hfirst : base ++ [s] <+: segments first) (hsecond : base ++ [t] <+: segments second)
    (hdigits : ∀ c ∈ t, isDigit c = true) (hst : s < t) : first < second := by
  obtain ⟨afterFirst, hafterFirst⟩ := hfirst
  obtain ⟨afterSecond, hafterSecond⟩ := hsecond
  rw [append_assoc, singleton_append] at hafterFirst hafterSecond
  obtain ⟨u, hu, hkeyFirst⟩ := keyOf_append base s afterFirst
  obtain ⟨v, -, hkeySecond⟩ := keyOf_append base t afterSecond
  rw [hafterFirst, keyOf_segments] at hkeyFirst
  rw [hafterSecond, keyOf_segments] at hkeySecond
  rw [String.lt_iff_toList_lt, hkeyFirst, hkeySecond]
  exact append_left_lt (lt_append hst hdigits hu)

/-- Of two labels below a node, the first is the lesser text if both end in a number. -/
def Before (base : List (List Char)) (first second : Option String) : Prop :=
  ∀ s t m n, first = some (keyOf (base ++ [s])) → second = some (keyOf (base ++ [t])) →
    stepNumber s = some m → stepNumber t = some n → s < t

/-- The numbers of siblings are in the order of texts. -/
inductive Climbs : List (List Char) → List Session → Prop
  | intro {base : List (List Char)} {sessions : List Session}
      (siblings : (sessions.map (·.stepPrefix)).Pairwise (Before base))
      (inside : ∀ node ∈ sessions, ∀ segment, '.' ∉ segment →
        node.stepPrefix = some (keyOf (base ++ [segment])) →
          Climbs (base ++ [segment]) node.children) : Climbs base sessions

theorem Climbs.nil (base : List (List Char)) : Climbs base [] :=
  .intro .nil fun _ h => absurd h not_mem_nil

theorem number_dotless {m : Nat} (h : stepNumber s = some m) : '.' ∉ s :=
  fun hdot => absurd ((digits_of_number h).2 _ hdot) (by decide)

/-- The node of a child, as the tree shows it. -/
theorem statusAt_child (hordered : Ordered base sessions)
    (hnode : node ∈ sessions) (hlabel : node.stepPrefix = some (keyOf (base ++ [segment])))
    (path : List (List Char)) : statusAt base sessions (segment :: path) =
      if path = [] then some node.status else statusAt (base ++ [segment]) node.children path := by
  obtain ⟨-, hdistinct, -⟩ := hordered
  have hfind := find_of_distinct hdistinct hnode hlabel
  cases path with
  | nil => simp only [statusAt, hfind, if_true, map_some]
  | cons next rest => simp only [statusAt, hfind, reduceCtorEq, if_false, bind_some]

/-- A new entry keeps the order if its numbers come after those of the siblings that are there. -/
theorem Climbs.insertAt (h : Climbs base node.children)
    (hordered : Ordered base node.children) (hbase : Dotless base) (hpath : Dotless path)
    (hafter : ∀ front s t m n, front ++ [t] <+: path →
      (statusAt base node.children (front ++ [s])).isSome = true → stepNumber s = some m →
        stepNumber t = some n → s = t ∨ s < t) :
    Climbs base (insertAt entry base path node).children := by
  induction path generalizing base node with
  | nil => exact h
  | cons segment path ih =>
    obtain ⟨hsegment, hrest⟩ := hpath.cons_inv
    obtain ⟨hsiblings, hinside⟩ := h
    let new : Session := { status := .pending, stepPrefix := some (keyOf (base ++ [segment]))
                           role := some entry.role, children := [] }
    have hkeeps : ∀ node, (PlanView.insertAt entry (base ++ [segment]) path node).stepPrefix =
        node.stepPrefix := fun _ => insertAt_stepPrefix
    have hnew : new.stepPrefix = some (keyOf (base ++ [segment])) := rfl
    refine .intro ?_ ?_
    · refine (map_descend hkeeps hnew).symm ▸ ?_
      by_cases hmem : some (keyOf (base ++ [segment])) ∈ node.children.map (·.stepPrefix)
      · rwa [if_pos hmem]
      · rw [if_neg hmem, pairwise_append]
        refine ⟨hsiblings, pairwise_singleton _ _, ?_⟩
        intro label hlabel last hlast s t m n hs ht hm hn
        rw [mem_singleton.mp hlast, some.injEq] at ht
        have hsame : segment = t := (keyOf_inj hbase (number_dotless hn) hsegment).mp ht
        obtain ⟨child, hchild, rfl⟩ := mem_map.mp hlabel
        have hthere := statusAt_child hordered hchild hs []
        have hafter' := hafter [] s t m n (by simp [hsame])
          (by rw [nil_append, hthere]; rfl) hm hn
        rcases hafter' with hequal | hless
        · refine absurd ?_ hmem
          rw [hsame, ← hequal, ← hs]
          exact mem_map_of_mem hchild
        · exact hless
    · intro child hchild other hother hkey
      rcases mem_descend hchild with hold | rfl
      · exact hinside child hold other hother hkey
      · cases hfind : node.children.find? fun node =>
            node.stepPrefix = some (keyOf (base ++ [segment])) with
        | none =>
          rw [hfind, getD_none, hkeeps, hnew, some.injEq] at hkey
          obtain rfl := (keyOf_inj hbase hother hsegment).mp hkey
          rw [getD_none]
          refine ih (.nil _) (.nil _) (hbase.snoc hsegment) hrest ?_
          intro front s t m n _ hthere
          rw [statusAt_nil] at hthere
          cases hthere
        | some found =>
          have hfound : found ∈ node.children := mem_of_find?_eq_some hfind
          have hlabel : found.stepPrefix = some (keyOf (base ++ [segment])) := by
            simpa using List.find?_some hfind
          rw [hfind, getD_some, hkeeps, hlabel, some.injEq] at hkey
          obtain rfl := (keyOf_inj hbase hother hsegment).mp hkey
          rw [getD_some]
          obtain ⟨-, -, hbelow⟩ := id hordered
          refine ih (hinside found hfound segment hsegment hlabel)
            (hbelow found hfound segment hsegment hlabel) (hbase.snoc hsegment) hrest ?_
          intro front s t m n hway hthere
          refine hafter (segment :: front) s t m n (by simpa using hway) ?_
          rw [cons_append, statusAt_child hordered hfound hlabel, if_neg (by simp)]
          exact hthere

/-- Entries that are inserted in the order of their prefixes give a tree in the order of texts. -/
theorem climbs_foldl (hgrown : Grown done root) (hclimbs : Climbs [] root.children)
    (hsorted : (done ++ rest).Pairwise fun a b => a.stepPrefix ≤ b.stepPrefix) :
    Climbs [] (rest.foldl insertEntry root).children := by
  induction rest generalizing done root with
  | nil => exact hclimbs
  | cons entry rest ih =>
    have hassoc : done ++ entry :: rest = (done ++ [entry]) ++ rest := by simp
    have hinsert : Grown (done ++ [entry]) (insertEntry root entry) := hgrown.foldl [entry]
    rw [hassoc] at hsorted
    refine ih hinsert ?_ hsorted
    by_cases hroot : entry.stepPrefix = ""
    · rw [insertEntry, if_pos hroot]
      exact hclimbs
    · rw [insertEntry, if_neg hroot]
      refine hclimbs.insertAt hgrown.ordered (fun _ h => absurd h not_mem_nil)
        (dotless_segments _) ?_
      intro front s t m n hway hthere hs ht
      have hdotless : Dotless (front ++ [s]) := by
        refine Dotless.snoc (fun segment hsegment => ?_) (number_dotless hs)
        exact dotless_segments _ segment (hway.subset (mem_append_left _ hsegment))
      obtain ⟨other, hother, -, hbefore⟩ : OnWay done (front ++ [s]) := by
        by_contra hoff
        rw [hgrown.only _ hdotless (by simp) hoff] at hthere
        cases hthere
      have hle : other.stepPrefix ≤ entry.stepPrefix := by
        rw [pairwise_append, pairwise_append] at hsorted
        exact hsorted.1.2.2 other hother entry mem_cons_self
      rcases lt_trichotomy s t with hlt | heq | hgt
      · exact .inr hlt
      · exact .inl heq
      · exact absurd (prefix_lt hway hbefore (digits_of_number hs).2 hgt) (not_lt_of_ge hle)

theorem specRoot_climbs (entries : List OrchestratorEntry) (specId : String) :
    Climbs [] (specRoot entries specId).children := by
  refine climbs_foldl grown_empty (.nil []) ?_
  have htotal : Std.Total fun a b : OrchestratorEntry => a.stepPrefix ≤ b.stepPrefix :=
    ⟨fun a b => le_total a.stepPrefix b.stepPrefix⟩
  have htrans : IsTrans OrchestratorEntry fun a b => a.stepPrefix ≤ b.stepPrefix :=
    ⟨fun _ _ _ => le_trans⟩
  exact pairwise_insertionSort _ _

theorem number_label (hbase : Dotless base)
    (hsegment : '.' ∉ segment) (hlabel : node.stepPrefix = some (keyOf (base ++ [segment]))) :
    node.number = stepNumber segment := by
  rw [Session.number, hlabel, bind_some,
    segments_keyOf (hbase.snoc hsegment) (by simp), List.getLast?_concat, bind_some]

/-- Of two nodes in a list one stands before the other. -/
theorem either_before {R : Session → Session → Prop} {a b : Session} (h : sessions.Pairwise R)
    (ha : a ∈ sessions) (hb : b ∈ sessions) (hne : a ≠ b) : R a b ∨ R b a := by
  induction h with
  | nil => exact absurd ha not_mem_nil
  | cons hfirst _ ih =>
    rcases mem_cons.mp ha with rfl | hbehind
    · exact .inl (hfirst b ((mem_cons.mp hb).resolve_left (Ne.symm hne)))
    · rcases mem_cons.mp hb with rfl | hbehind'
      · exact .inr (hfirst a hbehind)
      · exact ih hbehind hbehind'

theorem exists_child (h : (statusAt base sessions (segment :: path)).isSome = true) :
    ∃ node ∈ sessions, node.stepPrefix = some (keyOf (base ++ [segment])) := by
  cases hfind : sessions.find? fun node => node.stepPrefix = some (keyOf (base ++ [segment])) with
  | none => cases path <;> simp [statusAt, hfind] at h
  | some node => exact ⟨node, mem_of_find?_eq_some hfind, by simpa using List.find?_some hfind⟩

/-- Where the texts of siblings are in order, so are their numbers if these are ordered alike. -/
theorem numbered_of_sorted (hclimbs : Climbs base sessions) (hordered : Ordered base sessions)
    (hbase : Dotless base)
    (hsorted : ∀ front s t m n, Dotless front →
      (statusAt base sessions (front ++ [s])).isSome = true →
        (statusAt base sessions (front ++ [t])).isSome = true → stepNumber s = some m →
          stepNumber t = some n → s < t → m ≤ n) : Numbered sessions := by
  induction hclimbs with
  | @intro base sessions siblings inside ih =>
    obtain ⟨hlabelled, -, hbelow⟩ := id hordered
    refine .intro ?_ ?_
    · rw [pairwise_map] at siblings
      refine siblings.imp_of_mem fun {a b} ha hb hbefore m n hm hn => ?_
      obtain ⟨s, hs, hlabelA⟩ := hlabelled a ha
      obtain ⟨t, ht, hlabelB⟩ := hlabelled b hb
      rw [number_label hbase hs hlabelA] at hm
      rw [number_label hbase ht hlabelB] at hn
      refine hsorted [] s t m n (fun _ h => absurd h not_mem_nil) ?_ ?_ hm hn
        (hbefore s t m n hlabelA hlabelB hm hn)
      · rw [nil_append, statusAt_child hordered ha hlabelA, if_pos rfl]
        rfl
      · rw [nil_append, statusAt_child hordered hb hlabelB, if_pos rfl]
        rfl
    · intro node hnode
      obtain ⟨segment, hsegment, hlabel⟩ := hlabelled node hnode
      refine ih node hnode segment hsegment hlabel (hbelow node hnode segment hsegment hlabel)
        (hbase.snoc hsegment) ?_
      intro front s t m n hfront hs ht
      refine hsorted (segment :: front) s t m n ?_ ?_ ?_
      · intro other hother
        rcases mem_cons.mp hother with rfl | hother
        · exact hsegment
        · exact hfront other hother
      · rw [cons_append, statusAt_child hordered hnode hlabel, if_neg (by simp)]
        exact hs
      · rw [cons_append, statusAt_child hordered hnode hlabel, if_neg (by simp)]
        exact ht

/-- In a numbered tree the numbers of siblings are ordered like their texts. -/
theorem sorted_of_numbered (hclimbs : Climbs base sessions) (hordered : Ordered base sessions)
    (hnumbered : Numbered sessions) {front : List (List Char)} (hbase : Dotless base)
    (hfront : Dotless front)
    {m n : Nat} (hs : (statusAt base sessions (front ++ [s])).isSome = true)
    (ht : (statusAt base sessions (front ++ [t])).isSome = true) (hm : stepNumber s = some m)
    (hn : stepNumber t = some n) (hst : s < t) : m ≤ n := by
  induction front generalizing base sessions with
  | nil =>
    obtain ⟨a, ha, hlabelA⟩ := exists_child hs
    obtain ⟨b, hb, hlabelB⟩ := exists_child ht
    obtain ⟨siblings, -⟩ := hclimbs
    obtain ⟨numbers, -⟩ := hnumbered
    rw [pairwise_map] at siblings
    have hne : a ≠ b := by
      rintro rfl
      rw [hlabelA, some.injEq] at hlabelB
      have hsame := (keyOf_inj hbase (number_dotless hn) (number_dotless hm)).mp hlabelB
      exact lt_irrefl _ (hsame ▸ hst)
    have hnumberA := number_label hbase (number_dotless hm) hlabelA
    have hnumberB := number_label hbase (number_dotless hn) hlabelB
    rcases either_before (siblings.and numbers) ha hb hne with ⟨-, hle⟩ | ⟨hbefore, -⟩
    · exact hle m n (hnumberA.trans hm) (hnumberB.trans hn)
    · exact absurd (hbefore t s n m hlabelB hlabelA hn hm) (not_lt_of_gt hst)
  | cons segment front ih =>
    obtain ⟨hsegment, hfront'⟩ := hfront.cons_inv
    obtain ⟨node, hnode, hlabel⟩ := exists_child hs
    rw [cons_append, statusAt_child hordered hnode hlabel, if_neg (by simp)] at hs ht
    obtain ⟨-, hclimbs'⟩ := hclimbs
    obtain ⟨-, -, hordered'⟩ := hordered
    obtain ⟨-, hnumbered'⟩ := hnumbered
    exact ih (hclimbs' node hnode segment hsegment hlabel)
      (hordered' node hnode segment hsegment hlabel) (hnumbered' node hnode) (hbase.snoc hsegment)
      hfront' hs ht

/-- What an update shows: a root for each specification, with the statuses of its entries at the
paths that their prefixes give and on the way there, each once, and steps in the order of their
numbers. -/
structure Displays (entries : List OrchestratorEntry) (sessions : List Session) : Prop where
  roots : ∃ specIds : List String, specIds.Nodup ∧
    (∀ specId, specId ∈ specIds ↔ ∃ entry ∈ entries, entry.specId = specId) ∧
      List.Forall₂ (fun specId root => Grown (ofSpec entries specId) root) specIds sessions
  numbered : ∀ root ∈ sessions, Numbered root.children

theorem sessionsOf_roots (entries : List OrchestratorEntry) :
    ∃ specIds : List String, specIds.Nodup ∧
      (∀ specId, specId ∈ specIds ↔ ∃ entry ∈ entries, entry.specId = specId) ∧
        List.Forall₂ (fun specId root => Grown (ofSpec entries specId) root) specIds
          (sessionsOf entries) := by
  refine ⟨((entries.map (·.specId)).dedup).insertionSort fun a b => a ≤ b, ?_, ?_, ?_⟩
  · exact (List.perm_insertionSort _ _).nodup_iff.mpr (List.nodup_dedup _)
  · intro specId
    simp only [List.mem_insertionSort, List.mem_dedup, List.mem_map]
  · rw [sessionsOf, List.forall₂_map_right_iff, List.forall₂_same]
    exact fun specId _ => specRoot_grown entries specId

/-- A path is shown in the tree of a specification if it is on the way to one of its entries. -/
theorem shown_iff (entries : List OrchestratorEntry) (specId : String) (hpath : Dotless path)
    (hsome : path ≠ []) : (statusAt [] (specRoot entries specId).children path).isSome = true ↔
      OnWay (ofSpec entries specId) path := by
  have hgrown := specRoot_grown entries specId
  by_cases honWay : OnWay (ofSpec entries specId) path
  · rw [hgrown.shown path hpath hsome honWay]
    exact iff_of_true rfl honWay
  · rw [hgrown.only path hpath hsome honWay]
    exact iff_of_false (by simp) honWay

/-- A tree is in the order of numbers if the texts of its numbers are. -/
theorem displays_iff (entries : List OrchestratorEntry) :
    Displays entries (sessionsOf entries) ↔ NumbersSorted entries := by
  have hroot : Dotless [] := fun _ h => absurd h not_mem_nil
  constructor
  · intro h first hfirst second hsecond hspec front s t m n hs ht hm hn hst
    have hfront : Dotless front := fun segment hsegment =>
      dotless_segments _ segment (hs.subset (mem_append_left _ hsegment))
    have hshown : ∀ entry ∈ entries, entry.specId = first.specId → ∀ u k,
        stepNumber u = some k → front ++ [u] <+: segments entry.stepPrefix →
          (statusAt [] (specRoot entries first.specId).children (front ++ [u])).isSome = true := by
      intro entry hentry hsame u k hu hway
      rw [shown_iff _ _ (hfront.snoc (number_dotless hu)) (by simp)]
      refine ⟨entry, mem_ofSpec.mpr ⟨hentry, hsame⟩, ?_, hway⟩
      intro hempty
      have hsegments : segments entry.stepPrefix = [[]] := by rw [hempty]; rfl
      rw [hsegments] at hway
      have hmem := hway.subset (mem_append_right _ (mem_singleton_self u))
      exact (digits_of_number hu).1 (mem_singleton.mp hmem)
    have hgrown := specRoot_grown entries first.specId
    exact sorted_of_numbered (specRoot_climbs entries first.specId) hgrown.ordered
      (h.numbered _ (mem_sessionsOf.mpr ⟨first, hfirst, rfl⟩)) hroot hfront
      (hshown first hfirst rfl s m hm hs) (hshown second hsecond hspec.symm t n hn ht) hm hn hst
  · intro h
    refine ⟨sessionsOf_roots entries, fun root hmem => ?_⟩
    obtain ⟨entry, hentry, rfl⟩ := mem_sessionsOf.mp hmem
    have hgrown := specRoot_grown entries entry.specId
    refine numbered_of_sorted (specRoot_climbs entries entry.specId) hgrown.ordered hroot ?_
    intro front s t m n hfront hs ht hm hn hst
    rw [shown_iff _ _ (hfront.snoc (number_dotless hm)) (by simp)] at hs
    rw [shown_iff _ _ (hfront.snoc (number_dotless hn)) (by simp)] at ht
    obtain ⟨first, hfirst, -, hwayFirst⟩ := hs
    obtain ⟨second, hsecond, -, hwaySecond⟩ := ht
    rw [mem_ofSpec] at hfirst hsecond
    exact h first hfirst.1 second hsecond.1 (hfirst.2.trans hsecond.2.symm) front s t m n hwayFirst
      hwaySecond hm hn hst

/-- What holds in every state that a sequence of operations goes through, and after its updates. -/
structure TreeLaws (actions : List SessionAction) : Prop where
  indexed : ∀ before, before <+: actions → ∀ index,
    let m := before.foldl act .new
    (index < m.totalSessionCount → ∃ path, indexPath m.sessions index = some path ∧
      (addresses m.sessions 0)[index]? = some path ∧
        sessionFromPath m.sessions path = (nodes m.sessions)[index]?) ∧
      (m.totalSessionCount ≤ index → indexPath m.sessions index = none)
  selected : ∀ before, before <+: actions → (before.foldl act .new).Selected
  displayed : ∀ before entries, before ++ [.update entries] <+: actions →
    Displays entries ((before ++ [.update entries]).foldl act .new).sessions

theorem indexed_always (m : SessionManager) (index : Nat) :
    (index < m.totalSessionCount → ∃ path, indexPath m.sessions index = some path ∧
      (addresses m.sessions 0)[index]? = some path ∧
        sessionFromPath m.sessions path = (nodes m.sessions)[index]?) ∧
      (m.totalSessionCount ≤ index → indexPath m.sessions index = none) := by
  rw [totalSessionCount, ← addresses_length m.sessions 0]
  constructor
  · intro hindex
    have haddress := List.getElem?_eq_getElem hindex
    have hpath := (indexPath_eq m.sessions index).trans haddress
    exact ⟨_, hpath, haddress, sessionFromPath_indexPath hpath⟩
  · intro hindex
    rw [indexPath_eq, List.getElem?_eq_none hindex]

theorem selected_always (actions : List SessionAction) {m : SessionManager} (h : m.Selected) :
    (actions.foldl act m).Selected := by
  induction actions generalizing m with
  | nil => exact h
  | cons action actions ih => exact ih (m.act_selected h action)

theorem update_sessions (m : SessionManager) (entries : List OrchestratorEntry) :
    (m.act (.update entries)).sessions = sessionsOf entries := by
  rw [act, updateFromOrchestrator]
  cases entries with
  | nil => rfl
  | cons entry entries =>
    rw [if_neg (by simp)]
    dsimp only
    split <;> rfl

/-- The laws hold of a sequence of operations if no update has siblings whose numbers are ordered
differently as texts. -/
theorem session_tree_laws_iff (actions : List SessionAction) :
    TreeLaws actions ↔ ∀ entries, .update entries ∈ actions → NumbersSorted entries := by
  constructor
  · intro h entries hentries
    obtain ⟨before, after, rfl⟩ := append_of_mem hentries
    have hdisplayed := h.displayed before entries ⟨after, by simp⟩
    rw [foldl_append, foldl_cons, foldl_nil, update_sessions] at hdisplayed
    exact (displays_iff entries).mp hdisplayed
  · intro h
    refine ⟨fun before _ index => indexed_always _ index, fun before _ => ?_, ?_⟩
    · exact selected_always before (selected_none (m := .new) countNodes_nil)
    · intro before entries hbegins
      rw [foldl_append, foldl_cons, foldl_nil, update_sessions]
      exact (displays_iff entries).mpr
        (h entries (hbegins.subset (mem_append_right _ mem_cons_self)))

/-- The tenth step stands before the second. -/
theorem tenth_before_second :
    let entries : List OrchestratorEntry :=
      [⟨"spec", "2", .implementor, .completed⟩, ⟨"spec", "10", .implementor, .inProgress⟩]
    ¬ TreeLaws [.update entries] := by
  intro entries h
  have hdisplayed := h.displayed [] entries prefix_rfl
  rw [nil_append, foldl_cons, foldl_nil, update_sessions] at hdisplayed
  have hsorted := (displays_iff entries).mp hdisplayed
  have hle := hsorted ⟨"spec", "10", .implementor, .inProgress⟩ (by simp [entries])
    ⟨"spec", "2", .implementor, .completed⟩ (by simp [entries]) rfl [] ['1', '0'] ['2'] 10 2
    (by decide) (by decide) (by simp [stepNumber, isDigit]) (by simp [stepNumber, isDigit])
    (by decide)
  omega

end ColossalCode.PlanView
