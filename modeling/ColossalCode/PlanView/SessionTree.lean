import ColossalCode.Protocol.Spec
import Mathlib.Data.List.Dedup
import Mathlib.Data.List.Basic
import Mathlib.Data.List.Nodup
import Mathlib.Data.List.Sort

/-! The tree of sessions that is built from the entries of a run. Names, times, ids and worktrees
are left out. -/
namespace ColossalCode.PlanView
open List Option

inductive SessionStatus where
  | attached
  | detached
  | running
  | pending
  | inProgress
  | completed
  | failed
  deriving DecidableEq, Repr

inductive SessionRole where
  | implementor
  | summarizer
  | verifier
  | merge
  deriving DecidableEq, Repr

/-- An entry stands for the step that has its prefix. -/
structure OrchestratorEntry where
  specId : String
  stepPrefix : String
  role : SessionRole
  status : SessionStatus
  deriving DecidableEq, Repr

structure Session where
  status : SessionStatus
  stepPrefix : Option String
  role : Option SessionRole
  children : List Session

/-- `prefix.split('.')` -/
def segments (stepPrefix : String) : List (List Char) := stepPrefix.toList.splitOn '.'

/-- `path.join(".")` -/
def keyOf (path : List (List Char)) : String := String.ofList (['.'].intercalate path)

/-- No segment has a dot. -/
def Dotless (path : List (List Char)) : Prop := ∀ segment ∈ path, '.' ∉ segment

theorem keyOf_segments (stepPrefix : String) : keyOf (segments stepPrefix) = stepPrefix := by
  rw [keyOf, segments, intercalate_splitOn, String.ofList_toList]

variable {path : List (List Char)} {base : List (List Char)} {sessions : List Session}
  {status : SessionStatus}

theorem segments_keyOf (hdotless : Dotless path) (hpath : path ≠ []) :
    segments (keyOf path) = path := by
  rw [segments, keyOf, String.toList_ofList, splitOn_intercalate '.' hdotless hpath]

theorem dotless_splitOn (text : List Char) : Dotless (text.splitOn '.') := by
  induction text with
  | nil =>
    intro segment hsegment
    rw [splitOn_nil, mem_singleton] at hsegment
    rw [hsegment]
    exact not_mem_nil
  | cons c text ih =>
    intro segment hsegment
    rw [splitOn_cons_eq_if_modifyHead] at hsegment
    by_cases hc : c = '.'
    · rw [if_pos (beq_iff_eq.mpr hc)] at hsegment
      rcases mem_cons.mp hsegment with rfl | hsegment
      · exact not_mem_nil
      · exact ih segment hsegment
    · rw [if_neg (by simpa using hc)] at hsegment
      cases hrest : text.splitOn '.' with
      | nil => exact absurd hrest (splitOn_ne_nil '.' text)
      | cons first others =>
        rw [hrest] at hsegment ih
        rcases mem_cons.mp hsegment with rfl | hsegment
        · intro hdot
          rcases mem_cons.mp hdot with hdot | hdot
          · exact hc hdot.symm
          · exact ih first mem_cons_self hdot
        · exact ih segment (mem_cons_of_mem _ hsegment)

theorem dotless_segments (stepPrefix : String) : Dotless (segments stepPrefix) :=
  dotless_splitOn stepPrefix.toList

theorem segments_ne_nil (stepPrefix : String) : segments stepPrefix ≠ [] :=
  splitOn_ne_nil _ _

theorem segments_injective {stepPrefix other : String} (h : segments stepPrefix = segments other) :
    stepPrefix = other := by
  rw [← keyOf_segments stepPrefix, h, keyOf_segments]

theorem Dotless.append {rest : List (List Char)} (h : Dotless path) (h' : Dotless rest) :
    Dotless (path ++ rest) :=
  fun segment hsegment => (mem_append.mp hsegment).elim (h segment) (h' segment)

theorem keyOf_inj {segment other : List Char} (hbase : Dotless base)
    (hsegment : '.' ∉ segment) (hother : '.' ∉ other) :
    keyOf (base ++ [other]) = keyOf (base ++ [segment]) ↔ other = segment := by
  constructor
  · intro hkey
    have hsingle : ∀ s : List Char, '.' ∉ s → Dotless (base ++ [s]) := by
      intro s hs
      refine hbase.append fun t ht => ?_
      rw [mem_singleton.mp ht]
      exact hs
    have hpath := congrArg segments hkey
    rw [segments_keyOf (hsingle other hother) (by simp),
      segments_keyOf (hsingle segment hsegment) (by simp)] at hpath
    exact singleton_inj.mp (append_cancel_left hpath)
  · exact fun h => by rw [h]

/-- The first child with the key is changed; where there is none, a new one is put at the end. -/
def descend (key : String) (change : Session → Session) (new : Session) :
    List Session → List Session
  | [] => [change new]
  | child :: others =>
    if child.stepPrefix = some key then change child :: others
    else child :: descend key change new others

/-- The loop of `SessionManager::insert_entry` from the node at `path` on. -/
def insertAt (entry : OrchestratorEntry) : List (List Char) → List (List Char) → Session → Session
  | _, [], node => { node with status := entry.status, role := some entry.role }
  | path, segment :: rest, node =>
    let key := keyOf (path ++ [segment])
    { node with
      children := descend key (insertAt entry (path ++ [segment]) rest)
        { status := .pending, stepPrefix := some key, role := some entry.role, children := [] }
        node.children }

/-- `SessionManager::insert_entry`. -/
def insertEntry (root : Session) (entry : OrchestratorEntry) : Session :=
  if entry.stepPrefix = "" then { root with status := entry.status, role := some entry.role }
  else insertAt entry [] (segments entry.stepPrefix) root

def emptyRoot : Session := { status := .pending, stepPrefix := none, role := none, children := [] }

/-- The root of a specification: its entries in the order of their prefixes. -/
def specRoot (entries : List OrchestratorEntry) (specId : String) : Session :=
  let steps := (entries.filter fun entry => entry.specId = specId).insertionSort
    fun a b => a.stepPrefix ≤ b.stepPrefix
  steps.foldl insertEntry emptyRoot

/-- `SessionManager::update_from_orchestrator`. -/
def sessionsOf (entries : List OrchestratorEntry) : List Session :=
  let specIds := ((entries.map (·.specId)).dedup).insertionSort fun a b => a ≤ b
  specIds.map (specRoot entries)

/-- Among the nodes and what is below them, one with this prefix shows this status. -/
inductive Listed : List Session → String → SessionStatus → Prop
  | here {sessions : List Session} {node : Session} {stepPrefix : String} : node ∈ sessions →
      node.stepPrefix = some stepPrefix → Listed sessions stepPrefix node.status
  | inside {sessions : List Session} {node : Session} {stepPrefix : String}
      {status : SessionStatus} : node ∈ sessions → Listed node.children stepPrefix status →
      Listed sessions stepPrefix status

/-- The status of the node that is reached along a path below `base`. -/
def statusAt : List (List Char) → List Session → List (List Char) → Option SessionStatus
  | _, _, [] => none
  | base, sessions, [segment] =>
    (sessions.find? fun node => node.stepPrefix = some (keyOf (base ++ [segment]))).map (·.status)
  | base, sessions, segment :: next :: rest =>
    (sessions.find? fun node => node.stepPrefix = some (keyOf (base ++ [segment]))).bind fun node =>
      statusAt (base ++ [segment]) node.children (next :: rest)

/-- Each node is labelled with its path, and no two nodes with one. -/
inductive Ordered : List (List Char) → List Session → Prop
  | intro {base : List (List Char)} {sessions : List Session}
      (labelled : ∀ node ∈ sessions, ∃ segment, '.' ∉ segment ∧
        node.stepPrefix = some (keyOf (base ++ [segment])))
      (distinct : (sessions.map (·.stepPrefix)).Nodup)
      (inside : ∀ node ∈ sessions, ∀ segment, '.' ∉ segment →
        node.stepPrefix = some (keyOf (base ++ [segment])) →
          Ordered (base ++ [segment]) node.children) : Ordered base sessions

theorem Ordered.nil (base : List (List Char)) : Ordered base [] :=
  .intro (fun _ h => absurd h not_mem_nil) nodup_nil
    fun _ h => absurd h not_mem_nil

theorem find_of_distinct {node : Session} {key : String}
    (hdistinct : (sessions.map (·.stepPrefix)).Nodup) (hnode : node ∈ sessions)
    (hkey : node.stepPrefix = some key) :
    sessions.find? (fun node => node.stepPrefix = some key) = some node := by
  induction sessions with
  | nil => exact absurd hnode not_mem_nil
  | cons first others ih =>
    rw [map_cons, nodup_cons] at hdistinct
    rcases mem_cons.mp hnode with rfl | hnode
    · rw [find?_cons_of_pos (by simpa using hkey)]
    · have hfirst : first.stepPrefix ≠ some key := by
        intro hsame
        exact hdistinct.1 (mem_map.mpr ⟨node, hnode, hkey.trans hsame.symm⟩)
      rw [find?_cons_of_neg (by simpa using hfirst)]
      exact ih hdistinct.2 hnode

/-- What is listed is the status at some path. -/
theorem Listed.exists_path {stepPrefix : String} (h : Listed sessions stepPrefix status)
    (hordered : Ordered base sessions) :
    ∃ path, Dotless path ∧ path ≠ [] ∧ keyOf (base ++ path) = stepPrefix ∧
      statusAt base sessions path = some status := by
  induction h generalizing base with
  | here hnode hkey =>
    obtain ⟨hlabelled, hdistinct, -⟩ := hordered
    obtain ⟨segment, hsegment, hlabel⟩ := hlabelled _ hnode
    refine ⟨[segment], ?_, by simp, ?_, ?_⟩
    · intro s hs
      rw [mem_singleton.mp hs]
      exact hsegment
    · exact some.inj (hlabel.symm.trans hkey)
    · rw [statusAt, find_of_distinct hdistinct hnode hlabel, map_some]
  | inside hnode _ ih =>
    obtain ⟨hlabelled, hdistinct, hinside⟩ := hordered
    obtain ⟨segment, hsegment, hlabel⟩ := hlabelled _ hnode
    obtain ⟨path, hdotless, hpath, hkey, hstatus⟩ := ih (hinside _ hnode segment hsegment hlabel)
    refine ⟨segment :: path, ?_, by simp, ?_, ?_⟩
    · intro s hs
      rcases mem_cons.mp hs with rfl | hs
      · exact hsegment
      · exact hdotless s hs
    · rw [← hkey, append_assoc, singleton_append]
    · cases path with
      | nil => exact absurd rfl hpath
      | cons next rest =>
        rw [statusAt, find_of_distinct hdistinct hnode hlabel, bind_some]
        exact hstatus

/-- The status at a path is listed. -/
theorem listed_of_statusAt (h : statusAt base sessions path = some status) :
    Listed sessions (keyOf (base ++ path)) status := by
  induction path generalizing base sessions with
  | nil => cases h
  | cons segment path ih =>
    cases path with
    | nil =>
      rw [statusAt, map_eq_some_iff] at h
      obtain ⟨node, hfind, rfl⟩ := h
      exact .here (mem_of_find?_eq_some hfind) (by simpa using find?_some hfind)
    | cons next rest =>
      rw [statusAt, bind_eq_some_iff] at h
      obtain ⟨node, hfind, hstatus⟩ := h
      have hlisted := ih hstatus
      rw [append_assoc, singleton_append] at hlisted
      exact .inside (mem_of_find?_eq_some hfind) hlisted

section Descend

variable {key : String} {change : Session → Session} {new : Session} {sessions : List Session}

variable (sessions) in
theorem find_descend (hchange : ∀ node, (change node).stepPrefix = node.stepPrefix)
    (hnew : new.stepPrefix = some key) (other : String) :
    (descend key change new sessions).find? (fun node => node.stepPrefix = some other) =
      if other = key then
        some (change ((sessions.find? fun node => node.stepPrefix = some key).getD new))
      else sessions.find? fun node => node.stepPrefix = some other := by
  induction sessions with
  | nil =>
    by_cases hother : other = key
    · subst hother
      simp [descend, hchange, hnew]
    · have hne : key ≠ other := fun h => hother h.symm
      simp [descend, hchange, hnew, hother, hne]
  | cons first others ih =>
    rw [descend]
    by_cases hfirst : first.stepPrefix = some key
    · rw [if_pos hfirst]
      by_cases hother : other = key
      · subst hother
        simp [hchange, hfirst]
      · have hne : key ≠ other := fun h => hother h.symm
        simp [hchange, hfirst, hother, hne]
    · rw [if_neg hfirst]
      by_cases hother : first.stepPrefix = some other
      · have hne : other ≠ key := fun h => hfirst (h ▸ hother)
        simp [hother, hne]
      · rw [find?_cons_of_neg (by simpa using hother), ih,
          find?_cons_of_neg (by simpa using hfirst),
          find?_cons_of_neg (by simpa using hother)]

theorem map_descend (hchange : ∀ node, (change node).stepPrefix = node.stepPrefix)
    (hnew : new.stepPrefix = some key) :
    (descend key change new sessions).map (·.stepPrefix) =
      if some key ∈ sessions.map (·.stepPrefix) then sessions.map (·.stepPrefix)
      else sessions.map (·.stepPrefix) ++ [some key] := by
  induction sessions with
  | nil => simp [descend, hchange, hnew]
  | cons first others ih =>
    rw [descend]
    by_cases hfirst : first.stepPrefix = some key
    · simp [hfirst, hchange]
    · rw [if_neg hfirst, map_cons, ih, map_cons]
      have hne : some key ≠ first.stepPrefix := fun h => hfirst h.symm
      by_cases hmem : some key ∈ others.map (·.stepPrefix)
      · rw [if_pos hmem, if_pos (mem_cons_of_mem _ hmem)]
      · rw [if_neg hmem, if_neg (by simpa [hne] using hmem), cons_append]

theorem mem_descend {node : Session} (h : node ∈ descend key change new sessions) :
    node ∈ sessions ∨
      node = change ((sessions.find? fun node => node.stepPrefix = some key).getD new) := by
  induction sessions with
  | nil => exact .inr (mem_singleton.mp h)
  | cons first others ih =>
    rw [descend] at h
    by_cases hfirst : first.stepPrefix = some key
    · rw [if_pos hfirst] at h
      rw [find?_cons_of_pos (by simpa using hfirst)]
      rcases mem_cons.mp h with rfl | h
      · exact .inr rfl
      · exact .inl (mem_cons_of_mem _ h)
    · rw [if_neg hfirst] at h
      rw [find?_cons_of_neg (by simpa using hfirst)]
      rcases mem_cons.mp h with rfl | h
      · exact .inl mem_cons_self
      · exact (ih h).imp (mem_cons_of_mem _) id

end Descend

section Insert

variable {entry : OrchestratorEntry} {node : Session}

@[simp] theorem insertAt_stepPrefix :
    (insertAt entry base path node).stepPrefix = node.stepPrefix := by
  cases path <;> rfl

theorem Dotless.cons_inv {segment : List Char} (h : Dotless (segment :: path)) :
    '.' ∉ segment ∧ Dotless path :=
  ⟨h segment mem_cons_self, fun s hs => h s (mem_cons_of_mem _ hs)⟩

theorem Dotless.snoc {segment : List Char} (h : Dotless base) (hsegment : '.' ∉ segment) :
    Dotless (base ++ [segment]) :=
  h.append fun _ hs => mem_singleton.mp hs ▸ hsegment

/-- An entry sets the status at its path; the nodes on the way there keep theirs, or are new and
pending. -/
theorem statusAt_insertAt (hbase : Dotless base) (hpath : Dotless path) {query : List (List Char)}
    (hquery : Dotless query) :
    statusAt base (insertAt entry base path node).children query =
      if query ≠ [] ∧ query = path then some entry.status
      else if query ≠ [] ∧ query <+: path then
        some ((statusAt base node.children query).getD .pending)
      else statusAt base node.children query := by
  induction path generalizing base node query with
  | nil =>
    cases query with
    | nil => simp [insertAt]
    | cons segment rest => simp [insertAt]
  | cons segment path ih =>
    obtain ⟨hsegment, hrest⟩ := hpath.cons_inv
    cases query with
    | nil => simp [statusAt]
    | cons other query =>
      obtain ⟨hother, hquery⟩ := hquery.cons_inv
      have hkey := keyOf_inj hbase hsegment hother
      let new : Session := { status := .pending, stepPrefix := some (keyOf (base ++ [segment]))
                             role := some entry.role, children := [] }
      let found : Session := (node.children.find? fun node =>
        node.stepPrefix = some (keyOf (base ++ [segment]))).getD new
      have hchildren : (insertAt entry base (segment :: path) node).children =
          descend (keyOf (base ++ [segment])) (insertAt entry (base ++ [segment]) path) new
            node.children := rfl
      have hkeeps : ∀ node, (insertAt entry (base ++ [segment]) path node).stepPrefix =
          node.stepPrefix := fun _ => insertAt_stepPrefix
      have hlabel : new.stepPrefix = some (keyOf (base ++ [segment])) := rfl
      have hfind := find_descend node.children hkeeps hlabel (keyOf (base ++ [other]))
      by_cases hsame : other = segment
      · subst hsame
        rw [if_pos rfl] at hfind
        cases query with
        | nil =>
          rw [hchildren, statusAt, hfind, map_some]
          cases path with
          | nil => simp [insertAt]
          | cons next rest =>
            have hstatus : some (insertAt entry (base ++ [other]) (next :: rest) found).status =
                some ((statusAt base node.children [other]).getD .pending) := by
              simp only [insertAt, statusAt, found]
              cases node.children.find? _ <;> rfl
            simpa using hstatus
        | cons next rest =>
          rw [hchildren, statusAt, hfind, bind_some,
            ih (hbase.snoc hsegment) hrest hquery]
          have hbefore : statusAt (base ++ [other]) found.children (next :: rest) =
              statusAt base node.children (other :: next :: rest) := by
            rw [statusAt]
            simp only [found]
            cases node.children.find? _ with
            | none => cases rest <;> rfl
            | some child => rfl
          simp only [ne_eq, reduceCtorEq, not_false_eq_true, true_and, List.cons.injEq,
            cons_prefix_cons, ← hbefore, found]
      · have hlabel : keyOf (base ++ [other]) ≠ keyOf (base ++ [segment]) :=
          fun h => hsame (hkey.mp h)
        rw [if_neg hlabel] at hfind
        have hunequal : other :: query ≠ segment :: path := fun h => hsame (List.cons.inj h).1
        have hapart : ¬ other :: query <+: segment :: path :=
          fun h => hsame (cons_prefix_cons.mp h).1
        rw [if_neg (fun h => hunequal h.2), if_neg (fun h => hapart h.2), hchildren]
        cases query with
        | nil => rw [statusAt, statusAt, hfind]
        | cons next rest => rw [statusAt, statusAt, hfind]

theorem Ordered.insertAt (hbase : Dotless base) (hpath : Dotless path)
    (h : Ordered base node.children) : Ordered base (insertAt entry base path node).children := by
  induction path generalizing base node with
  | nil => exact h
  | cons segment path ih =>
    obtain ⟨hsegment, hrest⟩ := hpath.cons_inv
    obtain ⟨hlabelled, hdistinct, hinside⟩ := h
    let new : Session := { status := .pending, stepPrefix := some (keyOf (base ++ [segment]))
                           role := some entry.role, children := [] }
    have hkeeps : ∀ node, (PlanView.insertAt entry (base ++ [segment]) path node).stepPrefix =
        node.stepPrefix := fun _ => insertAt_stepPrefix
    have hnew : new.stepPrefix = some (keyOf (base ++ [segment])) := rfl
    -- the node that is descended to has the label and ordered children
    obtain ⟨hlabel, hchildren⟩ : (((node.children.find? fun node =>
        node.stepPrefix = some (keyOf (base ++ [segment]))).getD new).stepPrefix =
          some (keyOf (base ++ [segment]))) ∧ Ordered (base ++ [segment])
        ((node.children.find? fun node =>
          node.stepPrefix = some (keyOf (base ++ [segment]))).getD new).children := by
      cases hfind : node.children.find? fun node =>
          node.stepPrefix = some (keyOf (base ++ [segment])) with
      | none => exact ⟨rfl, .nil _⟩
      | some child =>
        have hchild : child.stepPrefix = some (keyOf (base ++ [segment])) := by
          simpa using find?_some hfind
        exact ⟨hchild, hinside child (mem_of_find?_eq_some hfind) segment hsegment hchild⟩
    refine .intro ?_ ?_ ?_
    · intro child hchild
      rcases mem_descend hchild with hold | rfl
      · exact hlabelled child hold
      · exact ⟨segment, hsegment, (hkeeps _).trans hlabel⟩
    · refine (map_descend hkeeps hnew).symm ▸ ?_
      by_cases hmem : some (keyOf (base ++ [segment])) ∈ node.children.map (·.stepPrefix)
      · rw [if_pos hmem]
        exact hdistinct
      · rw [if_neg hmem]
        refine hdistinct.append (nodup_singleton _) ?_
        intro key hkey hsingle
        rw [mem_singleton.mp hsingle] at hkey
        exact hmem hkey
    · intro child hchild other hother hkey
      rcases mem_descend hchild with hold | rfl
      · exact hinside child hold other hother hkey
      · rw [hkeeps, hlabel, some.injEq] at hkey
        obtain rfl := (keyOf_inj hbase hother hsegment).mp hkey
        exact ih (hbase.snoc hsegment) hrest hchildren

end Insert

/-- A tree that was built from entries shows each of them at its path, and what else it shows is
pending and on the way to one. -/
structure Built (entries : List OrchestratorEntry) (root : Session) : Prop where
  unlabelled : root.stepPrefix = none
  ordered : Ordered [] root.children
  own : ∀ entry ∈ entries,
    statusAt [] root.children (segments entry.stepPrefix) = some entry.status
  others : ∀ path status, Dotless path → statusAt [] root.children path = some status →
    (∃ entry ∈ entries, segments entry.stepPrefix = path ∧ entry.status = status) ∨
      status = .pending ∧ (∃ entry ∈ entries, path <+: segments entry.stepPrefix) ∧
        ∀ entry ∈ entries, segments entry.stepPrefix ≠ path

section Built

variable {entries : List OrchestratorEntry} {entry : OrchestratorEntry} {root : Session}
  {stepPrefix : String}

theorem built_empty : Built [] emptyRoot where
  unlabelled := rfl
  ordered := .nil []
  own := fun _ h => absurd h not_mem_nil
  others := by
    intro path status _ h
    cases path with
    | nil => cases h
    | cons segment rest => cases rest <;> cases h

theorem path_ne_nil (h : statusAt [] sessions path = some status) : path ≠ [] := by
  rintro rfl
  cases h

theorem Built.insert (h : Built entries root) (hnamed : entry.stepPrefix ≠ "")
    (hnew : ∀ other ∈ entries, other.stepPrefix ≠ entry.stepPrefix) :
    Built (entries ++ [entry]) (insertEntry root entry) := by
  have hdotless := dotless_segments entry.stepPrefix
  have hbase : Dotless [] := fun _ h => absurd h not_mem_nil
  have hinsert : insertEntry root entry = insertAt entry [] (segments entry.stepPrefix) root :=
    if_neg hnamed
  have hapart : ∀ other ∈ entries, segments other.stepPrefix ≠ segments entry.stepPrefix :=
    fun other hother hsame => hnew other hother (segments_injective hsame)
  rw [hinsert]
  refine ⟨?_, h.ordered.insertAt hbase hdotless, ?_, ?_⟩
  · rw [insertAt_stepPrefix]
    exact h.unlabelled
  · intro other hother
    rw [statusAt_insertAt hbase hdotless (dotless_segments _)]
    rcases mem_append.mp hother with hother | hother
    · rw [if_neg (fun hsame => hapart other hother hsame.2), h.own other hother, getD_some,
        ite_self]
    · rw [mem_singleton.mp hother, if_pos ⟨segments_ne_nil _, rfl⟩]
  · intro path status hpath hfound
    have hsome := path_ne_nil hfound
    rw [statusAt_insertAt hbase hdotless hpath] at hfound
    by_cases htarget : path = segments entry.stepPrefix
    · rw [if_pos ⟨hsome, htarget⟩] at hfound
      exact .inl ⟨entry, by simp, htarget.symm, some.inj hfound⟩
    rw [if_neg (fun hboth => htarget hboth.2)] at hfound
    -- what the tree showed before at this path
    have hbefore : ∀ status, statusAt [] root.children path = some status →
        (∃ other ∈ entries ++ [entry], segments other.stepPrefix = path ∧ other.status = status) ∨
          status = .pending ∧ (∃ other ∈ entries ++ [entry], path <+: segments other.stepPrefix) ∧
            ∀ other ∈ entries ++ [entry], segments other.stepPrefix ≠ path := by
      intro status hstatus
      rcases h.others path status hpath hstatus with
        ⟨other, hother, hsame⟩ | ⟨hpending, ⟨other, hother, hway⟩, hnone⟩
      · exact .inl ⟨other, mem_append_left _ hother, hsame⟩
      · refine .inr ⟨hpending, ⟨other, mem_append_left _ hother, hway⟩, ?_⟩
        intro third hthird
        rcases mem_append.mp hthird with hthird | hthird
        · exact hnone third hthird
        · rw [mem_singleton.mp hthird]
          exact fun hsame => htarget hsame.symm
    by_cases hway : path ≠ [] ∧ path <+: segments entry.stepPrefix
    · rw [if_pos hway] at hfound
      cases hold : statusAt [] root.children path with
      | some before =>
        rw [hold, getD_some, some.injEq] at hfound
        exact hfound ▸ hbefore before hold
      | none =>
        rw [hold, getD_none, some.injEq] at hfound
        refine .inr ⟨hfound.symm, ⟨entry, by simp, hway.2⟩, ?_⟩
        intro other hother hsame
        rcases mem_append.mp hother with hother | hother
        · have hown := h.own other hother
          rw [hsame, hold] at hown
          cases hown
        · rw [mem_singleton.mp hother] at hsame
          exact htarget hsame.symm
    · rw [if_neg hway] at hfound
      exact hbefore status hfound

theorem Built.foldl {done rest : List OrchestratorEntry} (h : Built done root)
    (hnamed : ∀ entry ∈ rest, entry.stepPrefix ≠ "")
    (hdistinct : ((done ++ rest).map (·.stepPrefix)).Nodup) :
    Built (done ++ rest) (rest.foldl insertEntry root) := by
  induction rest generalizing done root with
  | nil => rwa [append_nil]
  | cons entry rest ih =>
    obtain ⟨hentry, hrest⟩ := forall_mem_cons.mp hnamed
    have hassoc : done ++ entry :: rest = (done ++ [entry]) ++ rest := by simp
    have hnew : ∀ other ∈ done, other.stepPrefix ≠ entry.stepPrefix := by
      intro other hother hsame
      rw [map_append, nodup_append] at hdistinct
      exact hdistinct.2.2 _ (mem_map_of_mem hother) _
        (mem_map_of_mem mem_cons_self) hsame
    rw [hassoc] at hdistinct ⊢
    exact ih (h.insert hentry hnew) hrest hdistinct

/-- The entries of one specification. -/
def ofSpec (entries : List OrchestratorEntry) (specId : String) : List OrchestratorEntry :=
  entries.filter fun entry => entry.specId = specId

theorem mem_ofSpec {specId : String} :
    entry ∈ ofSpec entries specId ↔ entry ∈ entries ∧ entry.specId = specId := by
  simp [ofSpec]

theorem specRoot_built (hnamed : ∀ entry ∈ entries, entry.stepPrefix ≠ "")
    (hdistinct : (entries.map (·.stepPrefix)).Nodup) (specId : String) :
    ∃ steps, (∀ entry, entry ∈ steps ↔ entry ∈ entries ∧ entry.specId = specId) ∧
      Built steps (specRoot entries specId) := by
  let steps := (ofSpec entries specId).insertionSort fun a b => a.stepPrefix ≤ b.stepPrefix
  have hperm : steps.Perm (ofSpec entries specId) := perm_insertionSort _ _
  have hmem : ∀ entry, entry ∈ steps ↔ entry ∈ entries ∧ entry.specId = specId :=
    fun entry => hperm.mem_iff.trans mem_ofSpec
  refine ⟨steps, hmem, ?_⟩
  have hsublist : ((ofSpec entries specId).map (·.stepPrefix)).Sublist
      (entries.map (·.stepPrefix)) := filter_sublist.map _
  have hbuilt := built_empty.foldl (fun entry hentry => hnamed entry ((hmem entry).mp hentry).1)
    (show (steps.map (·.stepPrefix)).Nodup from
      (hperm.map _).nodup_iff.mpr (hdistinct.sublist hsublist))
  exact hbuilt

theorem mem_sessionsOf :
    root ∈ sessionsOf entries ↔ ∃ entry ∈ entries, specRoot entries entry.specId = root := by
  simp only [sessionsOf, List.mem_map, List.mem_insertionSort, List.mem_dedup]
  constructor
  · rintro ⟨specId, ⟨entry, hentry, rfl⟩, hroot⟩
    exact ⟨entry, hentry, hroot⟩
  · rintro ⟨entry, hentry, hroot⟩
    exact ⟨_, ⟨entry, hentry, rfl⟩, hroot⟩

/-- Each entry is listed with its status. -/
theorem entry_listed (hnamed : ∀ entry ∈ entries, entry.stepPrefix ≠ "")
    (hdistinct : (entries.map (·.stepPrefix)).Nodup) (hentry : entry ∈ entries) :
    Listed (sessionsOf entries) entry.stepPrefix entry.status := by
  obtain ⟨steps, hmem, hbuilt⟩ := specRoot_built hnamed hdistinct entry.specId
  have hlisted := listed_of_statusAt (hbuilt.own entry ((hmem entry).mpr ⟨hentry, rfl⟩))
  rw [nil_append, keyOf_segments] at hlisted
  exact .inside (mem_sessionsOf.mpr ⟨entry, hentry, rfl⟩) hlisted

/-- What is listed is an entry with its status, or a pending copy that stands above an entry of
another specification than its own. -/
theorem listed_entry (hnamed : ∀ entry ∈ entries, entry.stepPrefix ≠ "")
    (hdistinct : (entries.map (·.stepPrefix)).Nodup)
    (h : Listed (sessionsOf entries) stepPrefix status) :
    (∃ entry ∈ entries, entry.stepPrefix = stepPrefix ∧ entry.status = status) ∨
      status = .pending ∧ ∃ entry ∈ entries, segments stepPrefix <+: segments entry.stepPrefix ∧
        ∀ other ∈ entries, other.stepPrefix = stepPrefix → other.specId ≠ entry.specId := by
  cases h with
  | here hroot hlabel =>
    obtain ⟨entry, -, rfl⟩ := mem_sessionsOf.mp hroot
    obtain ⟨_, -, hbuilt⟩ := specRoot_built hnamed hdistinct entry.specId
    rw [hbuilt.unlabelled] at hlabel
    cases hlabel
  | inside hroot hlisted =>
    obtain ⟨entry, hentry, rfl⟩ := mem_sessionsOf.mp hroot
    obtain ⟨steps, hmem, hbuilt⟩ := specRoot_built hnamed hdistinct entry.specId
    obtain ⟨path, hdotless, hpath, hkey, hstatus⟩ := hlisted.exists_path hbuilt.ordered
    rw [nil_append] at hkey
    have hsegments : segments stepPrefix = path := hkey ▸ segments_keyOf hdotless hpath
    rcases hbuilt.others path status hdotless hstatus with
      ⟨found, hfound, hsame, hshown⟩ | ⟨hpending, ⟨lower, hlower, hway⟩, hnone⟩
    · refine .inl ⟨found, ((hmem found).mp hfound).1, ?_, hshown⟩
      exact segments_injective (hsame.trans hsegments.symm)
    · obtain ⟨hlower, hspec⟩ := (hmem lower).mp hlower
      refine .inr ⟨hpending, lower, hlower, hsegments ▸ hway, ?_⟩
      rintro other hother rfl hsame
      exact hnone other ((hmem other).mpr ⟨hother, hsame.trans hspec⟩) hsegments

end Built

end ColossalCode.PlanView
