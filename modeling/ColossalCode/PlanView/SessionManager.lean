import ColossalCode.PlanView.SessionTree
import ColossalCode.Transition.Run

/-! The list of sessions: the tree, and which of its nodes is selected. The names of the sessions are
left out, and with them what the last operation returns. -/
namespace ColossalCode.PlanView
open List Option

/-- The addresses of the nodes in pre-order, the first tree being at `idx`. -/
def addresses : List Session → Nat → List (List Nat)
  | [], _ => []
  | ⟨_, _, _, children⟩ :: rest, idx =>
    [idx] :: (addresses children 0).map (idx :: ·) ++ addresses rest (idx + 1)

/-- The loop of `index_path`: the address it finds, and how many nodes it has passed. -/
def dfs (target : Nat) : List Session → Nat → Nat → List Nat → Option (List Nat) × Nat
  | [], _, current, _ => (none, current)
  | ⟨_, _, _, children⟩ :: rest, idx, current, trail =>
    if current = target then (some (trail ++ [idx]), current)
    else
      match dfs target children 0 (current + 1) (trail ++ [idx]) with
      | (some found, passed) => (some found, passed)
      | (none, passed) => dfs target rest (idx + 1) passed trail

def indexPath (sessions : List Session) (target : Nat) : Option (List Nat) :=
  (dfs target sessions 0 0 []).1

/-- `SessionManager::count_nodes`, summed over the trees. -/
def countNodes : List Session → Nat
  | [] => 0
  | ⟨_, _, _, children⟩ :: rest => 1 + countNodes children + countNodes rest

def sessionFromPath (sessions : List Session) : List Nat → Option Session
  | [] => none
  | [idx] => sessions[idx]?
  | idx :: next :: rest => (sessions[idx]?).bind fun node => sessionFromPath node.children (next :: rest)

/-- The nodes in pre-order. -/
def nodes : List Session → List Session
  | [] => []
  | ⟨status, stepPrefix, role, children⟩ :: rest =>
    ⟨status, stepPrefix, role, children⟩ :: nodes children ++ nodes rest

theorem addresses_length (sessions : List Session) (idx : Nat) :
    (addresses sessions idx).length = countNodes sessions := by
  fun_induction addresses sessions idx with
  | case1 => simp [countNodes]
  | case2 idx status stepPrefix role children rest ihchildren ihrest =>
    simp [countNodes, ihchildren, ihrest]
    omega

section Address

variable {status : SessionStatus} {stepPrefix : Option String} {role : Option SessionRole}
  {children rest : List Session} {idx k : Nat}

/-- Behind a root are the nodes below it, and then the other trees. -/
theorem addresses_inside {address : List Nat} (h : (addresses children 0)[k]? = some address) :
    (addresses (⟨status, stepPrefix, role, children⟩ :: rest) idx)[k + 1]? = some (idx :: address) := by
  have hk : k < (addresses children 0).length := (List.getElem?_eq_some_iff.mp h).1
  rw [addresses, cons_append, List.getElem?_cons_succ,
    List.getElem?_append_left (by simpa using hk), List.getElem?_map, h, map_some]

theorem addresses_behind (h : countNodes children ≤ k) :
    (addresses (⟨status, stepPrefix, role, children⟩ :: rest) idx)[k + 1]? =
      (addresses rest (idx + 1))[k - countNodes children]? := by
  rw [addresses, cons_append, List.getElem?_cons_succ,
    List.getElem?_append_right (by simpa [addresses_length] using h), length_map,
    addresses_length]

end Address

/-- The search finds the address of the node that is as many nodes on as are missing, or passes all
of them. -/
theorem dfs_eq (target : Nat) (sessions : List Session) (idx current : Nat) (trail : List Nat)
    (h : current ≤ target) :
    dfs target sessions idx current trail =
      match (addresses sessions idx)[target - current]? with
      | some address => (some (trail ++ address), target)
      | none => (none, current + countNodes sessions) := by
  fun_induction dfs target sessions idx current trail with
  | case1 => simp [addresses, countNodes]
  | case2 => simp [addresses]
  | case3 _ _ _ children rest idx current trail hne found passed hfound ihchildren =>
    obtain ⟨k, hk⟩ : ∃ k, target - current = k + 1 := ⟨target - current - 1, by omega⟩
    have hk' : target - (current + 1) = k := by omega
    rw [ihchildren (by omega), hk'] at hfound
    cases haddress : (addresses children 0)[k]? with
    | none =>
      rw [haddress] at hfound
      cases hfound
    | some address =>
      rw [haddress] at hfound
      rw [hk, addresses_inside haddress, ← hfound]
      simp
  | case4 _ _ _ children rest idx current trail hne passed hnone ihchildren ihrest =>
    obtain ⟨k, hk⟩ : ∃ k, target - current = k + 1 := ⟨target - current - 1, by omega⟩
    have hk' : target - (current + 1) = k := by omega
    rw [ihchildren (by omega), hk'] at hnone
    cases haddress : (addresses children 0)[k]? with
    | some address =>
      rw [haddress] at hnone
      cases hnone
    | none =>
      rw [haddress] at hnone
      obtain ⟨-, hpassed⟩ := Prod.mk.inj hnone
      have hcount : countNodes children ≤ k := by
        rw [← addresses_length children 0]
        exact List.getElem?_eq_none_iff.mp haddress
      have hleft : target - passed = k - countNodes children := by omega
      rw [ihrest (by omega), hleft, hk, addresses_behind hcount]
      cases (addresses rest (idx + 1))[k - countNodes children]? with
      | some address => rfl
      | none => simp only [countNodes, ← hpassed, Nat.add_assoc]

theorem indexPath_eq (sessions : List Session) (target : Nat) :
    indexPath sessions target = (addresses sessions 0)[target]? := by
  rw [indexPath, dfs_eq target sessions 0 0 [] (Nat.zero_le _), Nat.sub_zero]
  cases (addresses sessions 0)[target]? <;> rfl

variable {address : List Nat} {sessions : List Session} {change : Session → Session}

theorem address_ne_nil {idx : Nat} (h : address ∈ addresses sessions idx) : address ≠ [] := by
  fun_induction addresses sessions idx with
  | case1 => exact absurd h not_mem_nil
  | case2 idx _ _ _ children rest ihchildren ihrest =>
    rcases mem_append.mp h with hinside | hbehind
    · rcases mem_cons.mp hinside with rfl | hinside
      · exact cons_ne_nil _ _
      · obtain ⟨below, -, rfl⟩ := mem_map.mp hinside
        exact cons_ne_nil _ _
    · exact ihrest hbehind

theorem sessionFromPath_cons (sessions : List Session) (idx : Nat)
    (h : address ≠ []) : sessionFromPath sessions (idx :: address) =
      (sessions[idx]?).bind fun node => sessionFromPath node.children address := by
  cases address with
  | nil => exact absurd rfl h
  | cons next rest => rfl

/-- The addresses are those of the nodes. -/
theorem sessionFromPath_addresses (sessions front : List Session) :
    (addresses sessions front.length).map (sessionFromPath (front ++ sessions)) =
      (nodes sessions).map some := by
  fun_induction nodes sessions generalizing front with
  | case1 => simp [addresses]
  | case2 status stepPrefix role children rest ihchildren ihrest =>
    have hroot : (front ++ ⟨status, stepPrefix, role, children⟩ :: rest)[front.length]? =
        some ⟨status, stepPrefix, role, children⟩ := by simp
    have hbelow : (addresses children 0).map (sessionFromPath
        (front ++ ⟨status, stepPrefix, role, children⟩ :: rest) ∘ (front.length :: ·)) =
          (nodes children).map some := by
      rw [← ihchildren []]
      refine List.map_congr_left fun address haddress => ?_
      rw [Function.comp_apply, sessionFromPath_cons _ _ (address_ne_nil haddress), hroot]
      rfl
    have hbehind := ihrest (front ++ [⟨status, stepPrefix, role, children⟩])
    rw [List.length_append, List.length_singleton, List.append_assoc, List.singleton_append] at hbehind
    rw [addresses, List.map_append, List.map_cons, List.map_map, hbelow, hbehind, sessionFromPath,
      hroot]
    simp

/-- What is at the address of a node is that node. -/
theorem sessionFromPath_indexPath {target : Nat} (h : indexPath sessions target = some address) :
    sessionFromPath sessions address = (nodes sessions)[target]? := by
  have hall := sessionFromPath_addresses sessions []
  rw [nil_append, length_nil] at hall
  have hat := congrArg (fun found => found[target]?) hall
  rw [indexPath_eq] at h
  simp only [List.getElem?_map, h, map_some] at hat
  cases hnode : (nodes sessions)[target]? with
  | none =>
    rw [hnode] at hat
    cases hat
  | some node =>
    rw [hnode] at hat
    exact Option.some.inj hat

structure SessionManager where
  sessions : List Session
  selectedIndex : Nat
  listState : Option Nat
  orchestratorEntries : List OrchestratorEntry

/-- All sessions are made for the entries of the orchestrator. -/
def Session.group (_ : Session) : Option String := some "orchestrator"

/-- The node at an address is changed. -/
def changeAt (change : Session → Session) : List Nat → List Session → List Session
  | [], sessions => sessions
  | [idx], sessions => sessions.modify idx change
  | idx :: next :: rest, sessions => sessions.modify idx fun node =>
      { node with children := changeAt change (next :: rest) node.children }

/-- The node at an address is removed, with what is below it. -/
def removeAt : List Nat → List Session → List Session
  | [], sessions => sessions
  | [idx], sessions => sessions.eraseIdx idx
  | idx :: next :: rest, sessions => sessions.modify idx fun node =>
      { node with children := removeAt (next :: rest) node.children }

def Session.toggled (node : Session) : Session :=
  { node with status := match node.status with
    | .attached => .detached
    | .detached => .attached
    | other => other }

namespace SessionManager

def new : SessionManager := ⟨[], 0, none, []⟩

def totalSessionCount (m : SessionManager) : Nat := countNodes m.sessions

def updateFromOrchestrator (m : SessionManager) (entries : List OrchestratorEntry) :
    SessionManager :=
  if entries.isEmpty then
    { m with orchestratorEntries := entries, sessions := [], listState := none }
  else
    let m := { m with orchestratorEntries := entries, sessions := sessionsOf entries }
    if m.totalSessionCount = 0 then { m with selectedIndex := 0, listState := none }
    else
      { m with
        selectedIndex := min m.selectedIndex (m.totalSessionCount - 1)
        listState := some (min m.selectedIndex (m.totalSessionCount - 1)) }

def clearOrchestratorEntries (m : SessionManager) : SessionManager :=
  let m := { m with
    orchestratorEntries := []
    sessions := m.sessions.filter fun session => session.group != some "orchestrator" }
  if m.sessions.isEmpty then { m with listState := none, selectedIndex := 0 } else m

def select (m : SessionManager) (index : Nat) : SessionManager :=
  { m with selectedIndex := index, listState := some index }

def nextSession (m : SessionManager) : SessionManager :=
  if 0 < m.totalSessionCount then m.select ((m.selectedIndex + 1) % m.totalSessionCount) else m

def previousSession (m : SessionManager) : SessionManager :=
  if 0 < m.totalSessionCount then
    m.select (if m.selectedIndex = 0 then m.totalSessionCount - 1 else m.selectedIndex - 1)
  else m

def toggleDetach (m : SessionManager) : SessionManager :=
  match indexPath m.sessions m.selectedIndex with
  | some path => { m with sessions := changeAt Session.toggled path m.sessions }
  | none => m

def killSelected (m : SessionManager) : SessionManager :=
  match indexPath m.sessions m.selectedIndex with
  | some path =>
    let m := { m with sessions := removeAt path m.sessions }
    if m.totalSessionCount = 0 then { m with selectedIndex := 0, listState := none }
    else if m.totalSessionCount ≤ m.selectedIndex then m.select (m.totalSessionCount - 1)
    else m
  | none => m

end SessionManager

inductive SessionAction where
  | update (entries : List OrchestratorEntry)
  | next
  | previous
  | toggle
  | kill
  | clear

def SessionManager.act (m : SessionManager) : SessionAction → SessionManager
  | .update entries => m.updateFromOrchestrator entries
  | .next => m.nextSession
  | .previous => m.previousSession
  | .toggle => m.toggleDetach
  | .kill => m.killSelected
  | .clear => m.clearOrchestratorEntries

/-- The list shows the selected index where there are nodes, and it is that of one of them. -/
def SessionManager.Selected (m : SessionManager) : Prop :=
  (0 < m.totalSessionCount → m.listState = some m.selectedIndex ∧
    m.selectedIndex < m.totalSessionCount) ∧ (m.totalSessionCount = 0 → m.listState = none)

theorem countNodes_nil : countNodes [] = 0 := by rw [countNodes]

theorem countNodes_cons (node : Session) (rest : List Session) :
    countNodes (node :: rest) = 1 + countNodes node.children + countNodes rest := by
  cases node
  rw [countNodes]

theorem countNodes_modify (h : ∀ node, countNodes (change node).children = countNodes node.children)
    (sessions : List Session) (idx : Nat) :
    countNodes (sessions.modify idx change) = countNodes sessions := by
  induction sessions generalizing idx with
  | nil => rw [modify_nil]
  | cons node rest ih =>
    cases idx with
    | zero => rw [modify_zero_cons, countNodes_cons, countNodes_cons, h]
    | succ idx => rw [modify_succ_cons, countNodes_cons, countNodes_cons, ih]

theorem countNodes_changeAt
    (h : ∀ node, (change node).children = node.children) (address : List Nat)
    (sessions : List Session) : countNodes (changeAt change address sessions) = countNodes sessions := by
  fun_induction changeAt change address sessions with
  | case1 => rfl
  | case2 idx sessions => exact countNodes_modify (fun node => by rw [h]) sessions idx
  | case3 idx next rest sessions ih =>
    exact @countNodes_modify (fun node =>
      { node with children := changeAt change (next :: rest) node.children }) ih sessions idx

namespace SessionManager

variable {m : SessionManager}

theorem selected_select {index : Nat} (h : index < m.totalSessionCount) :
    (m.select index).Selected := by
  refine ⟨fun _ => ⟨rfl, h⟩, fun hempty => ?_⟩
  have hzero : m.totalSessionCount = 0 := hempty
  omega

theorem selected_none {index : Nat} (h : m.totalSessionCount = 0) :
    Selected { m with selectedIndex := index, listState := none } :=
  ⟨fun hsome => absurd hsome (Nat.not_lt.mpr (Nat.le_of_eq h)), fun _ => rfl⟩

theorem updateFromOrchestrator_selected (m : SessionManager) (entries : List OrchestratorEntry) :
    (m.updateFromOrchestrator entries).Selected := by
  unfold updateFromOrchestrator
  split
  · exact selected_none (m := { m with orchestratorEntries := entries, sessions := [] })
      countNodes_nil
  · dsimp only
    split
    · rename_i hempty
      exact selected_none hempty
    · rename_i hsome
      refine selected_select
        (m := { m with orchestratorEntries := entries, sessions := sessionsOf entries }) ?_
      omega

theorem killSelected_selected (h : m.Selected) : m.killSelected.Selected := by
  unfold killSelected
  cases hpath : indexPath m.sessions m.selectedIndex with
  | none => exact h
  | some path =>
    dsimp only
    split
    · rename_i hempty
      exact selected_none hempty
    · split
      · refine selected_select (m := { m with sessions := removeAt path m.sessions }) ?_
        omega
      · rename_i hsome hless
        -- there was a node to remove, and the list showed it
        have hbelow : m.selectedIndex < m.totalSessionCount := by
          rw [indexPath_eq] at hpath
          have hlength := (List.getElem?_eq_some_iff.mp hpath).1
          rwa [addresses_length] at hlength
        have hshown := (h.1 (Nat.zero_lt_of_lt hbelow)).1
        exact ⟨fun _ => ⟨hshown, Nat.lt_of_not_le hless⟩, fun hempty => absurd hempty hsome⟩

theorem act_selected (h : m.Selected) (action : SessionAction) : (m.act action).Selected := by
  cases action with
  | update entries => exact m.updateFromOrchestrator_selected entries
  | next =>
    rw [act, nextSession]
    split
    · rename_i hsome
      exact selected_select (Nat.mod_lt _ hsome)
    · exact h
  | previous =>
    rw [act, previousSession]
    split
    · rename_i hsome
      have hbelow := (h.1 hsome).2
      refine selected_select ?_
      split <;> omega
    · exact h
  | toggle =>
    rw [act, toggleDetach]
    cases indexPath m.sessions m.selectedIndex with
    | none => exact h
    | some path =>
      have hcount : countNodes (changeAt Session.toggled path m.sessions) = countNodes m.sessions :=
        countNodes_changeAt (fun node => (rfl : node.toggled.children = node.children)) path m.sessions
      unfold Selected totalSessionCount at h ⊢
      rwa [hcount]
  | kill => exact killSelected_selected h
  | clear =>
    have hnone : (m.sessions.filter fun session => session.group != some "orchestrator") = [] :=
      filter_eq_nil_iff.mpr fun session _ => by simp [Session.group]
    rw [act, clearOrchestratorEntries]
    dsimp only
    rw [hnone]
    exact selected_none (m := { m with orchestratorEntries := [], sessions := [] }) countNodes_nil

end SessionManager

end ColossalCode.PlanView
