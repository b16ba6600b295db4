import ColossalCode.Transition.Run
import Mathlib.Logic.Function.Basic

/-! The limits on concurrent requests: the counters of `ActiveRequestGuard`, one atomic access after
the other. The counter of a model has 32 bits, and the limits have 64. -/
namespace ColossalCode.ModelServer
open Bool Function List Option

open Transition

/-- `parallel_limit` of each model and `max_total_concurrent_requests`, both `usize`. -/
structure Limits where
  perModel : String → Nat
  global : Nat
  perModel_lt : ∀ model, perModel model < 18446744073709551616
  global_lt : global < 18446744073709551616

/-- Where a request stands in `try_new` or in the drop of its guard. What a `fetch_update` has read
last is kept for its compare and exchange. -/
inductive Phase where
  | arrived
  | counterRead (current : Nat)
  | counted
  | totalRead (current : Nat)
  | exceeded
  | maxParallel
  | serviceUnavailable
  | live
  | uncounted
  | dropped
  deriving DecidableEq, Repr

/-- A request, with what its own accesses have changed of the two counters. -/
structure Request where
  model : String
  phase : Phase
  counterMoved : Int
  totalMoved : Int

structure Counters where
  counter : String → Nat
  total : Nat
  requests : List Request

inductive Access where
  | proceed (spurious : Bool)
  | drop

inductive Move where
  | arrive (model : String)
  | access (i : Nat) (a : Access)

namespace Limits

variable (l : Limits)

/-- The closure of the first `fetch_update`, on what has been read. -/
def countIn (model : String) (current : Nat) : Phase :=
  if l.perModel model ≤ current then .maxParallel else .counterRead current

def totalIn (current : Nat) : Phase :=
  if l.global ≤ current then .exceeded else .totalRead current

/-- The counter, the total and the phase after one access. A weak exchange may fail for nothing, and
the loop of `fetch_update` goes on with what it finds. -/
def next (model : String) (counter total : Nat) : Access → Phase → Option (Nat × Nat × Phase)
  | .proceed _, .arrived => some (counter, total, l.countIn model counter)
  | .proceed spurious, .counterRead current =>
    if counter = current ∧ spurious = false then
      some ((current + 1) % 4294967296, total, .counted)
    else some (counter, total, l.countIn model counter)
  | .proceed _, .counted => some (counter, total, l.totalIn total)
  | .proceed spurious, .totalRead current =>
    if total = current ∧ spurious = false then
      some (counter, (current + 1) % 18446744073709551616, .live)
    else some (counter, total, l.totalIn total)
  | .proceed _, .exceeded => some ((counter + 4294967295) % 4294967296, total, .serviceUnavailable)
  | .drop, .live => some ((counter + 4294967295) % 4294967296, total, .uncounted)
  | .proceed _, .uncounted =>
    some (counter, (total + 18446744073709551615) % 18446744073709551616, .dropped)
  | _, _ => none

def step (c : Counters) : Move → Option Counters
  | .arrive model => some { c with requests := c.requests ++ [⟨model, .arrived, 0, 0⟩] }
  | .access i a => (c.requests[i]?).bind fun r =>
    (l.next r.model (c.counter r.model) c.total a r.phase).map fun after =>
      { counter := update c.counter r.model after.1
        total := after.2.1
        requests := c.requests.set i ⟨r.model, after.2.2,
          r.counterMoved + (after.1 - c.counter r.model), r.totalMoved + (after.2.1 - c.total)⟩ }

end Limits

def unused : Counters := ⟨fun _ => 0, 0, []⟩

namespace Phase

/-- Counted in the counter of its model. -/
def inCounter : Phase → Bool
  | .counted | .totalRead _ | .exceeded | .live => true
  | _ => false

def inTotal : Phase → Bool
  | .live | .uncounted => true
  | _ => false

def isLive : Phase → Bool
  | .live => true
  | _ => false

/-- No access of the request is outstanding. -/
def settled : Phase → Bool
  | .maxParallel | .serviceUnavailable | .live | .dropped => true
  | _ => false

def refused : Phase → Bool
  | .maxParallel | .serviceUnavailable => true
  | _ => false

end Phase

namespace Counters

def liveOf (c : Counters) (model : String) : Nat :=
  c.requests.countP fun r => decide (r.model = model) && r.phase.isLive

def allLive (c : Counters) : Nat := c.requests.countP fun r => r.phase.isLive

end Counters

/-- The limits hold, no counter is lowered below zero, a refused request has changed nothing, and
without an operation in progress the counters are the numbers of live guards. -/
structure Sound (l : Limits) (c : Counters) : Prop where
  perModel : ∀ model, c.liveOf model ≤ l.perModel model
  global : c.allLive ≤ l.global
  counterPositive : ∀ r ∈ c.requests, r.phase = .live ∨ r.phase = .exceeded → 0 < c.counter r.model
  totalPositive : ∀ r ∈ c.requests, r.phase = .live ∨ r.phase = .uncounted → 0 < c.total
  refused : ∀ r ∈ c.requests, r.phase.refused = true → r.counterMoved = 0 ∧ r.totalMoved = 0
  quiet : (∀ r ∈ c.requests, r.phase.settled = true) →
    (∀ model, c.counter model = c.liveOf model) ∧ c.total = c.allLive

/-- What a request has read is below the limit it was compared with. -/
def Limits.readBelow (l : Limits) (model : String) : Phase → Prop
  | .counterRead current => current < l.perModel model
  | .totalRead current => current < l.global
  | _ => True

structure Counted (l : Limits) (c : Counters) : Prop where
  counter : ∀ model, c.counter model =
    c.requests.countP fun r => decide (r.model = model) && r.phase.inCounter
  total : c.total = c.requests.countP fun r => r.phase.inTotal
  counterWithin : ∀ model, c.counter model ≤ l.perModel model
  totalWithin : c.total ≤ l.global
  read : ∀ r ∈ c.requests, l.readBelow r.model r.phase
  moved : ∀ r ∈ c.requests, r.counterMoved = r.phase.inCounter.toNat ∧
    r.totalMoved = r.phase.inTotal.toNat

section Accesses

variable {l : Limits} {c t : Counters} {model : String}

/-- One access changes the counters by what the request counts in them. -/
theorem next_spec {counter total counter' total' : Nat} {a : Access} {p p' : Phase}
    (h : l.next model counter total a p = some (counter', total', p'))
    (hnarrow : l.perModel model < 4294967296) (hcounter : counter ≤ l.perModel model)
    (htotal : total ≤ l.global) (hread : l.readBelow model p)
    (hin : p.inCounter = true → 0 < counter) (hint : p.inTotal = true → 0 < total) :
    counter' + p.inCounter.toNat = counter + p'.inCounter.toNat ∧
      total' + p.inTotal.toNat = total + p'.inTotal.toNat ∧
      counter' ≤ l.perModel model ∧ total' ≤ l.global ∧ l.readBelow model p' := by
  have hglobal := l.global_lt
  have hcountIn : (l.countIn model counter).inCounter = false ∧
      (l.countIn model counter).inTotal = false ∧ l.readBelow model (l.countIn model counter) := by
    unfold Limits.countIn
    split
    · exact ⟨rfl, rfl, trivial⟩
    · rename_i hroom
      exact ⟨rfl, rfl, by unfold Limits.readBelow; omega⟩
  have htotalIn : (l.totalIn total).inCounter = true ∧
      (l.totalIn total).inTotal = false ∧ l.readBelow model (l.totalIn total) := by
    unfold Limits.totalIn
    split
    · exact ⟨rfl, rfl, trivial⟩
    · rename_i hroom
      exact ⟨rfl, rfl, by unfold Limits.readBelow; omega⟩
  have hinject : ∀ x : Nat × Nat × Phase, some x = some (counter', total', p') →
      x.1 = counter' ∧ x.2.1 = total' ∧ x.2.2 = p' := by
    intro x hx
    obtain rfl := Option.some.inj hx
    exact ⟨rfl, rfl, rfl⟩
  cases a with
  | drop =>
    cases p with
    | live =>
      obtain ⟨rfl, rfl, rfl⟩ := hinject _ h
      have hpos := hin rfl
      refine ⟨?_, rfl, ?_, htotal, trivial⟩
      · simp only [Phase.inCounter, toNat_true, toNat_false]
        omega
      · dsimp only
        omega
    | _ => cases h
  | proceed spurious =>
    cases p with
    | arrived =>
      obtain ⟨rfl, rfl, rfl⟩ := hinject _ h
      dsimp only
      rw [hcountIn.1, hcountIn.2.1]
      exact ⟨rfl, rfl, hcounter, htotal, hcountIn.2.2⟩
    | counterRead current =>
      have hbelow : current < l.perModel model := hread
      have h : (if counter = current ∧ spurious = false then
          some ((current + 1) % 4294967296, total, Phase.counted)
        else some (counter, total, l.countIn model counter)) = some (counter', total', p') := h
      split at h
      · rename_i hsame
        obtain ⟨rfl, rfl, rfl⟩ := hinject _ h
        have hbound := hsame.1
        refine ⟨?_, rfl, ?_, htotal, trivial⟩
        · simp only [Phase.inCounter, toNat_true, toNat_false]
          omega
        · dsimp only
          omega
      · obtain ⟨rfl, rfl, rfl⟩ := hinject _ h
        dsimp only
        rw [hcountIn.1, hcountIn.2.1]
        exact ⟨rfl, rfl, hcounter, htotal, hcountIn.2.2⟩
    | counted =>
      obtain ⟨rfl, rfl, rfl⟩ := hinject _ h
      dsimp only
      rw [htotalIn.1, htotalIn.2.1]
      exact ⟨rfl, rfl, hcounter, htotal, htotalIn.2.2⟩
    | totalRead current =>
      have hbelow : current < l.global := hread
      have h : (if total = current ∧ spurious = false then
          some (counter, (current + 1) % 18446744073709551616, Phase.live)
        else some (counter, total, l.totalIn total)) = some (counter', total', p') := h
      split at h
      · rename_i hsame
        obtain ⟨rfl, rfl, rfl⟩ := hinject _ h
        have hbound := hsame.1
        refine ⟨rfl, ?_, hcounter, ?_, trivial⟩
        · simp only [Phase.inTotal, toNat_true, toNat_false]
          omega
        · dsimp only
          omega
      · obtain ⟨rfl, rfl, rfl⟩ := hinject _ h
        dsimp only
        rw [htotalIn.1, htotalIn.2.1]
        exact ⟨rfl, rfl, hcounter, htotal, htotalIn.2.2⟩
    | exceeded =>
      obtain ⟨rfl, rfl, rfl⟩ := hinject _ h
      have hpos := hin rfl
      refine ⟨?_, rfl, ?_, htotal, trivial⟩
      · simp only [Phase.inCounter, toNat_true, toNat_false]
        omega
      · dsimp only
        omega
    | uncounted =>
      obtain ⟨rfl, rfl, rfl⟩ := hinject _ h
      have hpos := hint rfl
      refine ⟨rfl, ?_, hcounter, ?_, trivial⟩
      · simp only [Phase.inTotal, toNat_true, toNat_false]
        omega
      · dsimp only
        omega
    | maxParallel => cases h
    | serviceUnavailable => cases h
    | live => cases h
    | dropped => cases h

/-- An access of a request, and nothing else. -/
theorem access_eq_some {i : Nat} {a : Access} :
    l.step c (.access i a) = some t ↔ ∃ r counter total p, c.requests[i]? = some r ∧
      l.next r.model (c.counter r.model) c.total a r.phase = some (counter, total, p) ∧
      t = ⟨update c.counter r.model counter, total, c.requests.set i ⟨r.model, p,
        r.counterMoved + (counter - c.counter r.model), r.totalMoved + (total - c.total)⟩⟩ := by
  unfold Limits.step
  simp only [bind_eq_some_iff, map_eq_some_iff]
  constructor
  · rintro ⟨r, hr, ⟨counter, total, p⟩, hnext, rfl⟩
    exact ⟨r, counter, total, p, hr, hnext, rfl⟩
  · rintro ⟨r, counter, total, p, hr, hnext, rfl⟩
    exact ⟨r, hr, (counter, total, p), hnext, rfl⟩

theorem countP_set_add {α : Type*} {p : α → Bool} {xs : List α} {i : Nat} {x y : α}
    (h : xs[i]? = some x) :
    (xs.set i y).countP p + (p x).toNat = xs.countP p + (p y).toNat := by
  obtain ⟨hi, rfl⟩ := List.getElem?_eq_some_iff.mp h
  have hle : (p xs[i]).toNat ≤ xs.countP p := by
    cases hp : p xs[i] with
    | false => exact Nat.zero_le _
    | true => exact countP_pos_iff.mpr ⟨_, getElem_mem hi, hp⟩
  rw [countP_set hi]
  cases hp : p xs[i] <;> cases hq : p y <;> simp_all

theorem countP_pos {α : Type*} {p : α → Bool} {xs : List α} {x : α} (h : x ∈ xs)
    (hp : p x = true) : 0 < xs.countP p := countP_pos_iff.mpr ⟨x, h, hp⟩

theorem Counted.arrive (h : Counted l c) :
    Counted l { c with requests := c.requests ++ [⟨model, .arrived, 0, 0⟩] } := by
  refine ⟨fun other => ?_, ?_, h.counterWithin, h.totalWithin, ?_, ?_⟩
  · rw [h.counter other, countP_append]
    simp [Phase.inCounter]
  · rw [h.total, countP_append]
    rfl
  · intro r hr
    rcases mem_append.mp hr with hr | hr
    · exact h.read r hr
    · obtain rfl := mem_singleton.mp hr
      trivial
  · intro r hr
    rcases mem_append.mp hr with hr | hr
    · exact h.moved r hr
    · obtain rfl := mem_singleton.mp hr
      exact ⟨rfl, rfl⟩

theorem Counted.step {move : Move} (h : Counted l c)
    (hnarrow : ∀ model, l.perModel model < 4294967296)
    (ht : l.step c move = some t) : Counted l t := by
  cases move with
  | arrive model =>
    obtain rfl := Option.some.inj ht
    exact h.arrive
  | access i a =>
    obtain ⟨r, counter, total, p, hr, hnext, rfl⟩ := access_eq_some.mp ht
    have hmem : r ∈ c.requests := mem_of_getElem? hr
    have hin : r.phase.inCounter = true → 0 < c.counter r.model := by
      intro hcounted
      rw [h.counter r.model]
      exact countP_pos hmem (by simp [hcounted])
    have hint : r.phase.inTotal = true → 0 < c.total := by
      intro hcounted
      rw [h.total]
      exact countP_pos hmem hcounted
    obtain ⟨hcounter, htotal, hcounterWithin, htotalWithin, hread⟩ := next_spec hnext
      (hnarrow r.model) (h.counterWithin r.model) h.totalWithin (h.read r hmem) hin hint
    refine ⟨fun other => ?_, ?_, fun other => ?_, htotalWithin, ?_, ?_⟩
    · have hset := countP_set_add (p := fun r => decide (r.model = other) && r.phase.inCounter)
        (y := ⟨r.model, p, r.counterMoved + (counter - c.counter r.model),
          r.totalMoved + (total - c.total)⟩) hr
      have hbefore := h.counter other
      by_cases hother : other = r.model
      · subst hother
        simp only [decide_true, Bool.true_and] at hset
        dsimp only
        rw [update_self]
        omega
      · have hne : r.model ≠ other := fun heq => hother heq.symm
        simp only [hne, decide_false, Bool.false_and, Bool.toNat_false, Nat.add_zero] at hset
        dsimp only
        rw [update_of_ne hother, hbefore, hset]
    · have hset := countP_set_add (p := fun r : Request => r.phase.inTotal)
        (y := ⟨r.model, p, r.counterMoved + (counter - c.counter r.model),
          r.totalMoved + (total - c.total)⟩) hr
      have hbefore := h.total
      dsimp only at hset ⊢
      omega
    · dsimp only
      by_cases hother : other = r.model
      · subst hother
        rw [update_self]
        exact hcounterWithin
      · rw [update_of_ne hother]
        exact h.counterWithin other
    · intro r' hr'
      rcases mem_or_eq_of_mem_set hr' with hr' | rfl
      · exact h.read r' hr'
      · exact hread
    · intro r' hr'
      rcases mem_or_eq_of_mem_set hr' with hr' | rfl
      · exact h.moved r' hr'
      · obtain ⟨hmoved, hmovedTotal⟩ := h.moved r hmem
        dsimp only
        constructor <;> omega

theorem Counted.sound (h : Counted l c) : Sound l c := by
  have hcounted : ∀ r ∈ c.requests, r.phase.inCounter = true → 0 < c.counter r.model := by
    intro r hr hin
    rw [h.counter r.model]
    exact countP_pos hr (by simp [hin])
  have htotalled : ∀ r ∈ c.requests, r.phase.inTotal = true → 0 < c.total := by
    intro r hr hin
    rw [h.total]
    exact countP_pos hr hin
  have hlive : ∀ p : Phase, p.isLive = true → p.inCounter = true ∧ p.inTotal = true := by
    intro p hp
    cases p with
    | live => exact ⟨rfl, rfl⟩
    | _ => cases hp
  have hsettled : ∀ p : Phase, p.settled = true →
      p.inCounter = p.isLive ∧ p.inTotal = p.isLive := by
    intro p hp
    cases p with
    | arrived | counterRead | counted | totalRead | exceeded | uncounted => cases hp
    | _ => exact ⟨rfl, rfl⟩
  refine ⟨fun model => ?_, ?_, fun r hr hphase => ?_, fun r hr hphase => ?_, fun r hr hphase => ?_,
    fun hquiet => ⟨fun model => ?_, ?_⟩⟩
  · refine Nat.le_trans (countP_mono_left fun r _ hr => ?_)
      (h.counter model ▸ h.counterWithin model)
    obtain ⟨hmodel, hr⟩ := and_eq_true_iff.mp hr
    rw [hmodel, (hlive r.phase hr).1]
    rfl
  · exact Nat.le_trans (countP_mono_left fun r _ hr => (hlive r.phase hr).2)
      (h.total ▸ h.totalWithin)
  · exact hcounted r hr (by rcases hphase with hp | hp <;> rw [hp] <;> rfl)
  · exact htotalled r hr (by rcases hphase with hp | hp <;> rw [hp] <;> rfl)
  · obtain ⟨hcounter, htotal⟩ := h.moved r hr
    cases hp : r.phase with
    | maxParallel | serviceUnavailable =>
      rw [hp] at hcounter htotal
      exact ⟨hcounter, htotal⟩
    | _ =>
      rw [hp] at hphase
      cases hphase
  · rw [h.counter model]
    refine countP_congr fun r hr => ?_
    rw [(hsettled r.phase (hquiet r hr)).1]
  · rw [h.total]
    refine countP_congr fun r hr => ?_
    rw [(hsettled r.phase (hquiet r hr)).2]

theorem unused_counted : Counted l unused :=
  ⟨fun _ => rfl, rfl, fun _ => Nat.zero_le _, Nat.zero_le _, fun _ hr => absurd hr not_mem_nil,
    fun _ hr => absurd hr not_mem_nil⟩

theorem narrow_sound (hnarrow : ∀ model, l.perModel model < 4294967296) {moves : List Move}
    (h : run l.step unused moves = some c) : Sound l c :=
  (run_invariant h (fun _ _ _ ht hs => hs.step hnarrow ht) unused_counted).sound

end Accesses

section Overflow

variable {l : Limits} {c : Counters} {model : String}

theorem access_step {i counter total : Nat} {a : Access} {r : Request} {p : Phase}
    (hr : c.requests[i]? = some r)
    (hnext : l.next r.model (c.counter r.model) c.total a r.phase = some (counter, total, p)) :
    l.step c (.access i a) = some ⟨update c.counter r.model counter, total,
      c.requests.set i ⟨r.model, p, r.counterMoved + (counter - c.counter r.model),
        r.totalMoved + (total - c.total)⟩⟩ :=
  access_eq_some.mpr ⟨r, counter, total, p, hr, hnext, rfl⟩

/-- An access of the request that came last. -/
theorem last_access {xs : List Request} {r : Request} {n counter total : Nat}
    {a : Access} {p : Phase}
    (hn : xs.length = n) (hrequests : c.requests = xs ++ [r])
    (hnext : l.next r.model (c.counter r.model) c.total a r.phase = some (counter, total, p)) :
    ∃ t r', l.step c (.access n a) = some t ∧ t.counter r.model = counter ∧ t.total = total ∧
      t.requests = xs ++ [r'] ∧ r'.model = r.model ∧ r'.phase = p := by
  subst hn
  have hlast : c.requests[xs.length]? = some r := by
    rw [hrequests, List.getElem?_concat_length]
  have hset : ∀ r' : Request, c.requests.set xs.length r' = xs ++ [r'] := by
    intro r'
    rw [hrequests, set_append_right _ _ (Nat.le_refl _), Nat.sub_self, set_cons_zero]
  exact ⟨_, _, access_step hlast hnext, update_self .., rfl, hset _, rfl, rfl⟩

/-- Requests of one model that have been counted, and have not yet looked at the total. -/
def AllCounted (model : String) (n : Nat) (c : Counters) : Prop :=
  c.requests.length = n ∧ c.counter model = n % 4294967296 ∧ c.total = 0 ∧
    ∀ r ∈ c.requests, r.model = model ∧ r.phase = .counted

/-- Another request arrives, reads the counter and is counted. -/
theorem count_another {n : Nat} (hn : n < 4294967296) (hwide : 4294967296 ≤ l.perModel model)
    (h : AllCounted model n c) : ∃ t, AllCounted model (n + 1) t ∧
      run l.step c [.arrive model, .access n (.proceed false), .access n (.proceed false)] =
        some t := by
  obtain ⟨hlength, hcounter, htotal, hall⟩ := h
  have hcounter : c.counter model = n := hcounter.trans (Nat.mod_eq_of_lt hn)
  have hin : l.countIn model n = .counterRead n := by
    unfold Limits.countIn
    exact if_neg (by omega)
  have hreads : l.next model (c.counter model) c.total (.proceed false) .arrived =
      some (n, 0, .counterRead n) := by
    simp [Limits.next, hcounter, htotal, hin]
  obtain ⟨c₁, r₁, hread, hcounter₁, htotal₁, hrequests₁, hmodel₁, hphase₁⟩ := last_access
    (c := { c with requests := c.requests ++ [⟨model, .arrived, 0, 0⟩] })
      (r := ⟨model, .arrived, 0, 0⟩)
    hlength rfl hreads
  dsimp only at hcounter₁ hmodel₁
  have hcounts : l.next r₁.model (c₁.counter r₁.model) c₁.total (.proceed false) r₁.phase =
      some ((n + 1) % 4294967296, 0, .counted) := by
    rw [hphase₁, hmodel₁, hcounter₁, htotal₁]
    exact if_pos ⟨rfl, rfl⟩
  obtain ⟨t, r, hcount, hcounter₂, htotal₂, hrequests₂, hmodel₂, hphase₂⟩ :=
    last_access hlength hrequests₁ hcounts
  rw [hmodel₁] at hcounter₂ hmodel₂
  refine ⟨t, ⟨?_, hcounter₂, htotal₂, ?_⟩, ?_⟩
  · rw [hrequests₂, length_append, hlength]
    rfl
  · rw [hrequests₂]
    intro r' hr'
    rcases mem_append.mp hr' with hr' | hr'
    · exact hall r' hr'
    · obtain rfl := mem_singleton.mp hr'
      exact ⟨hmodel₂, hphase₂⟩
  · exact run_cons_eq_some.mpr ⟨_, rfl, run_cons_eq_some.mpr ⟨_, hread,
      run_cons_eq_some.mpr ⟨_, hcount, rfl⟩⟩⟩

theorem count_many {n : Nat} (hn : n ≤ 4294967296) (hwide : 4294967296 ≤ l.perModel model) :
    ∃ moves t, run l.step unused moves = some t ∧ AllCounted model n t := by
  induction n with
  | zero => exact ⟨[], unused, rfl, rfl, rfl, rfl, fun r hr => absurd hr not_mem_nil⟩
  | succ n ih =>
    obtain ⟨moves, c, hrun, hcounted⟩ := ih (by omega)
    obtain ⟨t, ht, hmore⟩ := count_another (by omega) hwide hcounted
    exact ⟨_, t, run_append_eq_some.mpr ⟨c, hrun, hmore⟩, ht⟩

/-- The counter is back at zero when the first of these requests is let in or backs out. -/
theorem wide_unsound (hwide : 4294967296 ≤ l.perModel model) :
    ∃ moves c, run l.step unused moves = some c ∧ ¬ Sound l c := by
  obtain ⟨moves, c, hrun, hlength, hcounter, htotal, hall⟩ := count_many (Nat.le_refl _) hwide
  have hzero : c.counter model = 0 := hcounter.trans (Nat.mod_self _)
  have hne : c.requests ≠ [] := fun hnil => by
    rw [hnil] at hlength
    cases hlength
  obtain ⟨xs, r, hrequests⟩ := (eq_nil_or_concat c.requests).resolve_left hne
  have hrequests : c.requests = xs ++ [r] := by simpa using hrequests
  have hmem : r ∈ c.requests := hrequests ▸ mem_append_right xs (mem_singleton_self r)
  obtain ⟨hmodel, hphase⟩ := hall r hmem
  subst hmodel
  -- whoever looks at the total next is let in, or has to take back what is no longer counted
  have hlook : l.next r.model (c.counter r.model) c.total (.proceed false) r.phase =
      some (0, 0, l.totalIn 0) := by
    rw [hphase, hzero, htotal]
    rfl
  obtain ⟨c₁, r₁, hread, hcounter₁, htotal₁, hrequests₁, hmodel₁, hphase₁⟩ :=
    last_access rfl hrequests hlook
  have hmem₁ : r₁ ∈ c₁.requests := by simp [hrequests₁]
  by_cases hroom : l.global ≤ 0
  · have hexceeded : r₁.phase = .exceeded := by
      rw [hphase₁, Limits.totalIn, if_pos hroom]
    refine ⟨_, c₁, run_append_eq_some.mpr ⟨c, hrun, run_cons_eq_some.mpr ⟨_, hread, run_nil⟩⟩, ?_⟩
    intro hsound
    have hpositive := hsound.counterPositive r₁ hmem₁ (.inr hexceeded)
    rw [hmodel₁, hcounter₁] at hpositive
    exact absurd hpositive (Nat.lt_irrefl 0)
  · have hin : l.next r₁.model (c₁.counter r₁.model) c₁.total (.proceed false) r₁.phase =
        some (0, 1, .live) := by
      rw [hphase₁, Limits.totalIn, if_neg hroom, hmodel₁, hcounter₁, htotal₁]
      rfl
    obtain ⟨c₂, r₂, hlet, hcounter₂, -, hrequests₂, hmodel₂, hphase₂⟩ :=
      last_access rfl hrequests₁ hin
    have hmem₂ : r₂ ∈ c₂.requests := by simp [hrequests₂]
    refine ⟨_, c₂, run_append_eq_some.mpr ⟨c, hrun, run_cons_eq_some.mpr ⟨_, hread,
      run_cons_eq_some.mpr ⟨_, hlet, run_nil⟩⟩⟩, ?_⟩
    intro hsound
    have hpositive := hsound.counterPositive r₂ hmem₂ (.inl hphase₂)
    rw [hmodel₂, hcounter₂] at hpositive
    exact absurd hpositive (Nat.lt_irrefl 0)

end Overflow

inductive StreamKind where
  | completion
  | chat
  deriving DecidableEq

inductive EngineResponse where
  | chunk
  | completionChunk
  | completionDone
  | completionModelError
  | done
  | embedding
  | internalError
  | modelError
  | validationError
  | other
  deriving DecidableEq

/-- What the channel yields to a poll. -/
inductive Polled where
  | response (r : EngineResponse)
  | closed
  | pending

/-- The guard that a stream holds, and how often it has released one. -/
structure StreamWrapper where
  guard : Bool
  released : Nat

namespace StreamWrapper

def opened : StreamWrapper := ⟨true, 0⟩

/-- `Option::take`, whose result is dropped. -/
def take (w : StreamWrapper) : StreamWrapper := ⟨false, w.released + w.guard.toNat⟩

/-- The responses after which `CompletionStreamWrapper` or `ChatStreamWrapper` lets go. -/
def ends : StreamKind → EngineResponse → Bool
  | .completion, .completionDone | .completion, .completionModelError => true
  | .chat, .done | .chat, .modelError => true
  | _, .internalError | _, .validationError => true
  | _, _ => false

def pollNext (kind : StreamKind) (w : StreamWrapper) : Polled → StreamWrapper
  | .response r => if ends kind r then w.take else w
  | .closed => w.take
  | .pending => w

/-- The stream is dropped, and with it the guard it still has. -/
def drop (w : StreamWrapper) : StreamWrapper := w.take

end StreamWrapper

/-- The stream has ended or failed. -/
def Polled.over (kind : StreamKind) : Polled → Bool
  | .response r => StreamWrapper.ends kind r
  | .closed => true
  | .pending => false

/-- The guard is released when the stream is over, once however often it is polled, and by the drop
of the stream at the latest. -/
def ReleasesOnce (kind : StreamKind) (polls : List Polled) : Prop :=
  let w := polls.foldl (StreamWrapper.pollNext kind) StreamWrapper.opened
  w.released = (polls.any (Polled.over kind)).toNat ∧ w.drop.released = 1

theorem pollNext_eq (kind : StreamKind) (w : StreamWrapper) (polled : Polled) :
    w.pollNext kind polled = if polled.over kind then w.take else w := by
  cases polled <;> rfl

theorem polls_released (kind : StreamKind) (polls : List Polled) {w : StreamWrapper}
    (h : w.guard.toNat + w.released = 1) :
    (polls.foldl (StreamWrapper.pollNext kind) w).released =
        max w.released (polls.any (Polled.over kind)).toNat ∧
      (polls.foldl (StreamWrapper.pollNext kind) w).drop.released = 1 := by
  induction polls generalizing w with
  | nil =>
    refine ⟨(Nat.max_zero _).symm, ?_⟩
    exact (Nat.add_comm _ _).trans h
  | cons polled polls ih =>
    rw [foldl_cons, pollNext_eq, any_cons]
    cases hover : polled.over kind with
    | false => exact ih h
    | true =>
      have htaken : w.take.guard.toNat + w.take.released = 1 := by
        simp only [StreamWrapper.take, Bool.toNat_false]
        omega
      obtain ⟨hreleased, hdrop⟩ := ih htaken
      refine ⟨?_, hdrop⟩
      have hone : w.take.released = 1 := by
        simp only [StreamWrapper.take]
        omega
      have hle : (polls.any (Polled.over kind)).toNat ≤ 1 := Bool.toNat_le _
      rw [if_pos rfl, hreleased, hone, Bool.true_or, Bool.toNat_true]
      omega

theorem releasesOnce (kind : StreamKind) (polls : List Polled) : ReleasesOnce kind polls := by
  obtain ⟨hreleased, hdrop⟩ := polls_released kind polls (w := StreamWrapper.opened) rfl
  exact ⟨hreleased.trans (Nat.zero_max _), hdrop⟩

/-- The counters keep the limits in every run if no limit of a model is wider than its counter. -/
theorem limits_hold_iff (l : Limits) :
    ((∀ moves c, run l.step unused moves = some c → Sound l c) ∧
        ∀ kind polls, ReleasesOnce kind polls) ↔
      ∀ model, l.perModel model < 4294967296 := by
  constructor
  · rintro ⟨hsound, -⟩ model
    by_contra hwide
    obtain ⟨moves, c, hrun, hunsound⟩ := wide_unsound (Nat.le_of_not_lt hwide)
    exact hunsound (hsound moves c hrun)
  · intro hnarrow
    exact ⟨fun moves c hrun => narrow_sound hnarrow hrun, releasesOnce⟩

/-- A limit of 2^32. -/
def wideLimits : Limits :=
  ⟨fun _ => 4294967296, 4294967296, fun _ => by decide, by decide⟩

theorem counter_wraps : ∃ moves c, run wideLimits.step unused moves = some c ∧
    ¬ Sound wideLimits c :=
  wide_unsound (show 4294967296 ≤ wideLimits.perModel "chat" from Nat.le_refl _)

end ColossalCode.ModelServer
