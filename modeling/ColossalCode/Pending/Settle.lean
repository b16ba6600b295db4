import Mathlib.Data.List.Basic

/-! Calls that are known by a key only: each result goes to the last call of its key that has none
yet. -/
namespace Pending
open List Option

/-- A call with its result, once it has one. -/
structure Call (κ α β : Type*) where
  key : κ
  item : α
  result : Option β
  deriving DecidableEq, Repr

variable {κ α β : Type*} {key : κ} {result : β} {calls done : List (Call κ α β)}

/-- A call that has been made: its key, its item and its own result. -/
abbrev Made (κ α β : Type*) := κ × α × β

def Made.opened (made : Made κ α β) : Call κ α β := ⟨made.1, made.2.1, none⟩

def Made.closed (made : Made κ α β) : Call κ α β := ⟨made.1, made.2.1, some made.2.2⟩

/-- All calls have their results. -/
def Closed (calls : List (Call κ α β)) : Prop := ∀ call ∈ calls, call.result ≠ none

/-- What identifies the calls of a list. -/
def names (calls : List (Call κ α β)) : List (κ × α) := calls.map fun call => (call.key, call.item)

section Fill

variable [DecidableEq κ]

/-- The call with the result, if it is of the key and has none yet. -/
def Call.given (key : κ) (result : β) (call : Call κ α β) : Option (Call κ α β) :=
  if call.key = key ∧ call.result.isNone then some { call with result := some result } else none

/-- The first call of the key that has no result is given it. -/
def fill (calls : List (Call κ α β)) (completion : κ × β) : List (Call κ α β) :=
  calls.replaceF (Call.given completion.1 completion.2)

/-- The last call of the key that has no result is given it. -/
def settle (calls : List (Call κ α β)) (completion : κ × β) : List (Call κ α β) :=
  (fill calls.reverse completion).reverse

/-- The calls of a key. -/
def ofKey (key : κ) (calls : List (Call κ α β)) : List (Call κ α β) :=
  calls.filter fun call => call.key = key

/-- The results of the calls of a key, in the order the calls are made. -/
def resultsOf (key : κ) (made : List (Made κ α β)) : List β :=
  (made.filter fun call => call.1 = key).map fun call => call.2.2

end Fill

theorem closed_append : Closed (calls ++ done) ↔ Closed calls ∧ Closed done := by
  unfold Closed
  constructor
  · intro h
    exact ⟨fun call hcall => h call (mem_append_left _ hcall),
      fun call hcall => h call (mem_append_right _ hcall)⟩
  · rintro ⟨hcalls, hdone⟩ call hcall
    rcases mem_append.mp hcall with hcall | hcall
    · exact hcalls call hcall
    · exact hdone call hcall

variable [DecidableEq κ] {completion : κ × β} {completions : List (κ × β)}
  {call call' : Call κ α β}

theorem given_eq_some : call.given key result = some call' ↔
    call.key = key ∧ call.result = none ∧ call' = ⟨key, call.item, some result⟩ := by
  unfold Call.given
  constructor
  · intro h
    split at h
    · rename_i hcall
      cases h
      exact ⟨hcall.1, isNone_iff_eq_none.mp hcall.2, by rw [hcall.1]⟩
    · cases h
  · rintro ⟨rfl, hnone, rfl⟩
    rw [hnone]
    exact if_pos ⟨rfl, rfl⟩

theorem given_closed (h : call.result ≠ none) : call.given key result = none :=
  if_neg fun hcall => h (isNone_iff_eq_none.mp hcall.2)

theorem fill_cons_some (h : call.given completion.1 completion.2 = some call') :
    fill (call :: calls) completion = call' :: calls :=
  replaceF_cons_of_some _ h

theorem fill_cons_none (h : call.given completion.1 completion.2 = none) :
    fill (call :: calls) completion = call :: fill calls completion :=
  replaceF_cons_of_none _ h

theorem fill_closed (h : Closed done) : fill done completion = done :=
  replaceF_of_forall_none fun call hcall => given_closed (h call hcall)

/-- Calls that have their results are left alone. -/
theorem fill_append (h : Closed done) :
    fill (calls ++ done) completion = fill calls completion ++ done := by
  induction calls with
  | nil => exact fill_closed h
  | cons call calls ih =>
    cases hgiven : call.given completion.1 completion.2 with
    | none =>
      rw [cons_append, fill_cons_none hgiven, fill_cons_none hgiven, ih]
      rfl
    | some call' =>
      rw [cons_append, fill_cons_some hgiven, fill_cons_some hgiven]
      rfl

theorem names_fill : names (fill calls completion) = names calls := by
  induction calls with
  | nil => rfl
  | cons call calls ih =>
    cases hgiven : call.given completion.1 completion.2 with
    | none =>
      rw [fill_cons_none hgiven]
      exact congrArg (cons _) ih
    | some call' =>
      rw [fill_cons_some hgiven]
      obtain ⟨hkey, -, rfl⟩ := given_eq_some.mp hgiven
      simp [names, hkey]

/-- A result is of concern to the calls of its key only. -/
theorem ofKey_fill : ofKey key (fill calls completion) =
    if completion.1 = key then fill (ofKey key calls) completion else ofKey key calls := by
  induction calls with
  | nil => exact (ite_self _).symm
  | cons call calls ih =>
    unfold ofKey at ih ⊢
    cases hgiven : call.given completion.1 completion.2 with
    | none =>
      rw [fill_cons_none hgiven]
      by_cases hcall : call.key = key
      · rw [filter_cons_of_pos (by simpa using hcall),
          filter_cons_of_pos (by simpa using hcall), fill_cons_none hgiven, ih]
        split <;> rfl
      · rw [filter_cons_of_neg (by simpa using hcall),
          filter_cons_of_neg (by simpa using hcall), ih]
    | some call' =>
      rw [fill_cons_some hgiven]
      obtain ⟨hkey, -, rfl⟩ := given_eq_some.mp hgiven
      by_cases hcall : completion.1 = key
      · rw [filter_cons_of_pos (by simpa using hcall),
          filter_cons_of_pos (by simpa using hkey.trans hcall), fill_cons_some hgiven,
          if_pos hcall]
      · have hother : call.key ≠ key := fun heq => hcall (hkey.symm.trans heq)
        rw [filter_cons_of_neg (by simpa using hcall),
          filter_cons_of_neg (by simpa using hother), if_neg hcall]

theorem settle_append (h : Closed done) :
    settle (done ++ calls) completion = done ++ settle calls completion := by
  have hreverse : Closed done.reverse := fun call hcall => h call (mem_reverse.mp hcall)
  unfold settle
  rw [reverse_append, fill_append hreverse, reverse_append, reverse_reverse]

theorem names_settle : names (settle calls completion) = names calls := by
  have hfill : names (fill calls.reverse completion) = names calls.reverse := names_fill
  unfold names settle at *
  rw [map_reverse, hfill, map_reverse, reverse_reverse]

theorem foldl_settle_append (h : Closed done) :
    completions.foldl settle (done ++ calls) = done ++ completions.foldl settle calls := by
  induction completions generalizing calls with
  | nil => rfl
  | cons completion completions ih => rw [foldl_cons, settle_append h, ih, foldl_cons]

theorem names_foldl_settle : names (completions.foldl settle calls) = names calls := by
  induction completions generalizing calls with
  | nil => rfl
  | cons completion completions ih => rw [foldl_cons, ih, names_settle]

theorem foldl_settle_eq : completions.foldl settle calls =
    (completions.foldl fill calls.reverse).reverse := by
  induction completions generalizing calls with
  | nil => exact (reverse_reverse _).symm
  | cons completion completions ih =>
    rw [foldl_cons, ih, settle, reverse_reverse, foldl_cons]

theorem ofKey_foldl_fill : ofKey key (completions.foldl fill calls) =
    (completions.filter fun completion => completion.1 = key).foldl fill (ofKey key calls) := by
  induction completions generalizing calls with
  | nil => rfl
  | cons completion completions ih =>
    rw [foldl_cons, ih, ofKey_fill]
    by_cases h : completion.1 = key
    · rw [if_pos h, filter_cons_of_pos (by simpa using h), foldl_cons]
    · rw [if_neg h, filter_cons_of_neg (by simpa using h)]

theorem fill_append_left (h : Closed done) :
    fill (done ++ calls) completion = done ++ fill calls completion := by
  induction done with
  | nil => rfl
  | cons call done ih =>
    have hcall : call.given completion.1 completion.2 = none :=
      given_closed (h call mem_cons_self)
    rw [cons_append, fill_cons_none hcall, ih fun c hc => h c (mem_cons_of_mem _ hc)]
    rfl

/-- The calls of one key are given its results from the first on. -/
theorem foldl_fill_opened (key : κ) {items : List α} {results : List β}
    (hlength : items.length = results.length) (h : Closed done) :
    (results.map (Prod.mk key)).foldl fill (done ++ items.map fun item => ⟨key, item, none⟩) =
      done ++ zipWith (fun item result => ⟨key, item, some result⟩) items results := by
  induction results generalizing items done with
  | nil =>
    obtain rfl := length_eq_zero_iff.mp hlength
    rfl
  | cons result results ih =>
    cases items with
    | nil => cases hlength
    | cons item items =>
      have hgiven : (⟨key, item, none⟩ : Call κ α β).given key result =
          some ⟨key, item, some result⟩ :=
        given_eq_some.mpr ⟨rfl, rfl, rfl⟩
      have hdone : Closed (done ++ [(⟨key, item, some result⟩ : Call κ α β)]) := by
        refine closed_append.mpr ⟨h, fun call hcall => ?_⟩
        obtain rfl := mem_singleton.mp hcall
        exact some_ne_none _
      have hrest := ih (Nat.succ.inj hlength) hdone
      rw [append_assoc, append_assoc] at hrest
      rw [map_cons, map_cons, foldl_cons, fill_append_left h, fill_cons_some hgiven]
      exact hrest

/-- Calls with the same names are the same if those of every key are. -/
theorem eq_of_ofKey {calls' : List (Call κ α β)} (hnames : names calls = names calls')
    (h : ∀ key, ofKey key calls = ofKey key calls') : calls = calls' := by
  induction calls generalizing calls' with
  | nil =>
    exact (map_eq_nil_iff.mp hnames.symm).symm
  | cons call calls ih =>
    cases calls' with
    | nil => cases hnames
    | cons call' calls' =>
      obtain ⟨hname, hrest⟩ := cons.inj hnames
      have hkey : call'.key = call.key := (congrArg Prod.fst hname).symm
      have hhead := h call.key
      unfold ofKey at hhead
      rw [filter_cons_of_pos (by simp), filter_cons_of_pos (by simpa using hkey)] at hhead
      obtain ⟨rfl, -⟩ := cons.inj hhead
      have htail : calls = calls' := by
        refine ih hrest fun key => ?_
        have hkeys := h key
        unfold ofKey at hkeys
        rw [filter_cons, filter_cons] at hkeys
        split at hkeys
        · exact (cons.inj hkeys).2
        · exact hkeys
      rw [htail]

section Made

variable (made : List (Made κ α β))

def itemsOf (key : κ) (made : List (Made κ α β)) : List α :=
  (made.filter fun call => call.1 = key).map fun call => call.2.1

/-- What the completions of some calls, made one after the other, leave of them. -/
def settled : List (Call κ α β) :=
  (made.map fun call => (call.1, call.2.2)).foldl settle (made.map Made.opened)

theorem length_itemsOf : (itemsOf key made).length = (resultsOf key made).length := by
  unfold itemsOf resultsOf
  rw [length_map, length_map]

theorem ofKey_opened : ofKey key (made.map Made.opened) =
    (itemsOf key made).map fun item => ⟨key, item, none⟩ := by
  unfold ofKey itemsOf
  rw [List.filter_map, List.map_map]
  refine List.map_congr_left fun call hcall => ?_
  have hkey : call.1 = key := of_decide_eq_true (List.mem_filter.mp hcall).2
  simp [Made.opened, hkey]

theorem ofKey_closed : ofKey key (made.map Made.closed) =
    List.zipWith (fun item result => ⟨key, item, some result⟩) (itemsOf key made)
      (resultsOf key made) := by
  unfold ofKey itemsOf resultsOf
  rw [List.filter_map, List.zipWith_map, List.zipWith_self]
  refine List.map_congr_left fun call hcall => ?_
  have hkey : call.1 = key := of_decide_eq_true (List.mem_filter.mp hcall).2
  simp [Made.closed, hkey]

theorem completions_ofKey : (made.map fun call => (call.1, call.2.2)).filter (fun c => c.1 = key) =
    (resultsOf key made).map (Prod.mk key) := by
  unfold resultsOf
  rw [List.filter_map, List.map_map]
  refine List.map_congr_left fun call hcall => ?_
  have hkey : call.1 = key := by simpa using (List.mem_filter.mp hcall).2
  simp [hkey]

/-- The calls of a key are given its results from the last on. -/
theorem ofKey_settled : ofKey key (settled made) =
    zipWith (fun item result => ⟨key, item, some result⟩) (itemsOf key made)
      (resultsOf key made).reverse := by
  have hreverse : ∀ calls : List (Call κ α β), ofKey key calls.reverse =
    (ofKey key calls).reverse :=
    fun calls => filter_reverse ..
  have hlength : (itemsOf key made).reverse.length = (resultsOf key made).length := by
    rw [length_reverse, length_itemsOf]
  have hnil : Closed ([] : List (Call κ α β)) := fun call hcall => by cases hcall
  have hfill := foldl_fill_opened key hlength hnil
  rw [nil_append, nil_append] at hfill
  rw [settled, foldl_settle_eq, hreverse, ofKey_foldl_fill, completions_ofKey, hreverse,
    ofKey_opened, ← map_reverse, hfill, reverse_zipWith hlength, reverse_reverse]

theorem names_settled : names (settled made) = made.map fun call => (call.1, call.2.1) := by
  rw [settled, names_foldl_settle, names, List.map_map]
  rfl

theorem closed_settled : Closed (settled made) := by
  intro call hcall
  have hmem : call ∈ ofKey call.key (settled made) := mem_filter.mpr ⟨hcall, by simp⟩
  rw [ofKey_settled, ← map_uncurry_zip_eq_zipWith] at hmem
  obtain ⟨one, -, hone⟩ := mem_map.mp hmem
  rw [← hone]
  exact some_ne_none _

omit [DecidableEq κ] in
theorem map_result_zipWith {items : List α} {results : List β} (h : items.length = results.length) :
    (zipWith (fun item result => (⟨key, item, some result⟩ : Call κ α β)) items results).map
      Call.result = results.map some := by
  induction items generalizing results with
  | nil =>
    obtain rfl := length_eq_zero_iff.mp h.symm
    rfl
  | cons item items ih =>
    cases results with
    | nil => cases h
    | cons result results => exact congrArg (cons _) (ih (Nat.succ.inj h))

/-- Each call has its own result if and only if the results of every key are the same from the last
to the first. -/
theorem settled_eq_iff : settled made = made.map Made.closed ↔
    ∀ key, (resultsOf key made).reverse = resultsOf key made := by
  constructor
  · intro h key
    have hkey : List.zipWith (fun item result => (⟨key, item, some result⟩ : Call κ α β))
        (itemsOf key made) (resultsOf key made) = List.zipWith
          (fun item result => ⟨key, item, some result⟩)
          (itemsOf key made) (resultsOf key made).reverse := by
      rw [← ofKey_closed, ← h, ofKey_settled]
    have hsame := congrArg (List.map Call.result) hkey
    have hlength : (itemsOf key made).length = (resultsOf key made).length := length_itemsOf made
    rw [map_result_zipWith hlength,
      map_result_zipWith (by rw [List.length_reverse, hlength])] at hsame
    exact (List.map_injective_iff.mpr (fun _ _ => Option.some.inj) hsame).symm
  · intro h
    refine eq_of_ofKey ?_ fun key => ?_
    · rw [names_settled, names, List.map_map]
      rfl
    · rw [ofKey_settled, ofKey_closed, h]

end Made

/-- A round: the calls that are announced, and then the calls that are made. -/
structure Round (κ α β : Type*) where
  announced : List (κ × α)
  made : List (Made κ α β)

/-- What identifies the calls that are made. -/
def Round.called (r : Round κ α β) : List (κ × α) := r.made.map fun call => (call.1, call.2.1)

/-- The calls after a round. -/
def afterRound (calls : List (Call κ α β)) (r : Round κ α β) : List (Call κ α β) :=
  (r.made.map fun call => (call.1, call.2.2)).foldl settle
    (calls ++ r.announced.map fun name => ⟨name.1, name.2, none⟩)

variable {r : Round κ α β} {rounds : List (Round κ α β)}

theorem foldl_afterRound_append (h : Closed done) :
    rounds.foldl afterRound (done ++ calls) = done ++ rounds.foldl afterRound calls := by
  induction rounds generalizing calls with
  | nil => rfl
  | cons r rounds ih =>
    rw [foldl_cons, afterRound, append_assoc, foldl_settle_append h, ih]
    rfl

theorem names_afterRound : names (afterRound calls r) = names calls ++ r.announced := by
  have hannounced : r.announced.map ((fun call : Call κ α β => (call.key, call.item)) ∘
      fun name => ⟨name.1, name.2, none⟩) = r.announced := List.map_id _
  rw [afterRound, names_foldl_settle, names, List.map_append, List.map_map, hannounced, names]

theorem names_foldl_afterRound :
    names (rounds.foldl afterRound calls) = names calls ++ rounds.flatMap Round.announced := by
  induction rounds generalizing calls with
  | nil => exact (append_nil _).symm
  | cons r rounds ih =>
    rw [foldl_cons, ih, names_afterRound, flatMap_cons, append_assoc]

omit [DecidableEq κ] in
theorem length_made_le (h : ∀ r ∈ rounds, r.made.length ≤ r.announced.length) :
    (rounds.flatMap Round.called).length ≤ (rounds.flatMap Round.announced).length := by
  induction rounds with
  | nil => exact Nat.le_refl _
  | cons r rounds ih =>
    have hr := h r mem_cons_self
    have hrest := ih fun r' hr' => h r' (mem_cons_of_mem _ hr')
    rw [flatMap_cons, flatMap_cons, length_append, length_append, Round.called,
      length_map]
    omega

omit [DecidableEq κ] in
theorem names_closed (made : List (Made κ α β)) :
    names (made.map Made.closed) = made.map fun call => (call.1, call.2.1) := by
  rw [names, List.map_map]
  rfl

omit [DecidableEq κ] in
theorem names_made : names ((rounds.flatMap Round.made).map Made.closed) =
    rounds.flatMap Round.called := by
  rw [names_closed, map_flatMap]
  rfl

/-- Where no round announces less than it makes, the log of the rounds holds each call with its own
result if and only if every round announces what it makes, and the results of a key in a round are
the same from the last to the first. -/
theorem rounds_eq_iff (h : ∀ r ∈ rounds, r.made.length ≤ r.announced.length) :
    rounds.foldl afterRound [] = (rounds.flatMap Round.made).map Made.closed ↔
      ∀ r ∈ rounds, r.announced = r.called ∧
        ∀ key, (resultsOf key r.made).reverse = resultsOf key r.made := by
  induction rounds with
  | nil => exact iff_of_true rfl fun r hr => by cases hr
  | cons r rounds ih =>
    have hrest := ih fun r' hr' => h r' (List.mem_cons_of_mem _ hr')
    rw [List.forall_mem_cons, ← hrest, List.foldl_cons, List.flatMap_cons, List.map_append]
    have hround : r.announced = r.called → rounds.foldl afterRound (afterRound [] r) =
        settled r.made ++ rounds.foldl afterRound [] := by
      intro hcalled
      have hopened : r.announced.map (fun name => (⟨name.1, name.2, none⟩ : Call κ α β)) =
          r.made.map Made.opened := by
        rw [hcalled, Round.called, List.map_map]
        rfl
      have hafter : afterRound [] r = settled r.made := by
        rw [afterRound, List.nil_append, hopened]
        rfl
      rw [hafter, ← foldl_afterRound_append (closed_settled r.made), List.append_nil]
    have hlength : (settled r.made).length = (r.made.map Made.closed).length := by
      have hnames := congrArg List.length (names_settled r.made)
      rw [names, List.length_map, List.length_map] at hnames
      rw [hnames, List.length_map]
    constructor
    · intro hlog
      have hnames := congrArg names hlog
      rw [names_foldl_afterRound, names_afterRound, ← List.map_append, ← List.flatMap_cons,
        names_made, List.flatMap_cons] at hnames
      have hfewer := h r List.mem_cons_self
      have hothers := length_made_le fun r' hr' => h r' (List.mem_cons_of_mem _ hr')
      have htotal := congrArg List.length hnames
      have hcalls : r.called.length = r.made.length := List.length_map ..
      have hnil : names ([] : List (Call κ α β)) ++ r.announced = r.announced := rfl
      rw [hnil] at hnames htotal
      rw [List.length_append, List.length_append] at htotal
      have hsame : r.announced.length = r.called.length := by omega
      obtain ⟨hcalled, -⟩ := List.append_inj hnames hsame
      rw [hround hcalled] at hlog
      obtain ⟨hsettled, hothers⟩ := List.append_inj hlog hlength
      exact ⟨⟨hcalled, (settled_eq_iff _).mp hsettled⟩, hothers⟩
    · rintro ⟨⟨hcalled, hsame⟩, hothers⟩
      rw [hround hcalled, (settled_eq_iff _).mpr hsame, hothers]

end Pending
