import ColossalCode.Auth.Store

/-! Which saves and refreshes keep what has been written last. -/
namespace ColossalCode.Auth
open List Option State

open Transition

section Find

variable {store : AuthStore} {c connection : StoredConnection} {id other : String}
  {field : SecretField}

/-- No two connections have one id. -/
def Distinct (store : AuthStore) : Prop := (store.map StoredConnection.id).Nodup

theorem find_iff (h : Distinct store) :
    (store.find? fun c => c.id = id) = some c ↔ c ∈ store ∧ c.id = id := by
  constructor
  · intro hfind
    have hid := find?_some hfind
    exact ⟨mem_of_find?_eq_some hfind, of_decide_eq_true hid⟩
  · rintro ⟨hc, rfl⟩
    have hsome : (store.find? fun found => found.id = c.id).isSome = true :=
      find?_isSome.mpr ⟨c, hc, decide_eq_true rfl⟩
    obtain ⟨found, hfound⟩ := isSome_iff_exists.mp hsome
    have hid := find?_some hfound
    rw [hfound, inj_on_of_nodup_map h (mem_of_find?_eq_some hfound) hc
      (of_decide_eq_true hid)]

theorem find_none (h : id ∉ store.map StoredConnection.id) :
    (store.find? fun c => c.id = id) = none := by
  rw [find?_eq_none]
  intro c hc hid
  exact h (of_decide_eq_true hid ▸ mem_map_of_mem hc)

theorem secretOf_mem (h : Distinct store) (hc : c ∈ store) :
    secretOf store c.id field = c.secrets field := by
  rw [secretOf, (find_iff h).mpr ⟨hc, rfl⟩, bind_some]

theorem secretOf_none (h : id ∉ store.map StoredConnection.id) : secretOf store id field = none := by
  rw [secretOf, find_none h, bind_none]

variable (change : StoredConnection → StoredConnection)

theorem find_map (hid : ∀ c, (change c).id = c.id) :
    ((store.map change).find? fun c => c.id = id) =
      (store.find? fun c => c.id = id).map change := by
  rw [find?_map]
  congr 2
  funext c
  rw [Function.comp_apply, hid]

theorem find_perm {store' : AuthStore} (h : Distinct store) (hperm : store.Perm store') :
    (store'.find? fun c => c.id = id) = store.find? fun c => c.id = id := by
  have h' : Distinct store' := (hperm.map StoredConnection.id).nodup_iff.mp h
  apply ext
  intro c
  rw [find_iff h, find_iff h', hperm.mem_iff]

theorem modifyFirst_ids (hid : ∀ c, c.id = id → (change c).id = id) :
    (modifyFirst id change store).map StoredConnection.id = store.map StoredConnection.id := by
  induction store with
  | nil => rfl
  | cons c store ih =>
    rw [modifyFirst]
    split
    · rename_i hc
      rw [map_cons, map_cons, hid c hc, hc]
    · rw [map_cons, map_cons, ih]

theorem find_modifyFirst (hid : ∀ c, c.id = id → (change c).id = id) :
    ((modifyFirst id change store).find? fun c => c.id = other) =
      if other = id then (store.find? fun c => c.id = id).map change
      else store.find? fun c => c.id = other := by
  induction store with
  | nil => rw [modifyFirst]; split <;> rfl
  | cons c store ih =>
    rw [modifyFirst]
    by_cases hc : c.id = id
    · rw [if_pos hc, find?_cons, find?_cons, hid c hc]
      by_cases hother : other = id
      · subst hother
        simp [hc]
      · simp [hc, hother, Ne.symm hother]
    · rw [if_neg hc, find?_cons, find?_cons, ih]
      by_cases hother : other = id
      · subst hother
        simp [hc]
      · simp [hother, find?_cons]

theorem any_id : (store.any fun c => c.id = id) = true ↔ id ∈ store.map StoredConnection.id := by
  simp

theorem find_upsert (h : Distinct store) :
    ((upsertConnection store connection).find? fun c => c.id = other) =
      if other = connection.id then some connection else store.find? fun c => c.id = other := by
  rw [upsertConnection]
  by_cases hany : (store.any fun existing => existing.id = connection.id) = true
  · rw [if_pos hany, find_modifyFirst _ fun _ _ => rfl]
    obtain ⟨existing, hmem, hid⟩ := mem_map.mp (any_id.mp hany)
    rw [← hid, (find_iff h).mpr ⟨hmem, rfl⟩, map_some]
  · have hnew : connection.id ∉ store.map StoredConnection.id := fun hmem => hany (any_id.mpr hmem)
    have hdistinct : Distinct (store ++ [connection]) := by
      rw [Distinct, map_append, nodup_append]
      refine ⟨h, nodup_cons.mpr ⟨not_mem_nil, nodup_nil⟩, ?_⟩
      rintro a ha b hb rfl
      exact hnew (mem_singleton.mp hb ▸ ha)
    rw [if_neg hany, find_perm hdistinct (perm_insertionSort _ _).symm, find?_append]
    by_cases hother : other = connection.id
    · subst hother
      rw [find_none hnew, if_pos rfl, none_or]
      simp
    · simp [hother, Ne.symm hother]

theorem upsert_distinct (h : Distinct store) : Distinct (upsertConnection store connection) := by
  rw [upsertConnection]
  split
  · rw [Distinct, modifyFirst_ids _ fun _ _ => rfl]
    exact h
  · rename_i hany
    have hperm := (perm_insertionSort (fun a b => a.providerName ≤ b.providerName)
      (store ++ [connection])).map StoredConnection.id
    rw [Distinct, hperm.nodup_iff, map_append, nodup_append]
    refine ⟨h, nodup_cons.mpr ⟨not_mem_nil, nodup_nil⟩, ?_⟩
    rintro a ha b hb rfl
    exact hany (any_id.mpr (mem_singleton.mp hb ▸ ha))

end Find

section Writes

variable {keyring : Keyring} {store : AuthStore} {writes : List SecretWrite} {write : SecretWrite}
  {id : String} {field : SecretField}

theorem present_present (value : Option String) : present (present value) = present value := by
  cases hvalue : present value with
  | none => rfl
  | some text =>
    have htext : (!(Text.trim text).isEmpty) = true := (filter_eq_some_iff.mp hvalue).2
    rw [present, filter_some, if_pos htext]

/-- An entry is as the last write to it has left it. -/
theorem foldl_cases (keyring : Keyring) (writes : List SecretWrite) (id : String)
    (field : SecretField) : (∃ write ∈ writes, write.id = id ∧ write.field = field ∧
      writes.foldl persistConnectionSecret keyring id field = present write.value) ∨
    (∀ write ∈ writes, ¬ (id = write.id ∧ field = write.field)) ∧
      writes.foldl persistConnectionSecret keyring id field = keyring id field := by
  induction writes generalizing keyring with
  | nil => exact .inr ⟨fun write hwrite => absurd hwrite not_mem_nil, rfl⟩
  | cons first writes ih =>
    rw [foldl_cons]
    rcases ih (persistConnectionSecret keyring first) with
      ⟨write, hwrite, hlast⟩ | ⟨hnone, hsame⟩
    · exact .inl ⟨write, mem_cons_of_mem _ hwrite, hlast⟩
    · by_cases hfirst : id = first.id ∧ field = first.field
      · refine .inl ⟨first, mem_cons_self, hfirst.1.symm, hfirst.2.symm, ?_⟩
        rw [hsame, persistConnectionSecret, if_pos hfirst]
      · refine .inr ⟨fun write hwrite => ?_, ?_⟩
        · rcases mem_cons.mp hwrite with rfl | hwrite
          · exact hfirst
          · exact hnone write hwrite
        · rw [hsame, persistConnectionSecret, if_neg hfirst]

theorem mem_secretWrites : write ∈ secretWrites store ↔
    ∃ c ∈ store, write = ⟨c.id, write.field, c.secrets write.field⟩ := by
  rw [secretWrites, List.mem_flatMap]
  refine exists_congr fun c => and_congr_right fun hc => ?_
  rw [List.mem_map]
  constructor
  · rintro ⟨field, -, rfl⟩
    rfl
  · intro hwrite
    refine ⟨write.field, ?_, hwrite.symm⟩
    cases write.field with
    | apiKey => exact List.mem_cons_self
    | accessToken => exact List.mem_cons_of_mem _ List.mem_cons_self
    | refreshToken => exact List.mem_cons_of_mem _ (List.mem_cons_of_mem _ List.mem_cons_self)

theorem write_value (h : Distinct store) (hwrite : write ∈ secretWrites store) :
    write.value = secretOf store write.id write.field := by
  obtain ⟨c, hc, heq⟩ := mem_secretWrites.mp hwrite
  rw [heq]
  exact (secretOf_mem h hc).symm

theorem keyring_saved (h : Distinct store) :
    (secretWrites store).foldl persistConnectionSecret keyring id field =
      if id ∈ store.map StoredConnection.id then present (secretOf store id field)
      else keyring id field := by
  rcases foldl_cases keyring (secretWrites store) id field with
    ⟨write, hwrite, rfl, rfl, hlast⟩ | ⟨hnone, hsame⟩
  · obtain ⟨c, hc, heq⟩ := mem_secretWrites.mp hwrite
    have hid : write.id ∈ store.map StoredConnection.id := by
      rw [heq]
      exact mem_map_of_mem hc
    rw [hlast, if_pos hid, write_value h hwrite]
  · have hid : id ∉ store.map StoredConnection.id := by
      intro hmem
      obtain ⟨c, hc, rfl⟩ := mem_map.mp hmem
      exact hnone ⟨c.id, field, c.secrets field⟩ (mem_secretWrites.mpr ⟨c, hc, rfl⟩) ⟨rfl, rfl⟩
    rw [hsame, if_neg hid]

theorem foldl_present (h : ∀ id field, present (keyring id field) = keyring id field) (id : String)
    (field : SecretField) : present (writes.foldl persistConnectionSecret keyring id field) =
      writes.foldl persistConnectionSecret keyring id field := by
  rcases foldl_cases keyring writes id field with ⟨write, -, -, -, hlast⟩ | ⟨-, hsame⟩
  · rw [hlast, present_present]
  · rw [hsame, h]

end Writes

section Kept

variable {s t : State} {action : Action} {connection : Option StoredConnection}
  {store : AuthStore} {id : String} {field : SecretField}

structure Kept (s : State) : Prop where
  file : Distinct s.plaintext
  memory : Distinct s.memory
  keyring : ∀ id field, present (s.keyring id field) = s.keyring id field

theorem load_distinct (h : Distinct s.plaintext) (readable : Bool)
    (reads : String → SecretField → Bool) : Distinct (loadAuthStore s readable reads) := by
  rw [loadAuthStore]
  split
  · rw [Distinct, List.map_map]
    exact h
  · exact List.nodup_nil

theorem toSave_distinct (h : Distinct s.memory) (connection : Option StoredConnection) :
    Distinct (s.toSave connection) := by
  cases connection with
  | none => exact h
  | some connection => exact upsert_distinct h

theorem Kept.step (h : Kept s) (hs : step s action = some t) : Kept t := by
  obtain ⟨hfile, hmemory, hkeyring⟩ := h
  cases action with
  | load readable reads =>
    cases hs
    exact ⟨hfile, load_distinct hfile readable reads, hkeyring⟩
  | save connection fails =>
    have hsave := toSave_distinct hmemory connection
    cases fails with
    | none =>
      cases hs
      refine ⟨?_, hsave, foldl_present hkeyring⟩
      rw [Distinct, plaintext, getD_some, List.map_map]
      exact hsave
    | some n =>
      rw [Auth.step, saveAuthStore] at hs
      split at hs
      · cases hs
        exact ⟨hfile, hmemory, foldl_present hkeyring⟩
      · cases hs
  | refresh readable id accessToken refreshToken =>
    cases hs
    rw [persistRefreshedTokens]
    cases hstore : s.file with
    | none => exact ⟨hfile, hmemory, hkeyring⟩
    | some store =>
      dsimp only
      split
      · refine ⟨?_, hmemory, hkeyring⟩
        rw [plaintext, hstore, getD_some] at hfile
        rw [Distinct, plaintext, getD_some, modifyFirst_ids]
        · exact hfile
        · exact fun _ h => h
      · exact ⟨hfile, hmemory, hkeyring⟩

theorem stored_eq (h : Kept s) (id : String) (field : SecretField) :
    secretOf s.stored id field =
      if id ∈ s.plaintext.map StoredConnection.id then
        (s.keyring id field).or (secretOf s.plaintext id field)
      else none := by
  by_cases hid : id ∈ s.plaintext.map StoredConnection.id
  · obtain ⟨c, hc, rfl⟩ := List.mem_map.mp hid
    rw [if_pos hid, secretOf, secretOf, stored, loadAuthStore, if_pos rfl]
    change ((s.plaintext.map _).find? _).bind _ = _
    rw [find_map, (find_iff h.file).mpr ⟨hc, rfl⟩, map_some, bind_some,
      bind_some, hydrate]
    · dsimp only
      rw [if_pos rfl, h.keyring]
    · exact fun _ => rfl
  · rw [if_neg hid, secretOf_none]
    rw [stored, loadAuthStore, if_pos rfl, List.map_map]
    exact hid

theorem plaintext_saved (hstep : saveAuthStore s connection none = some t) :
    secretOf t.plaintext id field = none := by
  cases hstep
  rw [plaintext, getD_some, secretOf, find_map]
  · cases (s.toSave connection).find? fun c => c.id = id <;> rfl
  · exact fun _ => rfl

/-- What has been saved is what a load returns. -/
theorem stored_save (h : Kept s) (hstep : saveAuthStore s connection none = some t) (id : String)
    (field : SecretField) :
    secretOf t.stored id field = present (secretOf (s.toSave connection) id field) := by
  have hdistinct := toSave_distinct h.memory connection
  have hkept : Kept t := h.step (show step s (.save connection none) = some t from hstep)
  have hids : t.plaintext.map StoredConnection.id =
      (s.toSave connection).map StoredConnection.id := by
    cases hstep
    rw [plaintext, getD_some, List.map_map]
    rfl
  have hkeyring : t.keyring id field = if id ∈ (s.toSave connection).map StoredConnection.id then
      present (secretOf (s.toSave connection) id field) else s.keyring id field := by
    cases hstep
    exact keyring_saved hdistinct
  rw [stored_eq hkept, hids, hkeyring]
  by_cases hid : id ∈ (s.toSave connection).map StoredConnection.id
  · rw [if_pos hid, if_pos hid, plaintext_saved hstep, or_none]
  · rw [if_neg hid, secretOf_none hid]
    rfl

theorem saved_sound_iff (h : Kept s) (hs : Sound s)
    (hstep : saveAuthStore s connection none = some t) :
    Sound t ↔ Keeps s (.save connection none) := by
  have hwritten : Sound t ↔ ∀ id field,
      present (secretOf (s.toSave connection) id field) = t.written id field := by
    constructor
    · intro ht id field
      rw [← stored_save h hstep, ht.returned]
    · intro hall
      refine ⟨fun id field => ?_, fun id field _ => plaintext_saved hstep⟩
      rw [stored_save h hstep, hall]
  rw [hwritten]
  refine forall_congr' fun id => ?_
  have hmemory : (∀ field, present (secretOf s.memory id field) = s.written id field) ↔
      ∀ field, present (secretOf s.memory id field) = secretOf s.stored id field :=
    forall_congr' fun field => by rw [hs.returned]
  cases connection with
  | none =>
    cases hstep
    exact hmemory.trans ⟨fun hall _ => hall, fun hall => hall fun c hc => by cases hc⟩
  | some c =>
    cases hstep
    have hsecret : ∀ field, secretOf (s.toSave (some c)) id field =
        if id = c.id then c.secrets field else secretOf s.memory id field := by
      intro field
      rw [secretOf, toSave, find_upsert h.memory]
      split <;> rfl
    by_cases hid : id = c.id
    · refine iff_of_true (fun field => ?_) fun hother => absurd hid.symm (hother c rfl)
      rw [hsecret, if_pos hid]
      exact (if_pos hid).symm
    · refine Iff.trans (forall_congr' fun field => ?_) (hmemory.trans
        ⟨fun hall _ => hall, fun hall => hall fun c' hc => some.inj hc ▸ Ne.symm hid⟩)
      rw [hsecret, if_neg hid]
      dsimp only
      rw [if_neg hid]

/-- Of two entries of the keyring over one text in the file, which is there only without an entry. -/
theorem entry_unique {entry entry' plain : Option String} (h : entry.or plain = entry'.or plain)
    (hentry : entry.isSome = true → plain = none) (hentry' : entry'.isSome = true → plain = none) :
    entry = entry' := by
  cases entry with
  | some secret =>
    rw [hentry rfl, or_none, or_none] at h
    exact h
  | none =>
    cases entry' with
    | none => rfl
    | some secret =>
      rw [hentry' rfl] at h
      cases h

/-- Where only the keyring has changed, it has to be as it was for all connections of the file. -/
theorem keyring_sound_iff (h : Kept s) (ht : Kept t) (hs : Sound s) (hfile : t.file = s.file)
    (hwritten : t.written = s.written) : Sound t ↔ ∀ id ∈ s.plaintext.map StoredConnection.id,
      ∀ field, t.keyring id field = s.keyring id field := by
  have hplain : t.plaintext = s.plaintext := by rw [plaintext, plaintext, hfile]
  constructor
  · intro hsound id hid field
    have hsame := (hs.returned id field).trans ((hwritten ▸ hsound.returned id field).symm)
    rw [stored_eq h, stored_eq ht, hplain, if_pos hid, if_pos hid] at hsame
    exact (entry_unique hsame (hs.hidden id field) (hplain ▸ hsound.hidden id field)).symm
  · intro hall
    refine ⟨fun id field => ?_, fun id field hsome => ?_⟩
    · rw [hwritten, ← hs.returned, stored_eq h, stored_eq ht, hplain]
      split
      · rename_i hid
        rw [hall id hid]
      · rfl
    · rw [hplain]
      by_cases hid : id ∈ s.plaintext.map StoredConnection.id
      · exact hs.hidden id field (hall id hid field ▸ hsome)
      · exact secretOf_none hid

theorem failed_sound_iff {n : Nat} (h : Kept s) (hs : Sound s)
    (hstep : saveAuthStore s connection (some n) = some t) :
    Sound t ↔ Keeps s (.save connection (some n)) := by
  have hkept : Kept t := h.step (show step s (.save connection (some n)) = some t from hstep)
  have hvalue : ∀ write ∈ (secretWrites (s.toSave connection)).take n,
      write.value = secretOf (s.toSave connection) write.id write.field := fun write hwrite =>
    write_value (toSave_distinct h.memory connection) (mem_of_mem_take hwrite)
  rw [saveAuthStore] at hstep
  split at hstep
  · cases hstep
    rw [keyring_sound_iff h hkept hs rfl rfl]
    constructor
    · intro hall write hwrite hid
      rw [← hall write.id hid write.field]
      rcases foldl_cases s.keyring ((secretWrites (s.toSave connection)).take n) write.id
        write.field with ⟨last, hlast, hid, hfield, heq⟩ | ⟨hnone, -⟩
      · refine Eq.trans ?_ heq.symm
        rw [hvalue write hwrite, hvalue last hlast, hid, hfield]
      · exact absurd ⟨rfl, rfl⟩ (hnone write hwrite)
    · intro hkeeps id hid field
      rcases foldl_cases s.keyring ((secretWrites (s.toSave connection)).take n) id field with
        ⟨last, hlast, rfl, rfl, heq⟩ | ⟨-, hsame⟩
      · exact heq.trans (hkeeps last hlast hid)
      · exact hsame
  · cases hstep

theorem secretOf_refreshed {accessToken refreshToken : String}
    (hid : id ∈ store.map StoredConnection.id) (other : String) (field : SecretField) :
    secretOf (modifyFirst id
      (fun c => { c with secrets := refreshed accessToken refreshToken c.secrets }) store)
      other field =
      if other = id then refreshed accessToken refreshToken (secretOf store id) field
      else secretOf store other field := by
  rw [secretOf, find_modifyFirst]
  · obtain ⟨c, hc⟩ := isSome_iff_exists.mp (find?_isSome.mpr (by
      obtain ⟨c, hc, hcid⟩ := mem_map.mp hid
      exact ⟨c, hc, decide_eq_true hcid⟩))
    split
    · have hsecret : ∀ field, secretOf store id field = c.secrets field := by
        intro field
        rw [secretOf, hc, bind_some]
      rw [hc, map_some, bind_some]
      cases field with
      | apiKey => exact (hsecret .apiKey).symm
      | accessToken | refreshToken => rfl
    · rfl
  · exact fun _ h => h

/-- The tokens of a refresh are what a load returns where the keyring has no older ones. -/
theorem refreshed_sound_iff (accessToken refreshToken : String) (h : Kept s) (ht : Kept t)
    (hs : Sound s) (hid : id ∈ s.plaintext.map StoredConnection.id)
    (hids : t.plaintext.map StoredConnection.id = s.plaintext.map StoredConnection.id)
    (hkeyring : t.keyring = s.keyring)
    (hplain : ∀ other field, secretOf t.plaintext other field =
      if other = id then refreshed accessToken refreshToken (secretOf s.plaintext id) field
      else secretOf s.plaintext other field)
    (hwritten : ∀ other field, t.written other field =
      if other = id then refreshed accessToken refreshToken (s.written id) field
      else s.written other field) :
    Sound t ↔ s.keyring id .accessToken = none ∧ s.keyring id .refreshToken = none := by
  have hstored := fun other field => stored_eq ht other field
  simp only [hids, hkeyring, hplain] at hstored
  constructor
  · intro hsound
    have hnone : ∀ field secret, secretOf t.plaintext id field = some secret →
        s.keyring id field = none := by
      intro field secret hsecret
      by_contra hsome
      rw [← ne_eq, ne_none_iff_isSome, ← hkeyring] at hsome
      rw [hsound.hidden id field hsome] at hsecret
      cases hsecret
    exact ⟨hnone _ _ ((hplain id .accessToken).trans (if_pos rfl)),
      hnone _ _ ((hplain id .refreshToken).trans (if_pos rfl))⟩
  · rintro ⟨haccess, hrefresh⟩
    have hnew : ∀ field, secretOf t.stored id field = t.written id field ∧
        ((t.keyring id field).isSome = true → secretOf t.plaintext id field = none) := by
      intro field
      rw [hstored, if_pos hid, if_pos rfl, hwritten, if_pos rfl, hkeyring, hplain, if_pos rfl]
      cases field with
      | apiKey =>
        have hold := hs.returned id .apiKey
        rw [stored_eq h, if_pos hid] at hold
        exact ⟨hold, hs.hidden id .apiKey⟩
      | accessToken =>
        rw [haccess]
        exact ⟨rfl, fun hsome => by cases hsome⟩
      | refreshToken =>
        rw [hrefresh]
        exact ⟨rfl, fun hsome => by cases hsome⟩
    have hold : ∀ other, other ≠ id → ∀ field, secretOf t.stored other field = t.written other field ∧
        ((t.keyring other field).isSome = true → secretOf t.plaintext other field = none) := by
      intro other hother field
      have hbefore := hs.returned other field
      rw [stored_eq h] at hbefore
      rw [hstored, if_neg hother, hwritten, if_neg hother, hkeyring, hplain, if_neg hother]
      exact ⟨hbefore, hs.hidden other field⟩
    have hall : ∀ other field, secretOf t.stored other field = t.written other field ∧
        ((t.keyring other field).isSome = true → secretOf t.plaintext other field = none) := by
      intro other field
      by_cases hother : other = id
      · exact hother ▸ hnew field
      · exact hold other hother field
    exact ⟨fun other field => (hall other field).1, fun other field => (hall other field).2⟩

theorem refresh_sound_iff {readable : Bool} {accessToken refreshToken : String} (h : Kept s)
    (hs : Sound s) :
    Sound (persistRefreshedTokens s readable id accessToken refreshToken) ↔
      Keeps s (.refresh readable id accessToken refreshToken) := by
  have hkept : Kept (persistRefreshedTokens s readable id accessToken refreshToken) :=
    h.step (show step s (.refresh readable id accessToken refreshToken) = some _ from rfl)
  by_cases hnone : readable = true ∧ id ∈ s.plaintext.map StoredConnection.id
  case neg =>
    have hsame : persistRefreshedTokens s readable id accessToken refreshToken = s := by
      rw [persistRefreshedTokens]
      cases hstore : s.file with
      | none => rfl
      | some store =>
        refine if_neg fun hcond => hnone ?_
        rw [Bool.and_eq_true, any_id] at hcond
        rw [plaintext, hstore]
        exact hcond
    rw [hsame]
    exact iff_of_true hs fun hreadable hid => absurd ⟨hreadable, hid⟩ hnone
  case pos =>
    obtain ⟨rfl, hid⟩ := hnone
    obtain ⟨store, hstore⟩ : ∃ store, s.file = some store := by
      cases hstore : s.file with
      | none =>
        rw [plaintext, hstore] at hid
        cases hid
      | some store => exact ⟨store, rfl⟩
    have hplain : s.plaintext = store := by rw [plaintext, hstore, getD_some]
    rw [hplain] at hid
    have hrefresh : persistRefreshedTokens s true id accessToken refreshToken =
        { s with
          file := some (modifyFirst id
            (fun c => { c with secrets := refreshed accessToken refreshToken c.secrets }) store)
          written := fun other =>
            if other = id then refreshed accessToken refreshToken (s.written id)
            else s.written other } := by
      rw [persistRefreshedTokens, hstore]
      exact if_pos (Bool.and_eq_true_iff.mpr ⟨rfl, any_id.mpr hid⟩)
    rw [hrefresh] at hkept ⊢
    rw [← hplain] at hid
    refine (refreshed_sound_iff accessToken refreshToken h hkept hs hid ?_ rfl
      (fun other field => ?_) fun other field => ?_).trans ⟨fun hboth _ _ => hboth, fun hkeeps => hkeeps rfl hid⟩
    · rw [hplain]
      exact modifyFirst_ids _ fun _ h => h
    · rw [hplain] at hid ⊢
      exact secretOf_refreshed hid other field
    · dsimp only
      split <;> rfl

theorem sound_step_iff (h : Kept s) (hs : Sound s) (hstep : step s action = some t) :
    Sound t ↔ Keeps s action := by
  cases action with
  | load readable reads =>
    cases hstep
    exact iff_of_true ⟨hs.returned, hs.hidden⟩ trivial
  | save connection fails =>
    cases fails with
    | none => exact saved_sound_iff h hs hstep
    | some n => exact failed_sound_iff h hs hstep
  | refresh readable id accessToken refreshToken =>
    cases hstep
    exact refresh_sound_iff h hs

end Kept

section Runs

variable {s t : State} {actions : List Action}

theorem kept_fresh : Kept fresh := ⟨nodup_nil, nodup_nil, fun _ _ => rfl⟩

theorem sound_fresh : Sound fresh := ⟨fun _ _ => rfl, fun _ _ hsome => by cases hsome⟩

theorem secrets_written_iff (hrun : run step fresh actions = some t) :
    Throughout step Sound fresh actions ↔ Steps step Keeps fresh actions t :=
  throughout_iff_steps (fun _ _ _ hstep h => h.step hstep)
    (fun _ _ _ h hstep hs => sound_step_iff h hs hstep) hrun kept_fresh sound_fresh

/-- A connection by a subscription, and one by a key. -/
def subscription : StoredConnection :=
  ⟨"openai", "OpenAI", refreshed "access" "refresh" fun _ => none⟩

def keyed : StoredConnection :=
  ⟨"anthropic", "Anthropic", fun field => if field = .apiKey then some "key" else none⟩

theorem secrets_written_both : ∃ t,
    run step fresh [.save (some subscription) none, .save (some keyed) none] = some t ∧
    Throughout step Sound fresh [.save (some subscription) none, .save (some keyed) none] := by
  have hrun : run step fresh [.save (some subscription) none, .save (some keyed) none] = some _ :=
    rfl
  refine ⟨_, hrun, (secrets_written_iff hrun).mpr ?_⟩
  have hsaved : step fresh (.save (some subscription) none) = some _ := rfl
  refine .head (fun _ _ _ => rfl) hsaved (.head (fun id _ field => ?_) rfl (.refl _))
  exact (stored_save kept_fresh hsaved id field).symm

/-- A refreshed token is in the file, behind the older one in the keyring; and a save after a load
that could not read the file drops all that was stored. -/
theorem secrets_lost :
    ¬ Throughout step Sound fresh
      [.save (some subscription) none, .refresh true "openai" "access2" "refresh"] ∧
    ¬ Throughout step Sound fresh [.save (some subscription) none,
      .load false fun _ _ => true, .save (some keyed) none] := by
  constructor
  · intro hall
    have hsound := hall _ _ prefix_rfl rfl
    exact absurd (hsound.returned "openai" .accessToken) (by decide)
  · intro hall
    have hsound := hall _ _ prefix_rfl rfl
    exact absurd (hsound.returned "openai" .accessToken) (by decide)

end Runs

end ColossalCode.Auth
