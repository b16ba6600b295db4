import ColossalCode.Protocol.Printing
import ColossalCode.Rpc.Answers

/-! The runs in which a client sees exactly what the handler did. -/
namespace ColossalCode.Rpc
open List Option Exchange

open Transition

section Exact

variable {σ Message Task SpecStepRef StreamEvent : Type}
  {serde : Serde Message Task SpecStepRef StreamEvent}
  {server : ServerState σ Message Task SpecStepRef StreamEvent} {es : EventSource} {state : σ}

/-- What is known of a call that has been faithful so far: where its event source stands. -/
def Exchange.Stands (x : Exchange Message Task SpecStepRef StreamEvent) : Prop :=
  match x.source with
  | .waiting => x.Faithful
  | .reading rest closes => ∃ rx, x.invoked = [(x.call.invocation, .events (.ok rx))] ∧
      Reading rx rest closes x.seen
  | .closed => x.call.streaming = true → ∃ e error n,
      x.invoked = [(x.call.invocation, .events (.error e))] ∧
        x.seen = .event (.error error) :: List.replicate n .ended ∧ Reported e error

variable (serde) in
structure Exchange.Linked (x : Exchange Message Task SpecStepRef StreamEvent) : Prop where
  faithful : x.Faithful
  request : ∃ id, x.request = x.call.request serde id
  carried : x.invoked ≠ [] → x.call.Carried serde
  stands : x.Stands

section Poll

variable {x : Exchange Message Task SpecStepRef StreamEvent}

theorem poll_waiting (hsource : x.source = .waiting) (hl : x.Linked serde)
    (hcarried : x.call.Carried serde) :
    ∃ id, x.poll serde server es state =
      ((server.handler.invoke state x.call.invocation).2,
        { x with
          source := (openResponse serde es
            ((server.handler.invoke state x.call.invocation).1.body serde id)).2
          invoked := x.invoked ++
            [(x.call.invocation, (server.handler.invoke state x.call.invocation).1)]
          seen := x.seen ++ (openResponse serde es
            ((server.handler.invoke state x.call.invocation).1.body serde id)).1 }) := by
  obtain ⟨id, hrequest⟩ := hl.request
  refine ⟨id, ?_⟩
  simp only [Exchange.poll, hsource, hrequest, served_of_carried id hcarried]

theorem unread (hl : x.Linked serde) (hnone : x.invoked = []) : x.seen = [] := by
  rcases hl.faithful with ⟨-, -, hseen⟩ | ⟨answer, hinvoked, -⟩
  · exact hseen
  · rw [hnone] at hinvoked
    cases hinvoked

theorem invoke_streaming (server : ServerState σ Message Task SpecStepRef StreamEvent) (state : σ)
    (hcall : x.call.streaming = true) :
    ∃ result, (server.handler.invoke state x.call.invocation).1 = .events result := by
  cases hx : x.call with
  | sendMessageStreaming message => exact ⟨_, rfl⟩
  | subscribeToTask taskId => exact ⟨_, rfl⟩
  | sendMessage message | getTask taskId | listTasks contextId limit offset | cancelTask taskId =>
    rw [hx] at hcall
    cases hcall

/-- A right read keeps a call faithful. -/
theorem poll_linked (hcall : x.call.streaming = true) (hl : x.Linked serde)
    (hreads : x.Reads serde server es state) : (x.poll serde server es state).2.Linked serde := by
  unfold Reads at hreads
  cases hsource : x.source with
  | closed =>
    have hstands := hl.stands
    rw [Stands, hsource] at hstands
    obtain ⟨e, error, n, hinvoked, hseen, hreported⟩ := hstands hcall
    have hmore : x.seen ++ [.ended] = .event (.error error) :: List.replicate (n + 1) .ended := by
      rw [hseen, cons_append, ← replicate_succ']
    have hpoll : (x.poll serde server es state).2 = { x with seen := x.seen ++ [.ended] } := by
      simp only [Exchange.poll, hsource]
    rw [hpoll]
    refine ⟨.inr ⟨_, hinvoked, error, n + 1, ?_, hreported⟩, hl.request, hl.carried, ?_⟩
    · exact hmore ▸ prefix_rfl
    · rw [Stands]
      simp only [hsource]
      exact fun _ => ⟨e, error, n + 1, hinvoked, hmore, hreported⟩
  | reading rest closes =>
    rw [hsource] at hreads
    have hstands := hl.stands
    rw [Stands, hsource] at hstands
    obtain ⟨rx, hinvoked, hreading⟩ := hstands
    obtain ⟨rest', closes', hnext, hreading'⟩ := hreading.next es hreads
    have hpoll : (x.poll serde server es state).2 = { x with
        source := .reading rest' closes'
        seen := x.seen ++ (readResponse serde es rest closes).1 } := by
      simp only [Exchange.poll, hsource, hnext]
    rw [hpoll]
    exact ⟨.inr ⟨_, hinvoked, hreading'.shown⟩, hl.request, hl.carried, rx, hinvoked, hreading'⟩
  | waiting =>
    rw [hsource] at hreads
    obtain ⟨hnone, hcarried, hopens⟩ := hreads
    obtain ⟨id, hpoll⟩ : ∃ id, x.poll serde server es state = _ := poll_waiting hsource hl hcarried
    rw [hpoll, hnone, unread hl hnone]
    cases hanswer : (server.handler.invoke state x.call.invocation).1 with
    | task result =>
      rw [hanswer] at hopens
      exact hopens.elim
    | tasks result =>
      rw [hanswer] at hopens
      exact hopens.elim
    | events result =>
      rw [hanswer] at hopens
      cases result with
      | ok rx =>
        obtain ⟨rest, closes, hnext, hreading⟩ := (Reading.start rx).next es hopens
        have hopen : openResponse serde es ((Answer.events (.ok rx)).body serde id) =
            ((readResponse serde es rx.events rx.closes).1, .reading rest closes) :=
          Prod.ext rfl hnext
        rw [hopen]
        exact ⟨.inr ⟨_, rfl, hreading.shown⟩, hl.request, fun _ => hcarried, rx, rfl, hreading⟩
      | error e =>
        have hreported : Reported e (.streamError es.rejected) := .inl (Eq.symm hopens)
        have hfaithful : Shown (.events (.error e) : Answer Task StreamEvent)
            [.event (.error (.streamError es.rejected))] :=
          ⟨_, 0, prefix_rfl, hreported⟩
        refine ⟨.inr ⟨_, rfl, hfaithful⟩, hl.request, fun _ => hcarried, ?_⟩
        rw [Stands]
        cases hrepeats : es.repeatsRejected with
        | true =>
          simp only [Answer.body, eventsBody, openResponse, hrepeats, if_true]
          exact .inr ⟨_, rfl, hfaithful⟩
        | false =>
          simp only [Answer.body, eventsBody, openResponse, hrepeats]
          exact fun _ => ⟨e, _, 0, rfl, rfl, hreported⟩

/-- A read that leaves a call faithful was right. -/
theorem reads_of_poll (hwritten : ∀ event, ∃ text, serde.ofEvent event = .ok text)
    (hcall : x.call.streaming = true) (hl : x.Linked serde)
    (hfaithful : (x.poll serde server es state).2.Faithful) :
    x.Reads serde server es state := by
  unfold Reads
  cases hsource : x.source with
  | closed => exact trivial
  | reading rest closes =>
    have hstands := hl.stands
    rw [Stands, hsource] at hstands
    obtain ⟨rx, hinvoked, hreading⟩ := hstands
    have hpoll : (x.poll serde server es state).2 = { x with
        source := (readResponse serde es rest closes).2
        seen := x.seen ++ (readResponse serde es rest closes).1 } := by
      simp only [Exchange.poll, hsource]
    rw [hpoll] at hfaithful
    refine hreading.of_shown hwritten ((faithful_of_invoked ?_).mp hfaithful)
    exact hinvoked
  | waiting =>
    by_cases hcarried : x.call.Carried serde
    · obtain ⟨id, hpoll⟩ : ∃ id, x.poll serde server es state = _ :=
        poll_waiting hsource hl hcarried
      rw [hpoll] at hfaithful
      have hnone : x.invoked = [] := by
        rcases hfaithful with ⟨-, hinvoked, -⟩ | ⟨answer, hinvoked, -⟩
        · exact absurd hinvoked (by simp)
        · rcases append_eq_singleton_iff.mp hinvoked with ⟨hnone, -⟩ | ⟨-, hnone⟩
          · exact hnone
          · exact absurd hnone (by simp)
      refine ⟨hnone, hcarried, ?_⟩
      obtain ⟨result, hanswer⟩ := invoke_streaming server state hcall
      rw [hanswer] at hfaithful ⊢
      rw [hnone, unread hl hnone] at hfaithful
      have hshown := (faithful_of_invoked rfl).mp hfaithful
      cases result with
      | ok rx => exact (Reading.start rx).of_shown hwritten hshown
      | error e =>
        obtain ⟨error, n, hseen, hreported⟩ := hshown
        cases (cons_prefix_cons.mp hseen).1
        rcases hreported with hsame | hrecovered
        · exact hsame.symm
        · cases hrecovered
    · have hpoll : (x.poll serde server es state).2 = { x with
          source := (openResponse serde es
            (handleJsonrpc serde server state x.request.received).body).2
          invoked := x.invoked ++ (handleJsonrpc serde server state x.request.received).invoked
          seen := x.seen ++ (openResponse serde es
            (handleJsonrpc serde server state x.request.received).body).1 } := by
        simp only [Exchange.poll, hsource]
      rw [hpoll] at hfaithful
      have hnone : x.invoked = [] := by
        by_contra hsome
        exact hcarried (hl.carried hsome)
      obtain ⟨id, hrequest⟩ := hl.request
      rw [hnone, hrequest, nil_append] at hfaithful
      rcases hfaithful with ⟨-, hinvoked, hseen⟩ | ⟨answer, hinvoked, -⟩
      · rcases served_of_not_carried id hcarried with ⟨response, hserved⟩ | ⟨_, _, -, hother⟩
        · rw [hserved] at hseen
          exact absurd hseen (by simp [unserved, openResponse])
        · rw [hother] at hinvoked
          cases hinvoked
      · exact absurd hinvoked (invoked_of_not_carried hcarried)

end Poll

section Runs

variable {s t : System σ Message Task SpecStepRef StreamEvent} {call : Call Message}
  {id : RequestId} {a : Action Message}

theorem exchange_waiting (hcall : call.streaming = true) :
    (call.exchange serde server state id).2 =
      { call := call, request := call.request serde id, source := .waiting
        invoked := [], seen := [] } := by
  simp [Call.exchange, hcall]

theorem exchange_linked (h : (call.exchange serde server state id).2.Faithful) :
    (call.exchange serde server state id).2.Linked serde := by
  by_cases hcall : call.streaming = true
  · rw [exchange_waiting hcall] at h ⊢
    exact ⟨h, ⟨id, rfl⟩, fun hsome => absurd rfl hsome, h⟩
  · rw [Bool.not_eq_true] at hcall
    have hcarried := ((exchange_faithful id hcall).mp h).1
    rw [exchange_answered id hcall] at h ⊢
    exact ⟨h, ⟨id, rfl⟩, fun _ => hcarried, fun hstreaming => absurd hstreaming (by simp [hcall])⟩

theorem exchange_faithful_iff :
    (call.exchange serde server state id).2.Faithful ↔ call.streaming = true ∨
      call.Carried serde ∧ (server.handler.invoke state call.invocation).1.Carried serde := by
  by_cases hcall : call.streaming = true
  · rw [exchange_waiting hcall]
    exact iff_of_true (.inl ⟨hcall, rfl, rfl⟩) (.inl hcall)
  · rw [Bool.not_eq_true] at hcall
    rw [exchange_faithful id hcall]
    simp [hcall]

theorem posted_faithful_iff {request : JsonRpcRequest} :
    Posted.Faithful serde { request := request
                            body := (handleJsonrpc serde server state request).body
                            invoked := (handleJsonrpc serde server state request).invoked } ↔
      (Malformed serde request → request.a2aMethod ≠ some .listTasks) := by
  constructor
  · intro hfaithful hmalformed hlist
    exact list_invokes hlist (hfaithful hmalformed).2
  · intro hmethod hmalformed
    obtain ⟨text, hrefused⟩ := malformed_refused server state hmalformed (hmethod hmalformed)
    rw [hrefused]
    exact ⟨⟨text, rfl⟩, rfl⟩

theorem faithful_append_iff {x : Exchange Message Task SpecStepRef StreamEvent}
    {n : Int} (hs : s.Faithful serde) : System.Faithful serde
      { s with state := state, nextRequestId := n, exchanges := s.exchanges ++ [x] } ↔
    x.Faithful := by
  constructor
  · exact fun ht => ht.exchanges x (mem_append_right _ mem_cons_self)
  · refine fun hx => ⟨?_, hs.posted⟩
    intro y hy
    rcases mem_append.mp hy with hy | hy
    · exact hs.exchanges y hy
    · exact mem_singleton.mp hy ▸ hx

theorem faithful_set_iff {x y : Exchange Message Task SpecStepRef StreamEvent} {i : Nat}
    (hs : s.Faithful serde) (hx : s.exchanges[i]? = some x) : System.Faithful serde
      { s with state := state, exchanges := s.exchanges.set i y } ↔ y.Faithful := by
  constructor
  · intro ht
    obtain ⟨hi, -⟩ := List.getElem?_eq_some_iff.mp hx
    exact ht.exchanges y (mem_set hi y)
  · refine fun hy => ⟨?_, hs.posted⟩
    intro z hz
    rcases mem_or_eq_of_mem_set hz with hz | rfl
    · exact hs.exchanges z hz
    · exact hy

theorem faithful_posted_iff {p : Posted Message Task SpecStepRef StreamEvent}
    (hs : s.Faithful serde) : System.Faithful serde
      { s with state := state, posted := s.posted ++ [p] } ↔ p.Faithful serde := by
  constructor
  · exact fun ht => ht.posted p (mem_append_right _ mem_cons_self)
  · refine fun hp => ⟨hs.exchanges, ?_⟩
    intro q hq
    rcases mem_append.mp hq with hq | hq
    · exact hs.posted q hq
    · exact mem_singleton.mp hq ▸ hp

/-- Every call is linked to where its event source stands. -/
def System.Linked (serde : Serde Message Task SpecStepRef StreamEvent)
    (s : System σ Message Task SpecStepRef StreamEvent) : Prop :=
  ∀ x ∈ s.exchanges, x.Linked serde

/-- A step keeps the calls faithful just when it is exact. -/
theorem step_faithful (hwritten : ∀ event, ∃ text, serde.ofEvent event = .ok text)
    (hlinked : s.Linked serde) (hs : s.Faithful serde) (h : step serde server es s a = some t) :
    t.Faithful serde ↔ Exact serde server es s a := by
  cases a with
  | call call =>
    cases h
    exact (faithful_append_iff hs).trans exchange_faithful_iff
  | post request =>
    cases h
    exact (faithful_posted_iff hs).trans posted_faithful_iff
  | poll i =>
    simp only [step] at h
    cases hx : s.exchanges[i]? with
    | none =>
      rw [hx] at h
      cases h
    | some x =>
      rw [hx] at h
      by_cases hcall : x.call.streaming = true
      · simp only [if_pos hcall, some.injEq] at h
        subst h
        have hl := hlinked x (mem_of_getElem? hx)
        refine (faithful_set_iff hs hx).trans ?_
        constructor
        · intro hfaithful y hy
          obtain rfl := Option.some.inj (hx.symm.trans hy)
          exact reads_of_poll hwritten hcall hl hfaithful
        · exact fun hreads => (poll_linked hcall hl (hreads x hx)).faithful
      · simp [hcall] at h

theorem step_linked (hwritten : ∀ event, ∃ text, serde.ofEvent event = .ok text)
    (h : step serde server es s a = some t) (hs : s.Faithful serde)
    (ht : t.Faithful serde) (hlinked : s.Linked serde) : t.Linked serde := by
  have hexact := (step_faithful hwritten hlinked hs h).mp ht
  cases a with
  | call call =>
    cases h
    have hx := (faithful_append_iff hs).mp ht
    intro y hy
    rcases mem_append.mp hy with hy | hy
    · exact hlinked y hy
    · exact mem_singleton.mp hy ▸ exchange_linked hx
  | post request =>
    cases h
    exact hlinked
  | poll i =>
    simp only [step] at h
    cases hx : s.exchanges[i]? with
    | none =>
      rw [hx] at h
      cases h
    | some x =>
      rw [hx] at h
      by_cases hcall : x.call.streaming = true
      · simp only [if_pos hcall, some.injEq] at h
        subst h
        intro y hy
        rcases mem_or_eq_of_mem_set hy with hy | rfl
        · exact hlinked y hy
        · exact poll_linked hcall (hlinked x (mem_of_getElem? hx)) (hexact x hx)
      · simp [hcall] at h

theorem start_faithful (state : σ) :
    (System.start state : System σ Message Task SpecStepRef StreamEvent).Faithful serde :=
  ⟨fun _ h => absurd h not_mem_nil, fun _ h => absurd h not_mem_nil⟩

/-- In every run of calls, reads and foreign requests, each call invokes the handler once and shows
what it answers in every state, just when each step is exact. -/
theorem client_sees_handler (hwritten : ∀ event, ∃ text, serde.ofEvent event = .ok text)
    {as : List (Action Message)} (h : run (step serde server es) (.start state) as = some s) :
    Throughout (step serde server es) (System.Faithful serde) (.start state) as ↔
      Steps (step serde server es) (Exact serde server es) (.start state) as s :=
  throughout_iff_steps_while (Q := fun _ => True) (fun _ _ => trivial)
    (fun _ _ _ _ hstep hs ht => step_linked hwritten hstep hs ht)
    (fun _ _ _ _ hlinked hstep hs => step_faithful hwritten hlinked hs hstep) h
    (fun _ hx => absurd hx not_mem_nil) (start_faithful state)

end Runs

end Exact

section Sample

/-- The JSON text of an event that shows a task. -/
def eventText (task : Protocol.Value) : String :=
  Protocol.printed (fun literal => literal) (.object [("task", task)])

/-- Messages that are a text, tasks that are an id, and one event for each task of a table. -/
def textSerde (tasks : List String) : Serde String String Unit String :=
  let ofTask (id : String) : Protocol.Value :=
    .object [("id", .string id), ("status", .object [("state", .string "completed")]),
      ("messages", .array []), ("artifacts", .array [])]
  { ofMessage := fun text => .object [("messageId", .string "m1"), ("role", .string "user"),
      ("parts", .array [.object [("text", .string text)]])]
    toMessage := fun value => do
      let parts ← (value.get "parts").bind Protocol.Value.asArray
      let part ← parts.head?
      (part.get "text").bind Protocol.Value.asStr
    ofTask := ofTask
    toTask := fun value => (value.get "id").bind Protocol.Value.asStr
    toSpecStep := fun _ => none
    toConfiguration := fun _ => none
    ofEvent := fun id => .ok (eventText (ofTask id))
    toEvent := fun text => tasks.find? fun id => eventText (ofTask id) = text
    complaint := fun name _ => "invalid " ++ name
    eventComplaint := fun _ => "data did not match any variant of untagged enum StreamEvent" }

/-- Its state counts the messages it has run. -/
def countingHandler : A2AHandler Nat String String Unit String where
  handleMessage := fun runs message _ _ => (.ok message, runs + 1)
  handleStreamingMessage := fun runs _ _ _ => (.ok { events := ["t1"], closes := true }, runs + 1)
  getTask := fun runs taskId => (.error (.taskNotFound taskId), runs)
  listTasks := fun runs _ _ _ => (.ok (["t1"], 1), runs)
  cancelTask := fun runs _ => (.error .taskNotCancelable, runs)
  subscribeToTask := fun runs taskId => (.error (.taskNotFound taskId), runs)

def countingServer : ServerState Nat String String Unit String where
  agentCard := .object []
  handler := countingHandler

def closingSource : EventSource where
  repeatsRejected := false
  rejected := "Invalid header value: application/json"
  ended := "Stream ended"

theorem client_sees_handler_sample :
    Throughout (step (textSerde ["t1"]) countingServer closingSource)
      (System.Faithful (textSerde ["t1"])) (.start 0)
      [.call (.sendMessage "hi"), .call (.sendMessageStreaming "go"), .call (.getTask "t9"),
        .poll 1, .call (.listTasks none (some 5) none),
        .post (.new .getTask none (.number 7))] := by
  refine (client_sees_handler (fun event => ⟨_, rfl⟩) rfl).mpr ?_
  refine .head (.inr ⟨rfl, rfl, rfl⟩) rfl ?_
  refine .head (.inl rfl) rfl ?_
  refine .head (.inr ⟨trivial, trivial⟩) rfl ?_
  refine .head ?_ rfl ?_
  · intro x hx
    cases hx
    exact ⟨rfl, rfl, _, rfl, by decide⟩
  refine .head (.inr ⟨trivial, ?_⟩) rfl ?_
  · intro task htask
    cases mem_singleton.mp htask
    rfl
  refine .head (fun _ => by decide) rfl (.refl _)

/-- A stream that is read on after its last event runs the handler's task again. -/
theorem stream_runs_twice :
    ¬ ∀ (as : List (Action String)) (s : System Nat String String Unit String),
      run (step (textSerde ["t1"]) countingServer closingSource) (.start 0) as = some s →
        s.Faithful (textSerde ["t1"]) := by
  intro hall
  have hend := hall [.call (.sendMessageStreaming "go"), .poll 0, .poll 0, .poll 0] _ rfl
  have hfaithful := hend.exchanges _ mem_cons_self
  rcases hfaithful with ⟨-, hnone, -⟩ | ⟨answer, hinvoked, -⟩
  · cases hnone
  · cases (List.cons.inj hinvoked).2

end Sample

end ColossalCode.Rpc
