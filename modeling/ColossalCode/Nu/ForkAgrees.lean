import ColossalCode.Nu.Runtime

/-! The forked evaluation beside the evaluation in a copy of the runtime. -/
namespace ColossalCode.Nu
open Text

variable {σ ν : Type} (e : Engine σ ν)

namespace Runtime

/-- The segments that `run_segment` does not give to the engine. -/
def isIntercepted (trimmed : String) : Bool :=
  trimmed = "cd" || startsWith trimmed "cd " || startsWith trimmed "load-env " ||
    startsWith trimmed "hide-env "

/-- The engine's own evaluation of a segment gives the same text or error as `run_segment` and,
where it succeeds, leaves the engine in the same state. -/
structure SameSegment (rt : Runtime σ ν) (segment : String) : Prop where
  result : (e.evalString rt.engine (trim segment)).1 = (rt.runSegment e segment).1
  engine : ∀ output, (rt.runSegment e segment).1 = .ok output →
    (e.evalString rt.engine (trim segment)).2 = (rt.runSegment e segment).2.engine

/-- What a segment needs: `pwd` that the engine is in the tracked directory, the intercepted
commands that Nu's own do the same, and any other segment that its replay files can be read. -/
structure Suits (rt : Runtime σ ν) (segment : String) : Prop where
  pwd : trim segment = "pwd" → e.cwd rt.engine = some rt.currentCwd
  intercepted : isIntercepted (trim segment) = true → rt.SameSegment e segment
  replayed : isIntercepted (trim segment) = false → ∀ output s,
    e.evalString rt.engine (trim segment) = (.ok output, s) →
      (recordReplaySegment e { rt with engine := s } (trim segment)).1 = .ok ()

/-- Every segment that is reached is one that the two evaluate alike. -/
inductive Follows : Runtime σ ν → List String → Prop where
  | nil (rt : Runtime σ ν) : Follows rt []
  | cons {rt : Runtime σ ν} {segment : String} {rest : List String}
      (hsuits : trim segment ≠ "" → rt.Suits e segment)
      (hrest : ∀ output, (rt.runSegment e segment).1 = .ok output →
        Follows (rt.runSegment e segment).2 rest) : Follows rt (segment :: rest)

/-- Where a segment fails, the ones before it have given no output. -/
def Quiet : Runtime σ ν → String → List String → Prop
  | _, _, [] => True
  | rt, collected, segment :: rest =>
    match rt.runSegment e segment with
    | (.ok output, rt') => Quiet rt' (collected ++ output) rest
    | (.error _, _) => collected = ""

variable {e} in
theorem runEval_same {rt : Runtime σ ν} {trimmed : String}
    {after : Runtime σ ν → Except String Unit × Runtime σ ν}
    (h : ∀ output s, e.evalString rt.engine trimmed = (.ok output, s) →
      (after { rt with engine := s }).1 = .ok () ∧ (after { rt with engine := s }).2.engine = s) :
    (e.evalString rt.engine trimmed).1 = (rt.runEval e trimmed after).1 ∧
      ∀ output, (rt.runEval e trimmed after).1 = .ok output →
        (e.evalString rt.engine trimmed).2 = (rt.runEval e trimmed after).2.engine := by
  unfold runEval
  cases heval : e.evalString rt.engine trimmed with
  | mk result s =>
    cases result with
    | error error => exact ⟨rfl, fun _ hok => by cases hok⟩
    | ok output =>
      obtain ⟨hok, hengine⟩ := h output s heval
      cases hafter : after { rt with engine := s } with
      | mk result rt' =>
        rw [hafter] at hok hengine
        dsimp only at hok hengine
        subst hok hengine
        simp [hafter]

theorem recordReplaySegment_engine (rt : Runtime σ ν) (trimmed : String) :
    (rt.recordReplaySegment e trimmed).2.engine = rt.engine := by
  unfold recordReplaySegment
  split
  · dsimp only
    split <;> rfl
  · rfl

theorem syncCwdFromStack_engine (rt : Runtime σ ν) :
    (rt.syncCwdFromStack e).engine = rt.engine := by
  unfold syncCwdFromStack
  split
  · split <;> rfl
  · rfl

theorem runGeneral_same {rt : Runtime σ ν} {trimmed : String}
    (h : ∀ output s, e.evalString rt.engine trimmed = (.ok output, s) →
      (recordReplaySegment e { rt with engine := s } trimmed).1 = .ok ()) :
    (e.evalString rt.engine trimmed).1 = (rt.runGeneral e trimmed).1 ∧
      ∀ output, (rt.runGeneral e trimmed).1 = .ok output →
        (e.evalString rt.engine trimmed).2 = (rt.runGeneral e trimmed).2.engine := by
  refine runEval_same fun output s heval => ?_
  have hrecorded := h output s heval
  have hengine := recordReplaySegment_engine e { rt with engine := s } trimmed
  cases hrecord : recordReplaySegment e { rt with engine := s } trimmed with
  | mk result rt' =>
    rw [hrecord] at hrecorded hengine
    dsimp only at hrecorded hengine
    subst hrecorded
    exact ⟨rfl, (syncCwdFromStack_engine e rt').trans hengine⟩

variable {segment : String} {rt : Runtime σ ν}

theorem runSegment_source (rt : Runtime σ ν) (hsome : trim segment ≠ "")
    (hpwd : trim segment ≠ "pwd") (h : isIntercepted (trim segment) = false) :
    rt.runSegment e segment = rt.runSource e (trim segment) := by
  simp only [isIntercepted, Bool.or_eq_false_iff] at h
  obtain ⟨⟨⟨hcd, hcd'⟩, hload⟩, hhide⟩ := h
  have hchange : ¬ (decide (trim segment = "cd") ||
      startsWith (trim segment) "cd ") = true := by
    rw [hcd, hcd']
    exact Bool.false_ne_true
  have hload' : ¬ startsWith (trim segment) "load-env " = true := by
    rw [hload]
    exact Bool.false_ne_true
  have hhide' : ¬ startsWith (trim segment) "hide-env " = true := by
    rw [hhide]
    exact Bool.false_ne_true
  unfold runSegment
  dsimp only
  rw [if_neg hsome, if_neg hpwd, if_neg hchange, if_neg hload', if_neg hhide']

/-- The engine evaluates the source, and then something is noted that leaves it as it is. -/
theorem runSource_eval (rt : Runtime σ ν) (trimmed : String) :
    (∃ after, rt.runSource e trimmed = rt.runEval e trimmed after ∧
      ∀ rt', (after rt').1 = .ok () ∧ (after rt').2.engine = rt'.engine) ∨
      rt.runSource e trimmed = rt.runGeneral e trimmed := by
  unfold runSource
  split
  · exact .inl ⟨_, rfl, fun _ => ⟨rfl, rfl⟩⟩
  · split
    · exact .inl ⟨_, rfl, fun _ => ⟨rfl, rfl⟩⟩
    · exact .inr rfl

/-- All that is not intercepted is evaluated by the engine. -/
theorem same_of_suits (hsome : trim segment ≠ "")
    (hpwd : trim segment ≠ "pwd") (h : rt.Suits e segment) : rt.SameSegment e segment := by
  cases hintercepted : isIntercepted (trim segment) with
  | true => exact h.intercepted hintercepted
  | false =>
    have heq := runSegment_source e rt hsome hpwd hintercepted
    rcases runSource_eval e rt (trim segment) with ⟨after, hsource, hkept⟩ | hgeneral
    · have hsame := runEval_same fun output s
          (_ : e.evalString rt.engine (trim segment) = (.ok output, s)) =>
        hkept { rt with engine := s }
      obtain ⟨hresult, hengine⟩ := hsame
      rw [← hsource, ← heq] at hresult hengine
      exact ⟨hresult, hengine⟩
    · obtain ⟨hresult, hengine⟩ := runGeneral_same e (h.replayed hintercepted)
      rw [← hgeneral, ← heq] at hresult hengine
      exact ⟨hresult, hengine⟩

/-- The same standard output, error text and exit code. -/
def Output.Same (o o' : Output) : Prop :=
  o.stdout = o'.stdout ∧ o.stderr = o'.stderr ∧ o.exitCode = o'.exitCode

theorem segments_same_iff (currentCwd collected : String)
    {segments : List String} (h : rt.Follows e segments) :
    Output.Same (forkOutput (forkSegments e currentCwd rt.engine collected segments))
        (rt.runSegments e collected segments).1 ↔ rt.Quiet e collected segments := by
  induction segments generalizing rt collected with
  | nil => simp [forkSegments, runSegments, forkOutput, Output.Same, Quiet]
  | cons segment rest ih =>
    obtain - | ⟨hsuits, hrest⟩ := h
    rw [forkSegments, runSegments, Quiet]
    by_cases hsome : trim segment = ""
    · have hrun : rt.runSegment e segment = (.ok "", rt) := by
        unfold runSegment
        dsimp only
        rw [if_pos hsome]
      rw [hrun] at hrest ⊢
      rw [if_pos hsome]
      dsimp only
      rw [String.append_empty]
      exact ih collected (hrest "" rfl)
    · by_cases hpwd : trim segment = "pwd"
      · have hrun : rt.runSegment e segment = (.ok rt.currentCwd, rt) := by
          unfold runSegment
          dsimp only
          rw [if_neg hsome, if_pos hpwd]
        have hcwd := (hsuits hsome).pwd hpwd
        rw [hrun] at hrest ⊢
        rw [if_neg hsome, if_pos hpwd, hcwd]
        exact ih _ (hrest rt.currentCwd rfl)
      · obtain ⟨hresult, hengine⟩ := same_of_suits e hsome hpwd (hsuits hsome)
        rw [if_neg hsome, if_neg hpwd]
        cases hrun : rt.runSegment e segment with
        | mk result rt' =>
          rw [hrun] at hrest hresult hengine
          cases heval : e.evalString rt.engine (trim segment) with
          | mk result' s =>
            rw [heval] at hresult hengine
            dsimp only at hresult hengine
            subst hresult
            cases result' with
            | ok output =>
              obtain rfl : s = rt'.engine := hengine output rfl
              exact ih _ (hrest output rfl)
            | error error => simp [forkOutput, Output.Same, eq_comm]

end Runtime

end ColossalCode.Nu
