import ColossalCode.Protocol.Text

/-! Specification sheets and task summaries. Wall-clock fields (`created_at`, `completed_at`,
feedback timestamps) are written and never read by the modelled code and are left out. -/
namespace ColossalCode.Protocol

/-- A JSON value; a number is kept as its literal text. -/
inductive Value where
  | null
  | bool (b : Bool)
  | number (literal : String)
  | string (s : String)
  | array (items : List Value)
  | object (fields : List (String × Value))
  deriving Inhabited, Repr

/-- `Value::get` with a string key. -/
def Value.get (key : String) : Value → Option Value
  | .object fields => fields.lookup key
  | _ => none

def Value.asStr : Value → Option String
  | .string s => some s
  | _ => none

def Value.asArray : Value → Option (List Value)
  | .array items => some items
  | _ => none

def Value.isNull : Value → Bool
  | .null => true
  | _ => false

inductive StepStatus where
  | pending
  | inProgress
  | completed
  | failed
  deriving DecidableEq, Repr, Inhabited

/-- `SpecSheet` over its type of steps, so that a step may hold a sheet again. -/
structure SheetOf (σ : Type) where
  id : String
  title : String
  description : String
  steps : List σ
  createdBy : String
  metadata : Value
  deriving Inhabited, Repr

structure SpecStep where
  index : String
  title : String
  instructions : String
  acceptanceCriteria : List String
  requiredTools : List String
  constraints : List String
  dependencies : List String
  isParallel : Bool
  requiresVerification : Bool
  maxParallelism : Option Nat
  status : StepStatus
  subSpec : Option (SheetOf SpecStep)
  deriving Inhabited

abbrev SpecSheet := SheetOf SpecStep

inductive SpecValidationError where
  | emptySteps
  | invalidIndex (expected found : String)
  | unknownDependency (step dependency : String)
  | invalidParallelism (step : String) (value : Nat)
  deriving DecidableEq, Repr

/-- The second loop of `validate`: the first dependency that names no step of the sheet. -/
def checkDependencies (known : List String) : List SpecStep → Except SpecValidationError Unit
  | [] => .ok ()
  | step :: rest =>
    match step.dependencies.find? fun d => !known.contains d with
    | some d => .error (.unknownDependency step.index d)
    | none => checkDependencies known rest

mutual

/-- `SpecSheet::validate`. -/
def validate : SpecSheet → Except SpecValidationError Unit
  | ⟨_, _, _, steps, _, _⟩ => do
    if steps.isEmpty then throw .emptySteps
    validateSteps 0 steps
    checkDependencies (steps.map (·.index)) steps

/-- The first loop of `validate`, from position `idx` on. -/
def validateSteps (idx : Nat) : List SpecStep → Except SpecValidationError Unit
  | [] => .ok ()
  | step :: rest => do
    validateStep idx step
    validateSteps (idx + 1) rest

def validateStep (idx : Nat) : SpecStep → Except SpecValidationError Unit
  | ⟨index, _, _, _, _, _, _, _, _, maxParallelism, _, subSpec⟩ => do
    if index ≠ toString (idx + 1) then throw (.invalidIndex (toString (idx + 1)) index)
    if maxParallelism = some 0 then throw (.invalidParallelism index 0)
    match subSpec with
    | some sub => validate sub
    | none => .ok ()

end

/-- A step of an accepted sheet has a number for its index, and an accepted sub-spec if any. -/
structure SpecStep.Accepted (step : SpecStep) : Prop where
  index_eq : ∃ i, step.index = toString (i + 1)
  subSpec : ∀ child, step.subSpec = some child → validate child = .ok ()

theorem accepted_of_validateStep {idx : ℕ} {step : SpecStep} (h : validateStep idx step = .ok ()) :
    step.Accepted := by
  cases step with
  | mk index _ _ _ _ _ _ _ _ maxParallelism _ subSpec =>
  unfold validateStep at h
  by_cases hindex : index = toString (idx + 1)
  · rw [if_neg (not_not_intro hindex)] at h
    by_cases hmax : maxParallelism = some 0
    · rw [if_pos hmax] at h
      cases h
    · rw [if_neg hmax] at h
      refine ⟨⟨idx, hindex⟩, ?_⟩
      rintro child rfl
      exact h
  · rw [if_pos hindex] at h
    cases h

theorem accepted_of_validateSteps {steps : List SpecStep} :
    ∀ {idx : ℕ}, validateSteps idx steps = .ok () → ∀ step ∈ steps, step.Accepted := by
  induction steps with
  | nil => simp
  | cons first rest ih =>
    intro idx h step hstep
    unfold validateSteps at h
    cases hfirst : validateStep idx first with
    | error err =>
      rw [hfirst] at h
      cases h
    | ok =>
      rw [hfirst] at h
      rcases List.mem_cons.mp hstep with rfl | hstep
      · exact accepted_of_validateStep hfirst
      · exact ih h step hstep

theorem accepted_of_validate {spec : SpecSheet} (h : validate spec = .ok ()) :
    spec.steps ≠ [] ∧ ∀ step ∈ spec.steps, step.Accepted := by
  cases spec with
  | mk id title description steps createdBy metadata =>
  unfold validate at h
  cases hempty : steps.isEmpty with
  | true =>
    rw [if_pos hempty] at h
    cases h
  | false =>
    rw [if_neg (by simp [hempty])] at h
    refine ⟨by simpa using hempty, ?_⟩
    cases hsteps : validateSteps 0 steps with
    | error err =>
      simp only [hsteps] at h
      cases h
    | ok => exact accepted_of_validateSteps hsteps

inductive VerificationStatus where
  | pending
  | passed
  | failed
  deriving DecidableEq, Repr

structure FeedbackEntry where
  author : String
  message : String
  deriving DecidableEq, Repr

structure TaskVerification where
  status : VerificationStatus
  feedback : List FeedbackEntry
  deriving DecidableEq, Repr

inductive TestResult where
  | pass
  | fail
  | skip
  | error
  deriving DecidableEq, Repr

structure TestRun where
  name : String
  result : TestResult
  logsPath : Option String
  durationMs : Option Nat
  deriving DecidableEq, Repr

structure WorktreeMetadata where
  branch : String
  path : String
  stepPrefix : Option String
  deriving DecidableEq, Repr

structure TaskSummary where
  taskId : String
  stepIndex : String
  summaryText : String
  artifactsTouched : List String
  testsRun : List TestRun
  verification : TaskVerification
  worktree : Option WorktreeMetadata
  deriving DecidableEq, Repr

end ColossalCode.Protocol

/-! Tasks as agents hand them back, and the metadata an orchestrator reads from them. -/
namespace ColossalCode.Protocol

inductive TaskState where
  | submitted
  | working
  | inputRequired
  | completed
  | failed
  | cancelled
  | rejected
  | authRequired
  deriving DecidableEq, Repr

structure TaskStatus where
  state : TaskState
  message : Option String

/-- `extra` is the source's ordered map from keys to values. -/
structure TaskMetadata where
  specSheet : Option Value
  summary : Option Value
  extra : List (String × Value)

structure Task where
  id : String
  contextId : Option String
  status : TaskStatus
  metadata : Option TaskMetadata

structure VerificationToolPayload where
  status : String
  feedback : Option String
  endConvo : Bool
  deriving DecidableEq, Repr

/-- What the code takes from outside the repository: the serde decoders and encoders of its
types, and the workspace directory of the process. -/
structure Runtime where
  workspaceRoot : String
  specSheetOfValue : Value → Option SpecSheet
  summaryOfValue : Value → Option TaskSummary
  valueOfSummary : TaskSummary → Except String Value
  payloadOfJson : String → Option VerificationToolPayload
  payloadOfYaml : String → Option VerificationToolPayload

/-- `Orchestrator::extract_summary`. -/
def extractSummary (rt : Runtime) (task : Task) : Except String TaskSummary :=
  match task.metadata with
  | none => .error s!"task {task.id} missing metadata"
  | some metadata =>
    match metadata.summary with
    | none => .error s!"task {task.id} missing summary metadata"
    | some value =>
      match rt.summaryOfValue value with
      | none => .error "failed to deserialize task summary"
      | some summary => .ok summary

/-- `Orchestrator::extract_sub_spec`. -/
def extractSubSpec (rt : Runtime) (task : Task) : Except String (Option SpecSheet) :=
  match task.metadata.bind (·.specSheet) with
  | none => .ok none
  | some value =>
    match rt.specSheetOfValue value with
    | none => .error "failed to deserialize nested spec"
    | some spec => .ok (some spec)

/-- The tool log of a task, when its metadata has one that is an array. -/
def toolLog (task : Task) : Option (List Value) :=
  task.metadata.bind fun metadata => (metadata.extra.lookup "toolLog").bind Value.asArray

/-- `arguments` of a tool log entry, `{}` when it is missing or no string. -/
def entryArguments (entry : Value) : String :=
  ((entry.get "arguments").bind Value.asStr).getD "{}"

def formatToolLog (task : Task) : String :=
  let lines := ((toolLog task).getD []).filterMap fun entry =>
    ((entry.get "name").bind Value.asStr).map fun name => s!"- {name} {entryArguments entry}"
  let text := Text.join "\n" lines
  if text.isEmpty then "(no tool calls recorded)" else text

end ColossalCode.Protocol
