import Mathlib.Data.Finset.Insert
import ConfigurationFabric.DistributorControl
import ConfigurationFabric.Library.Trimmed

/-! The text of a deployment plan: its parser and its canonical rendering. -/

namespace ConfigurationFabric

open LittleEndian

def kDeploymentPlanFormatVersion : ℕ := 1
def kMaxPlanBytes : ℕ := 4 * 1024 * 1024
def kMaxPlanLineBytes : ℕ := 4096
def kMaxPlanTargets : ℕ := 4096
def kMaxPlanSourcePathBytes : ℕ := 512

def DeploymentInstruction.empty : DeploymentInstruction where
  target := []
  configKey := []
  artifact := []
  revision := 0
  generation := 0
  schema := []
  schemaVersion := 0
  digest := .zero 32

namespace Plan

/-! Lines. -/

def blank (c : UInt8) : Bool := c == 32 || c == 9 || c == 13

def trim (text : Bytes) : Bytes := Trimmed.trim blank text

def parseUnsignedFrom (what : String) (text : Bytes) (value : ℕ) : Bytes → Result ℕ
  | [] => .ok value
  | c :: rest =>
    if c < 48 ∨ 57 < c then .fail .invalidArgument ("expected a decimal integer for " ++ what) (textString text)
    else
      match checkedMul value 10 with
      | none => .fail .arithmeticOverflow ("integer overflow in " ++ what)
      | some multiplied =>
        match checkedAdd multiplied (c - 48).toNat with
        | none => .fail .arithmeticOverflow ("integer overflow in " ++ what)
        | some added => parseUnsignedFrom what text added rest

def parseUnsigned (text : Bytes) (what : String) : Result ℕ :=
  if text = [] then .fail .missingField ("missing value for " ++ what)
  else parseUnsignedFrom what text 0 text

structure Line where
  number : ℕ
  text : Bytes

/-- The loop of `splitLines` over what stands between the line feeds. -/
def readLines (number : ℕ) : List Bytes → Result (List Line)
  | [] => .ok []
  | raw :: rest =>
    if raw.length > kMaxPlanLineBytes then
      .fail .limitExceeded "plan line exceeds the accepted length" (toString (number + 1))
    else if number + 1 > kMaxPlanTargets * 16 + 64 then
      .fail .limitExceeded "plan has more lines than the format permits"
    else do
      let lines ← readLines (number + 1) rest
      return ⟨number + 1, trim raw⟩ :: lines

def splitLines (text : Bytes) : Result (List Line) := readLines 0 (text.splitOn 10)

def atLine (line : ℕ) (detail : String) : String := "line " ++ toString line ++ ": " ++ detail

def reject {α : Type} (line : ℕ) (message detail : String) : Result α := .fail .malformedInput message (atLine line detail)

def keywordOf (line : Bytes) : Bytes := line.takeWhile (· ≠ 32)

def valueOf (line : Bytes) : Bytes := trim ((line.dropWhile (· ≠ 32)).drop 1)

/-! Fields of a target block. -/

/-- A field of a target block with the value that was read. -/
inductive Field
  | class (value : TargetClass)
  | guarantee (value : ApplyGuarantee)
  | configKey (value : ConfigKey)
  | artifact (value : ArtifactId)
  | revision (value : Revision)
  | generation (value : Generation)
  | schema (value : SchemaId)
  | schemaVersion (value : SchemaVersion)
  | digest (value : Digest)
  | size (value : ℕ)
  | requires (value : GuaranteeRequirement)
  | mediaType (value : Bytes)
  | producer (value : Bytes)
  | source (value : Bytes)
  | endpoint (value : Bytes)

def Field.assign : Field → DeploymentInstruction → DeploymentInstruction
  | .class value, i => { i with targetClass := value }
  | .guarantee value, i => { i with declaredGuarantee := value }
  | .configKey value, i => { i with configKey := value }
  | .artifact value, i => { i with artifact := value }
  | .revision value, i => { i with revision := value }
  | .generation value, i => { i with generation := value }
  | .schema value, i => { i with schema := value }
  | .schemaVersion value, i => { i with schemaVersion := value }
  | .digest value, i => { i with digest := value }
  | .size value, i => { i with sizeBytes := value }
  | .requires value, i => { i with requirement := value }
  | .mediaType value, i => { i with mediaType := value }
  | .producer value, i => { i with producer := value }
  | .source value, i => { i with sourcePath := value }
  | .endpoint value, i => { i with endpoint := value }

def readField (line : ℕ) (keyword value : Bytes) : Result Field :=
  if keyword = text "class" then
    match parseTargetClass value with
    | none => .fail .invalidArgument "unknown target class" (atLine line (textString value))
    | some v => .ok (.class v)
  else if keyword = text "guarantee" then
    match parseApplyGuarantee value with
    | none => .fail .invalidArgument "unknown apply guarantee" (atLine line (textString value))
    | some v => .ok (.guarantee v)
  else if keyword = text "config-key" then Field.configKey <$> parseConfigKey value
  else if keyword = text "artifact" then Field.artifact <$> parseArtifactId value
  else if keyword = text "revision" then Field.revision <$> parseUnsigned value "revision"
  else if keyword = text "generation" then Field.generation <$> parseUnsigned value "generation"
  else if keyword = text "schema" then Field.schema <$> parseSchemaId value
  else if keyword = text "schema-version" then do
    let parsed ← parseUnsigned value "schema-version"
    if parsed > 2 ^ 32 - 1 then .fail .outOfRange "schema-version is out of range" ("line " ++ toString line)
    else return .schemaVersion parsed
  else if keyword = text "digest" then Field.digest <$> Digest.parse value
  else if keyword = text "size" then Field.size <$> parseUnsigned value "size"
  else if keyword = text "requires" then
    match parseGuaranteeRequirement value with
    | none => .fail .invalidArgument "unknown guarantee requirement" (atLine line (textString value))
    | some v => .ok (.requires v)
  else if keyword = text "media-type" then
    if value = [] ∨ value.length > kMaxMediaTypeBytes then
      .fail .invalidArgument "media-type is empty or too long" ("line " ++ toString line)
    else .ok (.mediaType value)
  else if keyword = text "producer" then
    if value.length > kMaxProducerBytes then
      .fail .invalidArgument "producer is too long" ("line " ++ toString line)
    else .ok (.producer value)
  else if keyword = text "source" then
    if value = [] ∨ value.length > kMaxPlanSourcePathBytes then
      .fail .invalidArgument "source path is empty or too long" ("line " ++ toString line)
    else .ok (.source value)
  else if keyword = text "endpoint" then
    match parseEndpoint value with
    | .error e => .fail e.code "endpoint is not a dialable host:port pair" ("line " ++ toString line)
    | .ok endpoint =>
      if !endpoint.isSet then
        .fail .outOfRange "endpoint is not a dialable host:port pair" ("line " ++ toString line)
      else .ok (.endpoint value)
  else reject line "unknown keyword inside a target block" (textString keyword)

/-! The parser. -/

/-- The variables of the loop over the lines. -/
structure State where
  plan : DeploymentPlan := { setId := [], rolloutSet := [], instructions := [] }
  haveHeader : Bool := false
  haveSetId : Bool := false
  inTarget : Bool := false
  current : DeploymentInstruction := .empty
  seenFields : Finset Bytes := ∅
  seenTargets : Finset TargetId := ∅

def mandatory : List String :=
  ["class", "guarantee", "config-key", "artifact", "revision", "generation", "schema", "schema-version", "digest",
    "size", "requires", "target"]

def finishTarget (line : ℕ) (s : State) : Result State :=
  match mandatory.find? fun field => text field ∉ s.seenFields with
  | some field =>
    reject line "target block is missing a mandatory field" ("missing '" ++ field ++ "'")
  | none =>
    if s.current.sizeBytes = 0 then
      reject line "target block declares an empty artifact" "size must be greater than zero"
    else if !s.current.digest.isSet then
      reject line "target block declares the all-zero digest" "digest must be a real content digest"
    else if s.current.generation = 0 then
      reject line "target block declares generation 0" "generation 0 is reserved as the unset generation"
    else if s.current.target ∈ s.seenTargets then
      reject line "duplicate target in deployment set" (textString s.current.target)
    else
      .ok { s with
        seenTargets := insert s.current.target s.seenTargets
        plan := { s.plan with instructions := s.plan.instructions ++ [s.current] } }

def onHeader (line : ℕ) (keyword value : Bytes) (s : State) : Result State :=
  if keyword ≠ text "cf-plan" then
    .fail .malformedInput "deployment plan must start with a 'cf-plan <version>' line" ("line " ++ toString line)
  else do
    let version ← parseUnsigned value "plan format version"
    if version ≠ kDeploymentPlanFormatVersion then
      .fail .unsupportedVersion "deployment plan format version is not supported" (toString version)
    else return { s with haveHeader := true }

def onSetId (line : ℕ) (value : Bytes) (s : State) : Result State :=
  if s.inTarget then
    .fail .malformedInput "set-id must appear before the first target block" ("line " ++ toString line)
  else do
    let setId ← parseDeploymentSetId value
    return { s with plan := { s.plan with setId }, haveSetId := true }

def onRolloutSet (line : ℕ) (value : Bytes) (s : State) : Result State :=
  if s.inTarget then
    .fail .malformedInput "rollout-set must appear before the first target block" ("line " ++ toString line)
  else do
    let rolloutSet ← parseRolloutSetId value
    return { s with plan := { s.plan with rolloutSet } }

def beginTarget (line : ℕ) (value : Bytes) (s : State) : Result State :=
  if !s.haveSetId then
    .fail .malformedInput "deployment set id must be declared before targets" ("line " ++ toString line)
  else if s.plan.instructions.length ≥ kMaxPlanTargets then
    .fail .limitExceeded "deployment set exceeds the maximum target count" (toString kMaxPlanTargets)
  else if value = [] then
    .fail .missingField "target block is missing its target id" ("line " ++ toString line)
  else do
    let target ← parseTargetId value
    return { s with current := { DeploymentInstruction.empty with target }, seenFields := {text "target"}, inTarget := true }

-- a target line also ends the block before it
def onTarget (line : ℕ) (value : Bytes) (s : State) : Result State :=
  (if s.inTarget then finishTarget line s else .ok s) >>= beginTarget line value

def onEnd (line : ℕ) (s : State) : Result State :=
  if !s.inTarget then
    .fail .malformedInput "'end' without a matching target block" ("line " ++ toString line)
  else do
    let s ← finishTarget line s
    return { s with inTarget := false }

def onField (line : ℕ) (keyword value : Bytes) (s : State) : Result State :=
  if !s.inTarget then .fail .malformedInput "unknown plan keyword" (atLine line (textString keyword))
  else if keyword ∈ s.seenFields then
    .fail .alreadyExists "duplicate field in target block" (atLine line (textString keyword))
  else do
    let field ← readField line keyword value
    return { s with seenFields := insert keyword s.seenFields, current := field.assign s.current }

/-- One turn of the loop over the lines. -/
def step (s : State) (line : Line) : Result State :=
  if line.text = [] ∨ line.text.head? = some 35 then .ok s
  else
    let keyword := keywordOf line.text
    let value := valueOf line.text
    if !s.haveHeader then onHeader line.number keyword value s
    else if keyword = text "set-id" then onSetId line.number value s
    else if keyword = text "rollout-set" then onRolloutSet line.number value s
    else if keyword = text "target" then onTarget line.number value s
    else if keyword = text "end" then onEnd line.number s
    else onField line.number keyword value s

/-- What is checked after the last line. -/
def finish (sourceName : String) (s : State) : Result DeploymentPlan :=
  if !s.haveHeader then .fail .malformedInput "deployment plan is empty or has no header"
  else if s.inTarget then .fail .truncatedFrame "deployment plan ends inside a target block" sourceName
  else if !s.haveSetId then .fail .missingField "deployment plan does not declare a deployment set id"
  else if s.plan.instructions = [] then .fail .missingField "deployment plan declares no targets"
  else .ok s.plan

end Plan

open Plan

def parseDeploymentPlan (text : Bytes) (sourceName : String) : Result DeploymentPlan :=
  if text.length > kMaxPlanBytes then
    .fail .oversizePayload "deployment plan exceeds the accepted size" sourceName
  else do
    let lines ← splitLines text
    let s ← lines.foldlM step {}
    finish sourceName s

/-! Rendering. -/

namespace Plan

def line (words : String) (value : Bytes) : Bytes := text words ++ value ++ [10]

def renderInstruction (i : DeploymentInstruction) : Bytes :=
  line "target " i.target ++
  line "  class " (text (targetClassName i.targetClass)) ++
  line "  guarantee " (text (applyGuaranteeName i.declaredGuarantee)) ++
  line "  config-key " i.configKey ++
  line "  artifact " i.artifact ++
  line "  revision " (text (toString i.revision)) ++
  line "  generation " (text (toString i.generation)) ++
  line "  schema " i.schema ++
  line "  schema-version " (text (toString i.schemaVersion)) ++
  line "  digest " i.digest.hex ++
  line "  size " (text (toString i.sizeBytes)) ++
  line "  requires " (text (guaranteeRequirementName i.requirement)) ++
  line "  media-type " i.mediaType ++
  (if i.producer ≠ [] then line "  producer " i.producer else []) ++
  (if i.sourcePath ≠ [] then line "  source " i.sourcePath else []) ++
  (if i.endpoint ≠ [] then line "  endpoint " i.endpoint else []) ++
  text "end\n"

end Plan

def renderDeploymentPlan (plan : DeploymentPlan) : Bytes :=
  line "cf-plan " (text (toString kDeploymentPlanFormatVersion)) ++
  line "set-id " plan.setId ++
  (if plan.rolloutSet ≠ [] then line "rollout-set " plan.rolloutSet else []) ++
  plan.instructions.flatMap renderInstruction

end ConfigurationFabric
