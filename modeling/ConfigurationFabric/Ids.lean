import ConfigurationFabric.Errors
import ConfigurationFabric.Hash
import ConfigurationFabric.Library.Decimal
import ConfigurationFabric.Library.SortedMap

namespace ConfigurationFabric

open LittleEndian

/-- Byte strings of one length. -/
def FixedBytes (n : ℕ) := { bytes : Bytes // bytes.length = n }
  deriving DecidableEq

namespace FixedBytes

def zero (n : ℕ) : FixedBytes n := ⟨List.replicate n 0, by simp⟩

def fill (n : ℕ) (b : UInt8) : FixedBytes n := ⟨List.replicate n b, by simp⟩

instance (n : ℕ) : Inhabited (FixedBytes n) := ⟨zero n⟩

def isSet {n : ℕ} (b : FixedBytes n) : Bool := b.1.any (· ≠ 0)

instance (n : ℕ) : LT (FixedBytes n) := ⟨fun a b => a.1 < b.1⟩

instance (n : ℕ) : DecidableRel (fun a b : FixedBytes n => a < b) :=
  fun a b => inferInstanceAs (Decidable (a.1 < b.1))

end FixedBytes

abbrev Digest := FixedBytes 32
abbrev IncarnationId := FixedBytes 16
abbrev SessionNonce := FixedBytes 16

instance Digest.lawfulBEq : LawfulBEq Digest := inferInstance

theorem sha256State_bytes_length (s : Sha256State) : s.bytes.length = 32 := by
  simp [Sha256State.bytes]

def Sha256.digest (s : Sha256) : Digest := ⟨s.finish, sha256State_bytes_length _⟩

def Digest.ofContent (content : Bytes) : Digest := ⟨sha256 content, sha256State_bytes_length _⟩

theorem Sha256.digest_update (content : Bytes) : (({} : Sha256).update content).digest = .ofContent content := rfl

def Digest.hex (d : Digest) : Bytes := toHex d.1

def shortDigest (d : Digest) : Bytes := d.hex.take 12

abbrev TargetId := Bytes
abbrev ConfigKey := Bytes
abbrev ArtifactId := Bytes
abbrev DeploymentSetId := Bytes
abbrev DeploymentId := Bytes
abbrev NodeId := Bytes
abbrev SchemaId := Bytes
abbrev RolloutSetId := Bytes

abbrev Generation := ℕ
abbrev Epoch := ℕ
abbrev Revision := ℕ
abbrev AttemptId := ℕ
abbrev SchemaVersion := ℕ
abbrev StreamId := ℕ
abbrev Term := ℕ

def kMaxIdentifierLength : ℕ := 128
def kMaxMediaTypeBytes : ℕ := 64
def kMaxProducerBytes : ℕ := 128

def identifierByte (c : UInt8) : Bool :=
  (48 ≤ c && c ≤ 57) || (65 ≤ c && c ≤ 90) || (97 ≤ c && c ≤ 122) ||
    c == 46 || c == 95 || c == 45 || c == 58 || c == 47

def isValidIdentifier (text : Bytes) : Bool :=
  !text.isEmpty && decide (text.length ≤ kMaxIdentifierLength) && text.head? != some 45 &&
    text.all identifierByte

theorem hexDigit_identifier : ∀ n < 16, identifierByte (hexDigit (UInt8.ofNat n)) = true ∧
    hexDigit (UInt8.ofNat n) ≠ 45 := by
  decide

theorem digit_of_mem_toHex {bytes : Bytes} {c : UInt8} (hc : c ∈ toHex bytes) :
    ∃ n < 16, c = hexDigit (UInt8.ofNat n) := by
  have hlow (b : UInt8) : ∃ n < 16, hexDigit (b &&& 0x0F) = hexDigit (UInt8.ofNat n) := by
    refine ⟨(b &&& 0x0F).toNat, ?_, by rw [UInt8.ofNat_toNat]⟩
    rw [UInt8.toNat_and]
    exact Nat.lt_of_le_of_lt Nat.and_le_right (by decide)
  obtain ⟨b, -, hmem⟩ := List.mem_flatMap.mp hc
  obtain rfl | hmem := List.mem_cons.mp hmem
  · exact hlow _
  · rw [List.mem_singleton.mp hmem]
    exact hlow _

theorem toHex_identifier {bytes : Bytes} {c : UInt8} (hc : c ∈ toHex bytes) : identifierByte c = true ∧ c ≠ 45 := by
  obtain ⟨n, hn, rfl⟩ := digit_of_mem_toHex hc
  exact hexDigit_identifier n hn

theorem toHex_length (bytes : Bytes) : (toHex bytes).length = 2 * bytes.length := by
  induction bytes with
  | nil => rfl
  | cons b rest ih =>
    change (_ :: _ :: toHex rest).length = _
    rw [List.length_cons, List.length_cons, ih, List.length_cons]
    omega

theorem Digest.length_hex (d : Digest) : d.hex.length = 64 := by
  rw [Digest.hex, toHex_length, d.2]

/-- The bytes of a string literal or of a printed number. -/
def text (s : String) : Bytes := s.toList.map fun c => UInt8.ofNat c.toNat

theorem text_toString (n : ℕ) : text (toString n) = Decimal.digits n := by
  rw [text, Nat.toString_eq_ofList_toDigits, String.toList_ofList]
  rfl

def textString (bytes : Bytes) : String := String.ofList (bytes.map fun b => Char.ofNat b.toNat)

def Digest.parse (hex : Bytes) : Result Digest :=
  if hex.length ≠ 64 then .fail .malformedInput "digest must be exactly 64 hexadecimal characters"
  else
    match fromHex hex with
    | none => .fail .malformedInput "digest contains non-hexadecimal characters" (textString hex)
    | some bytes =>
      -- two digits make a byte, so the length is always this one
      if h : bytes.length = 32 then .ok ⟨bytes, h⟩
      else .fail .malformedInput "digest contains non-hexadecimal characters" (textString hex)

def parseId (what : String) (bytes : Bytes) : Result Bytes :=
  if bytes.isEmpty then .fail .missingField (what ++ " must not be empty")
  else if isValidIdentifier bytes = false then
    .fail .invalidArgument (what ++ " is not a valid identifier") (textString bytes)
  else .ok bytes

def parseTargetId : Bytes → Result TargetId := parseId "target id"
def parseConfigKey : Bytes → Result ConfigKey := parseId "config key"
def parseArtifactId : Bytes → Result ArtifactId := parseId "artifact id"
def parseDeploymentSetId : Bytes → Result DeploymentSetId := parseId "deployment set id"
def parseDeploymentId : Bytes → Result DeploymentId := parseId "deployment id"
def parseNodeId : Bytes → Result NodeId := parseId "node id"
def parseSchemaId : Bytes → Result SchemaId := parseId "schema id"
def parseRolloutSetId : Bytes → Result RolloutSetId := parseId "rollout set id"

inductive TargetClass
  | unspecified | networkDevice | controlPlaneParticipant
  deriving DecidableEq, Repr

def TargetClass.value : TargetClass → ℕ
  | .unspecified => 0 | .networkDevice => 1 | .controlPlaneParticipant => 2

def TargetClass.ofValue : ℕ → Option TargetClass
  | 0 => some .unspecified | 1 => some .networkDevice | 2 => some .controlPlaneParticipant
  | _ => none

inductive ApplyGuarantee
  | atomicActivate | prepareCommitAbort
  deriving DecidableEq, Repr

def ApplyGuarantee.value : ApplyGuarantee → ℕ
  | .atomicActivate => 1 | .prepareCommitAbort => 2

def ApplyGuarantee.ofValue : ℕ → Option ApplyGuarantee
  | 1 => some .atomicActivate | 2 => some .prepareCommitAbort
  | _ => none

inductive GuaranteeRequirement
  | requireAtomic | allowPrepareCommit
  deriving DecidableEq, Repr

def GuaranteeRequirement.value : GuaranteeRequirement → ℕ
  | .requireAtomic => 1 | .allowPrepareCommit => 2

def GuaranteeRequirement.ofValue : ℕ → Option GuaranteeRequirement
  | 1 => some .requireAtomic | 2 => some .allowPrepareCommit
  | _ => none

def guaranteeSatisfies (offered : ApplyGuarantee) (required : GuaranteeRequirement) : Bool :=
  match required with
  | .requireAtomic => offered == .atomicActivate
  | .allowPrepareCommit => offered == .atomicActivate || offered == .prepareCommitAbort

def targetClassName : TargetClass → String
  | .unspecified => "unspecified"
  | .networkDevice => "network-device"
  | .controlPlaneParticipant => "control-plane-participant"

def parseTargetClass (bytes : Bytes) : Option TargetClass :=
  if bytes = text "network-device" then some .networkDevice
  else if bytes = text "control-plane-participant" then some .controlPlaneParticipant
  else if bytes = text "unspecified" then some .unspecified
  else none

def applyGuaranteeName : ApplyGuarantee → String
  | .atomicActivate => "atomic-activate"
  | .prepareCommitAbort => "prepare-commit-abort"

def parseApplyGuarantee (bytes : Bytes) : Option ApplyGuarantee :=
  if bytes = text "atomic-activate" then some .atomicActivate
  else if bytes = text "prepare-commit-abort" then some .prepareCommitAbort
  else none

def guaranteeRequirementName : GuaranteeRequirement → String
  | .requireAtomic => "require-atomic"
  | .allowPrepareCommit => "allow-prepare-commit"

def parseGuaranteeRequirement (bytes : Bytes) : Option GuaranteeRequirement :=
  if bytes = text "require-atomic" then some .requireAtomic
  else if bytes = text "allow-prepare-commit" then some .allowPrepareCommit
  else none

def deriveDeploymentId (target : TargetId) (key : ConfigKey) (generation : Generation) (digest : Digest) :
    DeploymentId :=
  toHex ((sha256 (text "CF-DEPLOY-V1|" ++ target ++ text "|" ++ key ++ text "|" ++
    text (toString generation) ++ text "|" ++ digest.hex)).take 16)

def deriveStreamId (deployment : DeploymentId) (attempt : AttemptId) : StreamId :=
  load ((sha256 (text "CF-STREAM-V1|" ++ deployment ++ text "|" ++ text (toString attempt))).take 8) ||| 1

end ConfigurationFabric
