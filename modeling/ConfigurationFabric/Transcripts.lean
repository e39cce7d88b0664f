import ConfigurationFabric.ConvergenceFingerprint
import ConfigurationFabric.DistributorPlans
import ConfigurationFabric.PlanValues

/-! The texts that deployments and streams are named by. -/

namespace ConfigurationFabric

open LittleEndian

variable {target target' : TargetId} {key key' : ConfigKey} {generation generation' : Generation}
  {digest digest' : Digest} {deployment deployment' : DeploymentId} {attempt attempt' : AttemptId}

def deploymentTranscript (target : TargetId) (key : ConfigKey) (generation : Generation) (digest : Digest) : Bytes :=
  text "CF-DEPLOY-V1|" ++ target ++ text "|" ++ key ++ text "|" ++ text (toString generation) ++ text "|" ++ digest.hex

def streamTranscript (deployment : DeploymentId) (attempt : AttemptId) : Bytes :=
  text "CF-STREAM-V1|" ++ deployment ++ text "|" ++ text (toString attempt)

theorem deriveDeploymentId_eq :
    deriveDeploymentId target key generation digest =
      toHex ((sha256 (deploymentTranscript target key generation digest)).take 16) := rfl

theorem deriveStreamId_eq :
    deriveStreamId deployment attempt = load ((sha256 (streamTranscript deployment attempt)).take 8) ||| 1 := rfl

theorem hex_injective : Function.Injective Digest.hex := by
  intro d d' h
  have hbytes : some d.1 = some d'.1 := by
    rw [← Plan.fromHex_toHex, ← Plan.fromHex_toHex]
    exact congrArg fromHex h
  exact Subtype.ext (Option.some.inj hbytes)

theorem unbarred_identifier {bytes : Bytes} (h : isValidIdentifier bytes = true) : 124 ∉ bytes :=
  fun hmem => (plain_of_identifier h hmem).2.2.2 rfl

theorem unbarred_digits (n : ℕ) : 124 ∉ Decimal.digits n :=
  fun hmem => (plain_digits hmem).1.2.2.2 rfl

theorem unbarred_hex (bytes : Bytes) : 124 ∉ toHex bytes :=
  fun hmem => (plain_of_byte (toHex_identifier hmem).1).2.2.2 rfl

theorem deploymentTranscript_eq :
    deploymentTranscript target key generation digest =
      [124].intercalate [text "CF-DEPLOY-V1", target, key, Decimal.digits generation, digest.hex] := by
  have hlabel : text "CF-DEPLOY-V1|" = text "CF-DEPLOY-V1" ++ [124] := by decide
  have hbar : text "|" = [124] := by decide
  rw [deploymentTranscript, hlabel, hbar, text_toString]
  simp [List.intercalate]

theorem streamTranscript_eq :
    streamTranscript deployment attempt =
      [124].intercalate [text "CF-STREAM-V1", deployment, Decimal.digits attempt] := by
  have hlabel : text "CF-STREAM-V1|" = text "CF-STREAM-V1" ++ [124] := by decide
  have hbar : text "|" = [124] := by decide
  rw [streamTranscript, hlabel, hbar, text_toString]
  simp [List.intercalate]

/-- The words of a transcript are what stands between its bars. -/
theorem deploymentTranscript_words (ht : isValidIdentifier target = true) (hk : isValidIdentifier key = true) :
    (deploymentTranscript target key generation digest).splitOn 124 =
      [text "CF-DEPLOY-V1", target, key, Decimal.digits generation, digest.hex] := by
  have hlabel : 124 ∉ text "CF-DEPLOY-V1" := by decide
  rw [deploymentTranscript_eq]
  refine List.splitOn_intercalate _ ?_ (List.cons_ne_nil _ _)
  intro word hword
  simp only [List.mem_cons, List.not_mem_nil, or_false] at hword
  obtain rfl | rfl | rfl | rfl | rfl := hword
  · exact hlabel
  · exact unbarred_identifier ht
  · exact unbarred_identifier hk
  · exact unbarred_digits generation
  · exact unbarred_hex digest.1

theorem streamTranscript_words (hd : isValidIdentifier deployment = true) :
    (streamTranscript deployment attempt).splitOn 124 =
      [text "CF-STREAM-V1", deployment, Decimal.digits attempt] := by
  have hlabel : 124 ∉ text "CF-STREAM-V1" := by decide
  rw [streamTranscript_eq]
  refine List.splitOn_intercalate _ ?_ (List.cons_ne_nil _ _)
  intro word hword
  simp only [List.mem_cons, List.not_mem_nil, or_false] at hword
  obtain rfl | rfl | rfl := hword
  · exact hlabel
  · exact unbarred_identifier hd
  · exact unbarred_digits attempt

theorem deploymentTranscript_inj (ht : isValidIdentifier target = true) (hk : isValidIdentifier key = true)
    (ht' : isValidIdentifier target' = true) (hk' : isValidIdentifier key' = true)
    (h : deploymentTranscript target key generation digest = deploymentTranscript target' key' generation' digest') :
    target = target' ∧ key = key' ∧ generation = generation' ∧ digest = digest' := by
  have hwords : (deploymentTranscript target key generation digest).splitOn 124 = _ := deploymentTranscript_words ht hk
  rw [h, deploymentTranscript_words ht' hk'] at hwords
  simp only [List.cons.injEq, and_true, true_and] at hwords
  obtain ⟨htarget, hkey, hgeneration, hdigest⟩ := hwords
  exact ⟨htarget.symm, hkey.symm, Decimal.digits_injective hgeneration.symm, hex_injective hdigest.symm⟩

theorem streamTranscript_inj (hd : isValidIdentifier deployment = true) (hd' : isValidIdentifier deployment' = true)
    (h : streamTranscript deployment attempt = streamTranscript deployment' attempt') :
    deployment = deployment' ∧ attempt = attempt' := by
  have hwords : (streamTranscript deployment attempt).splitOn 124 = _ := streamTranscript_words hd
  rw [h, streamTranscript_words hd'] at hwords
  simp only [List.cons.injEq, and_true, true_and] at hwords
  exact ⟨hwords.1.symm, Decimal.digits_injective hwords.2.symm⟩

/-- A deployment is never taken for a stream. -/
theorem deploymentTranscript_ne_streamTranscript (ht : isValidIdentifier target = true)
    (hk : isValidIdentifier key = true) (hd : isValidIdentifier deployment = true) :
    deploymentTranscript target key generation digest ≠ streamTranscript deployment attempt := by
  intro h
  have hwords : (deploymentTranscript target key generation digest).splitOn 124 = _ := deploymentTranscript_words ht hk
  rw [h, streamTranscript_words hd] at hwords
  exact absurd (congrArg List.length hwords) (by simp)

theorem hexDigit_ne_slash : ∀ n < 16, hexDigit (UInt8.ofNat n) ≠ 47 := by decide

theorem deriveDeploymentId_unslashed : 47 ∉ deriveDeploymentId target key generation digest := by
  intro hmem
  obtain ⟨n, hn, hslash⟩ := digit_of_mem_toHex hmem
  exact hexDigit_ne_slash n hn hslash.symm

theorem deriveStreamId_ne_zero : deriveStreamId deployment attempt ≠ 0 := by
  rw [deriveStreamId_eq]
  intro h
  exact absurd (Nat.or_eq_zero_iff.mp h).2 (by decide)

/-- Names of deployments and of streams are hashed from texts that tell their arguments apart. -/
theorem identity_transcripts_injective :
    (∀ target key generation digest target' key' generation' digest',
      isValidIdentifier target = true → isValidIdentifier key = true →
      isValidIdentifier target' = true → isValidIdentifier key' = true →
      (target, key, generation, digest) ≠ (target', key', generation', digest') →
      deploymentTranscript target key generation digest ≠ deploymentTranscript target' key' generation' digest') ∧
    (∀ deployment attempt deployment' attempt',
      isValidIdentifier deployment = true → isValidIdentifier deployment' = true →
      (deployment, attempt) ≠ (deployment', attempt') →
      streamTranscript deployment attempt ≠ streamTranscript deployment' attempt') ∧
    (∀ target key generation digest,
      deriveDeploymentId target key generation digest =
        toHex ((sha256 (deploymentTranscript target key generation digest)).take 16) ∧
      isValidIdentifier (deriveDeploymentId target key generation digest) = true ∧
      47 ∉ deriveDeploymentId target key generation digest) ∧
    ∀ deployment attempt,
      deriveStreamId deployment attempt = load ((sha256 (streamTranscript deployment attempt)).take 8) ||| 1 ∧
      deriveStreamId deployment attempt ≠ 0 := by
  refine ⟨?_, ?_, ?_, ?_⟩
  · intro target key generation digest target' key' generation' digest' ht hk ht' hk' hne h
    obtain ⟨rfl, rfl, rfl, rfl⟩ := deploymentTranscript_inj ht hk ht' hk' h
    exact hne rfl
  · intro deployment attempt deployment' attempt' hd hd' hne h
    obtain ⟨rfl, rfl⟩ := streamTranscript_inj hd hd' h
    exact hne rfl
  · intro target key generation digest
    exact ⟨deriveDeploymentId_eq, deriveDeploymentId_valid, deriveDeploymentId_unslashed⟩
  · intro deployment attempt
    exact ⟨deriveStreamId_eq, deriveStreamId_ne_zero⟩

theorem identity_transcripts_a_b :
    deploymentTranscript (text "a") (text "b") 1 (.zero 32) ≠ deploymentTranscript (text "a") (text "b") 11 (.zero 32) ∧
      streamTranscript (text "a") 1 ≠ streamTranscript (text "b") 1 := by
  obtain ⟨hdeployment, hstream, -⟩ := identity_transcripts_injective
  refine ⟨hdeployment _ _ _ _ _ _ _ _ ?_ ?_ ?_ ?_ ?_, hstream _ _ _ _ ?_ ?_ ?_⟩
  all_goals decide

end ConfigurationFabric
