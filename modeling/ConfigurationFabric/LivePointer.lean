import ConfigurationFabric.Agent
import ConfigurationFabric.ConvergenceFingerprint
import ConfigurationFabric.PlanValues

/-! The text of a live pointer, and the decimal loops. -/

namespace ConfigurationFabric

open LittleEndian

def kMaxLiveValueBytes : ℕ := 512

def pointerText (generation : Generation) (digest : Digest) (artifact : ArtifactId) : Bytes :=
  text (toString generation) ++ [32] ++ digest.hex ++ [32] ++ artifact ++ [10]

/-- The first space from a place on. -/
def findSpace (text : Bytes) (start : ℕ) : Option ℕ := ((text.drop start).findIdx? (· == 32)).map (· + start)

def pointerBlank (c : UInt8) : Bool := c == 10 || c == 13 || c == 32

/-- The loop over the digits of the generation. -/
def parsePointerGeneration (generation : ℕ) : Bytes → Result ℕ
  | [] => .ok generation
  | c :: rest =>
    if c < 48 ∨ 57 < c then .fail .malformedInput "live pointer generation is not a decimal integer"
    else
      match checkedMul generation 10 with
      | none => .fail .arithmeticOverflow "live pointer generation overflowed"
      | some multiplied =>
        match checkedAdd multiplied (c - 48).toNat with
        | none => .fail .arithmeticOverflow "live pointer generation overflowed"
        | some next => parsePointerGeneration next rest

def parsePointerArtifact (text : Bytes) : Result ArtifactId := if text = [] then .ok [] else parseArtifactId text

def parsePointer (text : Bytes) : Result PointerValue :=
  match findSpace text 0 with
  | none => .fail .malformedInput "live pointer is malformed"
  | some firstSpace =>
    match findSpace text (firstSpace + 1) with
    | none => .fail .malformedInput "live pointer is malformed"
    | some secondSpace => do
      let generationText := text.take firstSpace
      let digestText := (text.drop (firstSpace + 1)).take (secondSpace - firstSpace - 1)
      let artifactText := (text.drop (secondSpace + 1)).rdropWhile pointerBlank
      let generation ← parsePointerGeneration 0 generationText
      let digest ← Digest.parse digestText
      let artifact ← parsePointerArtifact artifactText
      return ⟨generation, digest, artifact⟩

/-- What the calls on one file answer: its size, whether it can be opened, and what its stream holds. -/
structure FileRead where
  size : Option ℕ
  opens : Bool
  stream : Bytes

def readFileBounded (file : FileRead) (path : String) (maxBytes : ℕ) : Result Bytes :=
  match file.size with
  | none => .fail .notFound "cannot stat file" path
  | some size =>
    if size > maxBytes then .fail .oversizePayload "file exceeds the accepted bound" path
    else if file.opens = false then .fail .openFailed "cannot open file" path
    else
      let content := file.stream.take size
      if content.length ≠ size then .fail .ioFailure "short read while loading file" path
      else if content.length < file.stream.length then .fail .ioFailure "file grew while it was being read" path
      else .ok content

def readLiveValue (file : FileRead) (path : String) : Result Bytes := readFileBounded file path kMaxLiveValueBytes

/-- A file that does not change while it is read. -/
def FileRead.whole (content : Bytes) : FileRead := ⟨some content.length, true, content⟩

variable {generation : Generation} {digest : Digest} {artifact : ArtifactId}

theorem readFileBounded_whole (content : Bytes) (path : String) (maxBytes : ℕ) :
    readFileBounded (.whole content) path maxBytes = .ok content ↔ content.length ≤ maxBytes := by
  unfold readFileBounded FileRead.whole
  simp only [List.take_length, ne_eq, not_true_eq_false, lt_irrefl, if_false, Bool.true_eq_false]
  split
  case isTrue hlarge =>
    refine iff_of_false (fun h => nomatch h) ?_
    omega
  case isFalse hsmall => exact iff_of_true rfl (by omega)

/-! The decimal loops. -/

/-- Both loops take the same digits; they differ in their errors. -/
theorem parsePointerGeneration_toOption (what : String) (word : Bytes) (value : ℕ) (digits : Bytes) :
    (parsePointerGeneration value digits).toOption = (Plan.parseUnsignedFrom what word value digits).toOption := by
  induction digits generalizing value with
  | nil => rfl
  | cons c rest ih =>
    unfold parsePointerGeneration Plan.parseUnsignedFrom
    by_cases hdigit : c < 48 ∨ 57 < c
    · rw [if_pos hdigit, if_pos hdigit]
      rfl
    · rw [if_neg hdigit, if_neg hdigit]
      cases checkedMul value 10 with
      | none => rfl
      | some multiplied =>
        cases hadd : checkedAdd multiplied (c - 48).toNat with
        | none => simp only [hadd]; rfl
        | some next => simpa only [hadd] using ih next

theorem parsePointerGeneration_ok {value n : ℕ} {digits : Bytes} (hvalue : value < 2 ^ 64) :
    parsePointerGeneration value digits = .ok n ↔
      (∀ c ∈ digits, Decimal.IsDigit c) ∧ Decimal.value value digits = n ∧ n < 2 ^ 64 := by
  have htoOption : ∀ r : Result ℕ, r = .ok n ↔ r.toOption = some n := by
    intro r
    cases r <;> simp [Except.toOption]
  rw [htoOption, parsePointerGeneration_toOption "" [], ← htoOption]
  exact Plan.parseUnsignedFrom_ok hvalue

/-- A number of digits is read as its value, if that has 64 bits, and by the plan as by the agent. -/
theorem decimal_loops {digits : Bytes} (hne : digits ≠ []) (hdigits : ∀ c ∈ digits, Decimal.IsDigit c) (n : ℕ)
    (what : String) :
    (parsePointerGeneration 0 digits = .ok n ↔ Decimal.value 0 digits = n ∧ n < 2 ^ 64) ∧
      (Plan.parseUnsigned digits what = .ok n ↔ Decimal.value 0 digits = n ∧ n < 2 ^ 64) := by
  constructor
  · rw [parsePointerGeneration_ok (by decide), and_iff_right hdigits]
  · rw [Plan.parseUnsigned, if_neg hne, Plan.parseUnsignedFrom_ok (by decide), and_iff_right hdigits]

/-! The fields of the text. -/

theorem findSpace_word (front : Bytes) {word : Bytes} (hword : 32 ∉ word) (rest : Bytes) :
    findSpace (front ++ (word ++ 32 :: rest)) front.length = some (front.length + word.length) := by
  have hnone : word.findIdx? (· == 32) = none := by
    rw [List.findIdx?_eq_none_iff]
    intro c hc
    rw [beq_eq_false_iff_ne]
    rintro rfl
    exact hword hc
  rw [findSpace, List.drop_left, List.findIdx?_append, hnone, List.findIdx?_cons]
  simp [Nat.add_comm]

/-- The text is split at its first two spaces; what follows them keeps the spaces it has inside. -/
theorem parsePointer_fields {generationText digestText : Bytes} (hgeneration : 32 ∉ generationText)
    (hdigest : 32 ∉ digestText) (tail : Bytes) :
    parsePointer (generationText ++ 32 :: (digestText ++ 32 :: tail)) = do
      let generation ← parsePointerGeneration 0 generationText
      let digest ← Digest.parse digestText
      let artifact ← parsePointerArtifact (tail.rdropWhile pointerBlank)
      return ⟨generation, digest, artifact⟩ := by
  have hfirst := findSpace_word [] hgeneration (digestText ++ 32 :: tail)
  rw [List.nil_append, List.length_nil, Nat.zero_add] at hfirst
  have hfront : generationText ++ 32 :: (digestText ++ 32 :: tail) =
      (generationText ++ [32]) ++ (digestText ++ 32 :: tail) := by simp
  have hlength : (generationText ++ [32]).length = generationText.length + 1 := List.length_append
  have hsecond := findSpace_word (generationText ++ [32]) hdigest tail
  rw [← hfront, hlength] at hsecond
  have hdrop : (generationText ++ 32 :: (digestText ++ 32 :: tail)).drop (generationText.length + 1) =
      digestText ++ 32 :: tail := by rw [hfront, List.drop_left' hlength]
  have hcount : generationText.length + 1 + digestText.length - generationText.length - 1 = digestText.length := by
    omega
  have htail : (generationText ++ 32 :: (digestText ++ 32 :: tail)).drop
      (generationText.length + 1 + digestText.length + 1) = tail := by
    rw [Nat.add_assoc _ digestText.length, ← List.drop_drop, hdrop, ← List.drop_drop, List.drop_left]
    rfl
  rw [parsePointer, hfirst]
  dsimp only
  rw [hsecond]
  dsimp only
  rw [hdrop, hcount, htail, List.take_left, List.take_left]

theorem unspaced_digits (n : ℕ) : 32 ∉ Decimal.digits n :=
  fun hmem => (plain_digits hmem).1.1 rfl

theorem unspaced_hex (d : Digest) : 32 ∉ d.hex :=
  fun hmem => (plain_of_byte (toHex_identifier hmem).1).1 rfl

theorem pointerBlank_identifierByte {c : UInt8} (hc : identifierByte c = true) : pointerBlank c = false := by
  rw [Bool.eq_false_iff]
  intro hblank
  simp only [pointerBlank, Bool.or_eq_true, beq_iff_eq] at hblank
  obtain (rfl | rfl) | rfl := hblank <;> cases hc

/-- No blank at the end of an artifact id is its own. -/
theorem rdropWhile_artifact (ha : artifact = [] ∨ isValidIdentifier artifact = true) :
    (artifact ++ [10]).rdropWhile pointerBlank = artifact := by
  rw [Trimmed.rdropWhile_append (by decide +kernel), List.rdropWhile_eq_self_iff]
  intro hne
  obtain rfl | hvalid := ha
  · exact absurd rfl hne
  · simp only [isValidIdentifier, Bool.and_eq_true, List.all_eq_true] at hvalid
    rw [pointerBlank_identifierByte (hvalid.2 _ (List.getLast_mem hne))]
    exact Bool.false_ne_true

theorem pointerText_eq : pointerText generation digest artifact =
    Decimal.digits generation ++ 32 :: (digest.hex ++ 32 :: (artifact ++ [10])) := by
  rw [pointerText, text_toString]
  simp

theorem length_pointerText_le (hg : generation < 2 ^ 64) (ha : artifact = [] ∨ isValidIdentifier artifact = true) :
    (pointerText generation digest artifact).length ≤ kMaxLiveValueBytes := by
  have hdigits : (Decimal.digits generation).length ≤ 20 :=
    Decimal.length_digits_le (by decide) (hg.trans (by decide))
  have hartifact : artifact.length ≤ kMaxIdentifierLength := by
    obtain rfl | hvalid := ha
    · decide
    · simp only [isValidIdentifier, Bool.and_eq_true, decide_eq_true_eq] at hvalid
      exact hvalid.1.1.2
  have hhex := digest.length_hex
  rw [pointerText_eq]
  simp only [List.length_append, List.length_cons, List.length_nil]
  unfold kMaxIdentifierLength at hartifact
  unfold kMaxLiveValueBytes
  omega

theorem parsePointer_pointerText (hg : generation < 2 ^ 64) (ha : artifact = [] ∨ isValidIdentifier artifact = true) :
    parsePointer (pointerText generation digest artifact) = .ok ⟨generation, digest, artifact⟩ := by
  have hgeneration : parsePointerGeneration 0 (Decimal.digits generation) = .ok generation :=
    (parsePointerGeneration_ok (by decide)).mpr ⟨fun c hc => Decimal.isDigit_of_mem hc, Decimal.value_digits, hg⟩
  have hartifact : parsePointerArtifact artifact = .ok artifact := by
    unfold parsePointerArtifact
    by_cases hempty : artifact = []
    · rw [if_pos hempty, hempty]
    · rw [if_neg hempty]
      exact (parseId_ok_iff _ _ _).mpr ⟨rfl, ha.resolve_left hempty⟩
  rw [pointerText_eq, parsePointer_fields (unspaced_digits _) (unspaced_hex _), rdropWhile_artifact ha, hgeneration,
    Plan.parse_hex, hartifact]
  rfl

/-- What the agent keeps of a file of its live tree. -/
def LiveValue.ofText (content : Bytes) : LiveValue :=
  match parsePointer content with
  | .ok value => .pointer value
  | .error _ => .unreadable

theorem LiveValue.ofText_pointerText (hg : generation < 2 ^ 64)
    (ha : artifact = [] ∨ isValidIdentifier artifact = true) :
    LiveValue.ofText (pointerText generation digest artifact) = .pointer ⟨generation, digest, artifact⟩ := by
  rw [LiveValue.ofText, parsePointer_pointerText hg ha]

/-- A pointer that was written is short enough to be read, and is read back; numbers are read up to the last of 64 bits. -/
theorem pointer_round_trip :
    (∀ (generation : Generation) (digest : Digest) (artifact : ArtifactId) (path : String), generation < 2 ^ 64 →
      (artifact = [] ∨ isValidIdentifier artifact = true) →
      parsePointer (pointerText generation digest artifact) = .ok ⟨generation, digest, artifact⟩ ∧
        (pointerText generation digest artifact).length ≤ kMaxLiveValueBytes ∧
        readLiveValue (.whole (pointerText generation digest artifact)) path =
          .ok (pointerText generation digest artifact)) ∧
    ∀ (digits : Bytes) (what : String), digits ≠ [] → (∀ c ∈ digits, Decimal.IsDigit c) →
      ((∃ n, parsePointerGeneration 0 digits = .ok n) ↔ Decimal.value 0 digits < 2 ^ 64) ∧
      ((∃ n, Plan.parseUnsigned digits what = .ok n) ↔ Decimal.value 0 digits < 2 ^ 64) ∧
      ∀ n, (parsePointerGeneration 0 digits = .ok n ∨ Plan.parseUnsigned digits what = .ok n) →
        n = Decimal.value 0 digits := by
  constructor
  · intro generation digest artifact path hg ha
    have hlength : (pointerText generation digest artifact).length ≤ kMaxLiveValueBytes := length_pointerText_le hg ha
    exact ⟨parsePointer_pointerText hg ha, hlength, (readFileBounded_whole _ _ _).mpr hlength⟩
  · intro digits what hne hdigits
    have hloops (n : ℕ) := decimal_loops hne hdigits n what
    refine ⟨?_, ?_, ?_⟩
    · constructor
      · rintro ⟨n, hn⟩
        obtain ⟨rfl, hlt⟩ := (hloops n).1.mp hn
        exact hlt
      · exact fun hlt => ⟨_, (hloops _).1.mpr ⟨rfl, hlt⟩⟩
    · constructor
      · rintro ⟨n, hn⟩
        obtain ⟨rfl, hlt⟩ := (hloops n).2.mp hn
        exact hlt
      · exact fun hlt => ⟨_, (hloops _).2.mpr ⟨rfl, hlt⟩⟩
    · rintro n (hn | hn)
      · exact ((hloops n).1.mp hn).1.symm
      · exact ((hloops n).2.mp hn).1.symm

theorem pointer_round_trip_last :
    parsePointer (pointerText (2 ^ 64 - 1) (.zero 32) []) = .ok ⟨2 ^ 64 - 1, .zero 32, []⟩ ∧
      ∃ n, Plan.parseUnsigned [52, 50] "revision" = .ok n := by
  obtain ⟨hpointer, hloops⟩ := pointer_round_trip
  exact ⟨(hpointer _ _ _ "current" (by norm_num) (.inl rfl)).1,
    (hloops [52, 50] "revision" (by decide) (by decide +kernel)).2.1.mpr (by decide)⟩

end ConfigurationFabric
