import ConfigurationFabric.Ids

namespace ConfigurationFabric

open LittleEndian

def kAbsoluteMaxFieldBytes : ℕ := 2 ^ 20

/-- A reader takes fields off the front of the bytes it has left. -/
abbrev ByteReader := StateT Bytes (Except Error)

namespace ByteReader

def fail {α : Type} (code : ErrorCode) (message : String) (detail : String := "") : ByteReader α :=
  throw ⟨code, message, detail⟩

def need (count : ℕ) : ByteReader Unit := fun bs =>
  if count > bs.length then .error ⟨.truncatedFrame, "record ended before the declared field count", ""⟩
  else .ok ((), bs)

def fixed (count : ℕ) : ByteReader Bytes := do
  need count
  modifyGet fun bs => (bs.take count, bs.drop count)

def fixedBytes (n : ℕ) : ByteReader (FixedBytes n) := fun bs =>
  if h : n ≤ bs.length then .ok (⟨bs.take n, by simp [h]⟩, bs.drop n)
  else .error ⟨.truncatedFrame, "record ended before the declared field count", ""⟩

def unsigned (width : ℕ) : ByteReader ℕ := do
  return load (← fixed width)

def u8 : ByteReader ℕ := unsigned 1
def u16 : ByteReader ℕ := unsigned 2
def u32 : ByteReader ℕ := unsigned 4
def u64 : ByteReader ℕ := unsigned 8

def i64 : ByteReader ℤ := do
  let raw ← u64
  return if raw < 2 ^ 63 then raw else (raw : ℤ) - 2 ^ 64

def boolean : ByteReader Bool := do
  let raw ← u8
  if raw > 1 then fail .malformedInput "boolean field is not 0 or 1"
  return raw == 1

def string (maxBytes : ℕ) : ByteReader Bytes := do
  let length ← u32
  if length > maxBytes ∨ length > kAbsoluteMaxFieldBytes then
    fail .oversizePayload "declared string length exceeds the accepted bound" (toString length)
  fixed length

def digest : ByteReader Digest := fixedBytes 32

def opaque128 : ByteReader IncarnationId := fixedBytes 16

def requireEnd : ByteReader Unit := do
  let bs ← get
  if bs ≠ [] then
    fail .protocolViolation "record carries trailing bytes after the last declared field"
      (toString bs.length)

/-- An identifier field that has to be there. -/
def identifier (parse : Bytes → Result Bytes) : ByteReader Bytes := do
  let raw ← string kMaxIdentifierLength
  liftM (parse raw)

/-- An identifier field that may be empty. -/
def optionalIdentifier (parse : Bytes → Result Bytes) : ByteReader Bytes := do
  let raw ← string kMaxIdentifierLength
  if raw = [] then return []
  liftM (parse raw)

def enumeration {α : Type} (ofValue : ℕ → Option α) (message : String) : ByteReader α := do
  match ofValue (← u8) with
  | some value => return value
  | none => fail .malformedInput message

def times {α : Type} (count : ℕ) (item : ByteReader α) : ByteReader (List α) :=
  match count with
  | 0 => return []
  | count + 1 => do
    let first ← item
    let rest ← times count item
    return first :: rest

end ByteReader

namespace ByteWriter

def u8 (value : ℕ) : Bytes := store 1 value
def u16 (value : ℕ) : Bytes := store 2 value
def u32 (value : ℕ) : Bytes := store 4 value
def u64 (value : ℕ) : Bytes := store 8 value
def i64 (value : ℤ) : Bytes := store 8 (value % 2 ^ 64).toNat
def boolean (value : Bool) : Bytes := [if value then 1 else 0]

/-- A string above its bound is a contract violation, which ends the process. -/
def string (value : Bytes) (maxBytes : ℕ) : Result Bytes :=
  if value.length > maxBytes then .fail .internal "encoded string exceeds its declared bound"
  else if value.length > kAbsoluteMaxFieldBytes then
    .fail .internal "encoded string exceeds the absolute bound"
  else .ok (u32 value.length ++ value)

end ByteWriter

end ConfigurationFabric
