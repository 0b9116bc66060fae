import NanoAural.Base.JsonLoads
import NanoAural.Base.Transaction

/-!
# Safe tensor bundles

`safe_tensor.py`: the builder of one-tensor bundles and the strict validator of the
payloads that a condition cache keeps. A payload is the length of a JSON header in
eight bytes, the header, and the data its tensors lie in.
-/

namespace NanoAural

open Relational JsonText

namespace SafeTensor

open JsonLoads

/-- A `ValueError`, or the `RecursionError` of the JSON decoder. `stuck` is the decoder without
fuel: nothing raises it (`validate_ne_stuck`). -/
inductive SafeRaise where
  | value (message : String)
  | recursion
  | stuck
  deriving DecidableEq, Repr

/-- What a call finds of its interpreter: the levels that are left where the decoder's scanner
starts, and its limits. The digits of the longest integer are no less than 640. -/
structure Interpreter where
  depth : Nat
  limits : Limits
  digits_min : ∀ limit ∈ limits.digits, 640 ≤ limit

/-- `_FORMAT`. -/
def format : String := "nano-aural-controlfoley-condition"

/-- `_MAX_HEADER_BYTES`. -/
def maxHeaderBytes : Nat := 64 * 1024

/-- `_DTYPE_BYTES`. -/
def dtypeBytes : List (String × Nat) :=
  [("BOOL", 1), ("U8", 1), ("I8", 1), ("I16", 2), ("U16", 2), ("F16", 2), ("BF16", 2), ("I32", 4),
   ("U32", 4), ("F32", 4), ("F64", 8), ("I64", 8), ("U64", 8)]

structure SafeTensorDescriptor where
  name : String
  dtype : String
  shape : List Nat
  dataStart : Nat
  dataEnd : Nat
  deriving DecidableEq, Repr

structure SafeTensorBundle where
  codecVersion : String
  schemaVersion : String
  tensors : List SafeTensorDescriptor
  data : List UInt8
  deriving DecidableEq, Repr

/-- `data[start:end]`. -/
def slice (data : List UInt8) (start stop : Nat) : List UInt8 := (data.take stop).drop start

/-- `SafeTensorBundle.tensor_bytes`. -/
def SafeTensorBundle.tensorBytes (bundle : SafeTensorBundle) (name : String) :
    Except SafeRaise (List UInt8) :=
  match bundle.tensors.find? fun tensor => tensor.name == name with
  | some tensor => .ok (slice bundle.data tensor.dataStart tensor.dataEnd)
  | none => .error (.value "safe tensor bundle does not contain the requested tensor")

/-! ## Identifiers -/

/-- `character.isalnum()` of an ASCII character. -/
def isAlnum (c : Nat) : Bool := (48 ≤ c && c ≤ 57) || (65 ≤ c && c ≤ 90) || (97 ≤ c && c ≤ 122)

/-- What names and identifiers have to be: short, and of letters, digits, `.`, `_` and `-`. -/
def isShortIdentifier (value : List Nat) : Bool :=
  !value.isEmpty && value.length ≤ 64 && value.all (· < 128)
    && value.all fun c => isAlnum c || [46, 95, 45].contains c

/-- `_tensor_name`. -/
def tensorName (value : List Nat) : Except SafeRaise Unit :=
  raiseIf (!isShortIdentifier value) (.value "safe tensor name must be a short ASCII identifier")

/-- `_safe_identifier`. -/
def safeIdentifier (value name : String) : Except SafeRaise Unit :=
  raiseIf (!isShortIdentifier (codes value)) (.value (name ++ " must be a short ASCII identifier"))

/-! ## The builder -/

/-- `struct.pack("<Q", n)`. -/
def pack (n : Nat) : List UInt8 := (List.range 8).map fun i => UInt8.ofNat (n / 256 ^ i)

/-- `struct.unpack("<Q", bytes)[0]`. -/
def unpack (bytes : List UInt8) : Nat := bytes.foldr (fun b n => b.toNat + 256 * n) 0

def metadataKey : String := "__metadata__"

/-- The metadata that both sides agree on. -/
def metadata (codecVersion schemaVersion : String) : List (String × String) :=
  [("format", format), ("codec_version", codecVersion), ("schema_version", schemaVersion)]

/-- The descriptor of the only tensor. -/
def u8Descriptor (length : Nat) : JsonValue :=
  .object [("dtype", .string "U8"), ("shape", .array [.int length]),
    ("data_offsets", .array [.int 0, .int length])]

/-- The header's dictionary: a name that stands twice keeps the second value. -/
def u8Header (codecVersion schemaVersion name : String) (length : Nat) : JsonValue :=
  if name = metadataKey then .object [(metadataKey, u8Descriptor length)]
  else .object
    [(metadataKey, .object ((metadata codecVersion schemaVersion).map fun m => (m.1, .string m.2))),
     (name, u8Descriptor length)]

/-- `build_u8_safe_tensor_bundle`. -/
def buildU8SafeTensorBundle (value : List UInt8) (codecVersion schemaVersion name : String) :
    Except SafeRaise (List UInt8) := do
  raiseIf value.isEmpty (.value "safe tensor value must be non-empty immutable bytes")
  safeIdentifier codecVersion "codec_version"
  safeIdentifier schemaVersion "schema_version"
  tensorName (codes name)
  let header := (u8Header codecVersion schemaVersion name value.length).sortKeys
  let headerBytes := utf8 (write asciiEscape header)
  pure (pack headerBytes.length ++ headerBytes ++ value)

/-! ## The validator -/

def checkLimit (payload : List UInt8) : Option Int → Except SafeRaise Unit
  | none => .ok ()
  | some limit => do
      raiseIf (limit ≤ 0) (.value "max_size_bytes must be a positive integer")
      raiseIf (limit < payload.length) (.value "safe tensor payload exceeds its sealed byte limit")

/-- The checks up to the decoding: the header's bytes, and the data after them. -/
def splitPayload (payload : List UInt8) (codecVersion schemaVersion : String)
    (maxSizeBytes : Option Int) : Except SafeRaise (List UInt8 × List UInt8) := do
  safeIdentifier codecVersion "codec_version"
  safeIdentifier schemaVersion "schema_version"
  raiseIf (payload.length ≤ 8) (.value "safe tensor payload is truncated")
  checkLimit payload maxSizeBytes
  let headerSize := unpack (payload.take 8)
  raiseIf (headerSize == 0 || maxHeaderBytes < headerSize || payload.length ≤ 8 + headerSize)
    (.value "safe tensor header length is invalid")
  let headerBytes := (payload.drop 8).take headerSize
  raiseIf (headerBytes.head? != some 0x7b) (.value "safe tensor header must begin with an object")
  pure (headerBytes, payload.drop (8 + headerSize))

/-- `json.loads(header_bytes.decode("utf-8"), …)`; of what it raises, only a `ValueError` is caught. -/
def loadHeader (py : Interpreter) (headerBytes : List UInt8) : Except SafeRaise Loaded :=
  match readUtf8 headerBytes with
  | none => .error (.value "safe tensor header is invalid")
  | some text =>
      match loads py.limits (some py.depth) text with
      | .ok header => .ok header
      | .error .recursion => .error .recursion
      | .error .stuck => .error .stuck
      | .error _ => .error (.value "safe tensor header is invalid")

/-- `metadata == expected_metadata`. -/
def isExpectedMetadata (codecVersion schemaVersion : String) : Option Loaded → Bool
  | some (.object members) =>
      members.length == 3 && (metadata codecVersion schemaVersion).all fun m =>
        match members.lookup (codes m.1) with
        | some (.string value) => value == codes m.2
        | _ => false
  | _ => false

/-- The dtype's name and width. -/
def dtypeOf : Option Loaded → Option (String × Nat)
  | some (.string value) => dtypeBytes.find? fun entry => codes entry.1 == value
  | _ => none

/-- An integer that is not a truth value. -/
def intOf? : Loaded → Option Int
  | .int n => some n
  | _ => none

/-- The dimensions of a non-empty list of positive integers, and two integers. -/
def readExtent : Option Loaded → Option Loaded → Option (List Nat × Int × Int)
  | some (.array shape), some (.array offsets) =>
      match shape.mapM intOf?, offsets.mapM intOf? with
      | some dimensions, some [start, stop] =>
          if dimensions.isEmpty || dimensions.any (· ≤ 0) then none
          else some (dimensions.map Int.toNat, start, stop)
      | _, _ => none
  | _, _ => none

/-- The product of the dimensions, cut off where it exceeds the data. -/
def expectedBytes (length : Nat) : Nat → List Nat → Except SafeRaise Nat
  | size, [] => .ok size
  | size, dimension :: rest =>
      if length < size * dimension then .error (.value "safe tensor shape exceeds the payload")
      else expectedBytes length (size * dimension) rest

/-- The fields of a descriptor. -/
def descriptorFields : List (List Nat) := [codes "dtype", codes "shape", codes "data_offsets"]

/-- The loop's body: one tensor of the header. -/
def readDescriptor (length : Nat) (entry : List Nat × Loaded) :
    Except SafeRaise SafeTensorDescriptor := do
  tensorName entry.1
  match entry.2 with
  | .object members =>
      let keys := members.map Prod.fst
      -- exactly the three fields, in any order
      raiseIf (!(keys.all descriptorFields.contains && descriptorFields.all keys.contains))
        (.value "safe tensor descriptor has unexpected fields")
      match dtypeOf (members.lookup (codes "dtype")) with
      | none => .error (.value "safe tensor dtype is unsupported")
      | some (dtype, width) =>
          match readExtent (members.lookup (codes "shape")) (members.lookup (codes "data_offsets")) with
          | none => .error (.value "safe tensor shape or offsets are invalid")
          | some (shape, start, stop) => do
              let size ← expectedBytes length width shape
              raiseIf (start < 0 || stop ≤ start || (length : Int) < stop || stop - start != size)
                (.value "safe tensor byte range is invalid")
              pure ⟨String.ofList (entry.1.map Char.ofNat), dtype, shape, start.toNat, stop.toNat⟩
  | _ => .error (.value "safe tensor descriptor has unexpected fields")

/-- `sorted(ranges)`. -/
def sortRanges (ranges : List (Nat × Nat)) : List (Nat × Nat) :=
  ranges.mergeSort fun a b => a.1 < b.1 || (a.1 == b.1 && a.2 ≤ b.2)

/-- The cursor after the ranges, if each starts where the one before it ends. -/
def cover : Nat → List (Nat × Nat) → Option Nat
  | cursor, [] => some cursor
  | cursor, (start, stop) :: rest => if start = cursor then cover stop rest else none

/-- `validate_safe_tensor_bundle`. -/
def validateSafeTensorBundle (py : Interpreter) (payload : List UInt8)
    (codecVersion schemaVersion : String) (maxSizeBytes : Option Int) :
    Except SafeRaise SafeTensorBundle := do
  let (headerBytes, data) ← splitPayload payload codecVersion schemaVersion maxSizeBytes
  let header ← loadHeader py headerBytes
  match header with
  | .object members => do
      raiseIf members.isEmpty (.value "safe tensor header must be a non-empty object")
      -- the metadata is the one entry that describes no tensor
      let tensors := members.filter fun m => m.1 != codes metadataKey
      raiseIf (!isExpectedMetadata codecVersion schemaVersion (members.lookup (codes metadataKey))
        || tensors.isEmpty) (.value "safe tensor metadata does not match the sealed codec")
      let tensors ← tensors.mapM (readDescriptor data.length)
      raiseIf (cover 0 (sortRanges (tensors.map fun t => (t.dataStart, t.dataEnd)))
        != some data.length)
        (.value "safe tensor ranges must be non-overlapping and cover all data")
      pure ⟨codecVersion, schemaVersion, tensors, data⟩
  | _ => .error (.value "safe tensor header must be a non-empty object")

end SafeTensor

end NanoAural
