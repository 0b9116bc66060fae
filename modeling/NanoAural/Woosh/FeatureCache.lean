import Mathlib.Algebra.Order.Ring.Rat
import NanoAural.Base.JsonIdentity
import NanoAural.Base.OrderedMap
import NanoAural.Base.Transaction

/-!
# The feature cache of Woosh

`cache_key` and `WooshFeatureCache`. A payload is any mapping that `json.dumps` may
take: its keys are texts, numbers, booleans or `None`, and what is not a text is
spelled as one, by `str` at the top and by the encoder below. The kind goes into the
same mapping as the payload does.

A call that the interpreter itself stops, at a value nested too deeply or an integer
of too many digits, raises before the cache is touched.
-/

namespace NanoAural.FeatureCache

open JsonText Relational

/-! ## Payloads -/

/-- A key of a mapping. A float has its exact value and the text Python gives it. -/
inductive PayloadKey where
  | str (s : String)
  | int (n : Int)
  | bool (b : Bool)
  | null
  | float (value : ℚ) (repr : String)
  deriving DecidableEq

/-- A value within a payload. A float is the text JSON has for it. -/
inductive PayloadValue where
  | null
  | bool (b : Bool)
  | int (n : Int)
  | float (repr : String)
  | str (s : String)
  | list (items : List PayloadValue)
  | tuple (items : List PayloadValue)
  | dict (entries : List (PayloadKey × PayloadValue))

/-- What a dictionary tells keys apart by: `True`, `1` and `1.0` are one key. -/
def PayloadKey.ident : PayloadKey → Option (String ⊕ ℚ)
  | .str s => some (.inl s)
  | .int n => some (.inr n)
  | .bool b => some (.inr (if b then 1 else 0))
  | .null => none
  | .float value _ => some (.inr value)

def PayloadKey.isStr : PayloadKey → Bool
  | .str _ => true
  | _ => false

def PayloadKey.isNumber : PayloadKey → Bool
  | .int _ | .bool _ | .float _ _ => true
  | .str _ | .null => false

/-- What numbers are ordered by. -/
def PayloadKey.number : PayloadKey → ℚ
  | .int n => n
  | .bool b => if b then 1 else 0
  | .float value _ => value
  | .str _ | .null => 0

/-- `str(key)`. -/
def PayloadKey.text : PayloadKey → String
  | .str s => s
  | .int n => String.ofList (writeInt n)
  | .bool true => "True"
  | .bool false => "False"
  | .null => "None"
  | .float _ repr => repr

/-- The member name that the JSON encoder makes of a key. -/
def PayloadKey.jsonText : PayloadKey → String
  | .str s => s
  | .int n => String.ofList (writeInt n)
  | .bool true => "true"
  | .bool false => "false"
  | .null => "null"
  | .float _ repr => repr

mutual

/-- What Python guarantees of a value: no key stands twice in a mapping, and the text of a
float is a number's or one of the three words. -/
def PayloadValue.proper : PayloadValue → Bool
  | .float repr => isRealText repr.toList || realWords.contains repr
  | .list items => properItems items
  | .tuple items => properItems items
  | .dict entries =>
      decide (entries.map fun e => e.1.ident).Nodup && properEntries entries
  | .null | .bool _ | .int _ | .str _ => true

def properItems : List PayloadValue → Bool
  | [] => true
  | v :: vs => v.proper && properItems vs

def properEntries : List (PayloadKey × PayloadValue) → Bool
  | [] => true
  | (_, v) :: es => v.proper && properEntries es

end

/-- A mapping as Python can have it. -/
structure Payload where
  entries : List (PayloadKey × PayloadValue)
  proper : (PayloadValue.dict entries).proper = true

/-! ## Encoding -/

/-- What `cache_key` and the cache raise. -/
inductive Raised where
  | wooshCache (message : String)
  | type
  deriving DecidableEq

/-- `sorted` by the keys of a mapping: texts are ordered among themselves and numbers are, and
there is no order between other keys. -/
def sortByKey {α : Type} (entries : List (PayloadKey × α)) :
    Except Raised (List (PayloadKey × α)) :=
  if entries.length ≤ 1 then .ok entries
  else if entries.all fun e => e.1.isStr then .ok (orderBy (fun e => e.1.text) entries)
  else if entries.all fun e => e.1.isNumber then .ok (orderBy (fun e => e.1.number) entries)
  else .error .type

mutual

/-- The JSON value that `json.dumps(value, sort_keys=True)` writes. -/
def dumped : PayloadValue → Except Raised JsonValue
  | .null => .ok .null
  | .bool b => .ok (.bool b)
  | .int n => .ok (.int n)
  | .float repr => .ok (.real repr)
  | .str s => .ok (.string s)
  | .list items => do return .array (← dumpedItems items)
  | .tuple items => do return .array (← dumpedItems items)
  | .dict entries => do
      let sorted ← sortByKey (← dumpedEntries entries)
      return .object (sorted.map fun e => (e.1.jsonText, e.2))

def dumpedItems : List PayloadValue → Except Raised (List JsonValue)
  | [] => .ok []
  | v :: vs => do return (← dumped v) :: (← dumpedItems vs)

def dumpedEntries : List (PayloadKey × PayloadValue) → Except Raised (List (PayloadKey × JsonValue))
  | [] => .ok []
  | (key, v) :: es => do return (key, ← dumped v) :: (← dumpedEntries es)

end

def allowedCacheKinds : List String :=
  ["video_preprocess", "synchformer_features", "text_tokens", "unconditional_condition"]

def forbiddenCacheKinds : List String := ["ode_trajectory", "latent", "step_skip", "cross_seed"]

/-- `{"kind": kind, **{str(key): payload[key] for key in sorted(payload)}}`, the payload sorted
already. -/
def merged (kind : String) (sorted : List (PayloadKey × PayloadValue)) :
    OrderedMap String PayloadValue :=
  sorted.foldl (fun m e => m.put e.1.text e.2) (OrderedMap.empty.put "kind" (.str kind))

def cacheKey (sha256 : List UInt8 → String) (kind : String) (payload : Payload) :
    Except Raised String := do
  raiseIf (forbiddenCacheKinds.contains kind) (.wooshCache "forbidden Woosh cache kind")
  raiseIf (!allowedCacheKinds.contains kind) (.wooshCache "unknown Woosh cache kind")
  raiseIf (payload.entries.any fun e => decide (e.1 = .str "seed"))
    (.wooshCache "feature caches must not be keyed by seed")
  let sorted ← sortByKey payload.entries
  let value ← dumped (.dict ((merged kind sorted).items.map fun e => (.str e.1, e.2)))
  return sha256 (utf8 (write plainEscape value))

/-! ## The cache -/

inductive CacheMode where
  | off
  | experimentalFeatures
  deriving DecidableEq

/-- `WooshFeatureCache`. -/
structure WooshFeatureCache where
  mode : CacheMode := .off
  store : OrderedMap String (List UInt8) := .empty
  hits : Nat := 0
  misses : Nat := 0

namespace WooshFeatureCache

variable (sha256 : List UInt8 → String) (cache : WooshFeatureCache)

def enabled : Bool := cache.mode = .experimentalFeatures

def get (kind : String) (payload : Payload) :
    Except Raised (Option (List UInt8)) × WooshFeatureCache :=
  match cacheKey sha256 kind payload with
  | .error e => (.error e, cache)
  | .ok key =>
      if cache.enabled then
        match cache.store.get? key with
        | none => (.ok none, { cache with misses := cache.misses + 1 })
        | some value => (.ok (some value), { cache with hits := cache.hits + 1 })
      else (.ok none, { cache with misses := cache.misses + 1 })

def put (kind : String) (payload : Payload) (value : List UInt8) :
    Except Raised Unit × WooshFeatureCache :=
  if value.isEmpty then (.error (.wooshCache "cache values must be non-empty bytes"), cache)
  else
    match cacheKey sha256 kind payload with
    | .error e => (.error e, cache)
    | .ok key =>
        if cache.enabled then (.ok (), { cache with store := cache.store.put key value })
        else (.ok (), cache)

end WooshFeatureCache

/-! ## Runs -/

inductive Call where
  | put (kind : String) (payload : Payload) (value : List UInt8)
  | get (kind : String) (payload : Payload)

def Call.payload : Call → Payload
  | .put _ payload _ => payload
  | .get _ payload => payload

/-- The cache after a call, whether it returned or raised. -/
def Call.run (sha256 : List UInt8 → String) (cache : WooshFeatureCache) :
    Call → WooshFeatureCache
  | .put kind payload value => (cache.put sha256 kind payload value).2
  | .get kind payload => (cache.get sha256 kind payload).2

/-- A new cache in the feature mode after some calls. -/
def after (sha256 : List UInt8 → String) (calls : List Call) : WooshFeatureCache :=
  calls.foldl (Call.run sha256) { mode := .experimentalFeatures }

end NanoAural.FeatureCache
