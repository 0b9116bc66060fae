import NanoAural.Base.JsonRoundTrip

/-!
# `json.loads`

The reader of Python's standard library, with all that it takes and with the limits
its interpreter sets: lone surrogates in strings, the longest integer, and how many
calls may be open one inside the other. Every array and object takes a level, and so
do the calls that the reader makes from the level it is on: of the hook, of the
function for the constants, and of what makes an exception. The limit is met where
the text asks for more, whatever comes after it; every other fault is found where the
text goes wrong. `nesting` is how many levels a text asks for before it does.

An object is given as the pairs in the order of the text, and refused if a key
stands twice (`object_pairs_hook` of the callers).
-/

namespace JsonLoads

open JsonText

/-- A value that was read. Strings are code points, which may be surrogates. -/
inductive Loaded where
  | null
  | bool (b : Bool)
  | int (n : Int)
  | real (text : String)
  | string (codes : List Nat)
  | array (items : List Loaded)
  | object (members : List (List Nat × Loaded))

/-- Why a text is not read. `stuck` is the reader without fuel: it never is (`loads_ne_stuck`). -/
inductive Fault where
  /-- There is no value: the `StopIteration` of the scanner. -/
  | noValue
  /-- The `JSONDecodeError` that a `StopIteration` becomes in the end. -/
  | unread
  /-- A `JSONDecodeError` of the scanner. -/
  | malformed
  /-- A `JSONDecodeError` for what comes after the value. -/
  | extraData
  | longInteger
  | duplicateKey
  | recursion
  | stuck
  deriving DecidableEq, Repr

/-- The limits of an interpreter, and the levels that its calls take on top of the open ones. -/
structure Limits where
  /-- The digits of the longest integer. -/
  digits : Option Nat
  /-- The levels of `parse_constant`. -/
  constant : Nat
  /-- The levels of `object_pairs_hook`. -/
  hook : Nat
  /-- The levels of raising an exception. -/
  raising : Fault → Nat

/-! ## Strings -/

/-- What follows `\u`: a code point of its own, or two surrogates that make one. -/
def scanUnicode (text : List Char) : Option (Nat × List Char) := do
  let (n, rest) ← readHex4 text
  if n < 0xD800 ∨ 0xDBFF < n then some (n, rest)
  else
    match rest with
    | '\\' :: 'u' :: more => do
        let (m, more) ← readHex4 more
        if 0xDC00 ≤ m ∧ m ≤ 0xDFFF then
          some (0x10000 + (n - 0xD800) * 0x400 + (m - 0xDC00), more)
        else some (n, rest)
    | _ => some (n, rest)

/-- One code point of a string, escaped or not. -/
def scanChar : List Char → Option (Nat × List Char)
  | [] => none
  | c :: rest =>
      if c = '\\' then
        match rest with
        | [] => none
        | letter :: rest =>
            if letter = 'u' then scanUnicode rest
            else (unescape letter).map fun c => (c.toNat, rest)
      else if c = '"' ∨ c.toNat < 32 then none
      else some (c.toNat, rest)

/-- The code points up to the closing quote, so many at most. -/
def scanChars : Nat → List Char → Option (List Nat × List Char)
  | 0, _ => none
  | n + 1, text =>
      if text.head? = some '"' then some ([], text.tail)
      else do
        let (c, rest) ← scanChar text
        let (cs, rest) ← scanChars n rest
        some (c :: cs, rest)

/-! ## Values -/

/-- The word or number a text starts with. -/
def readPlain (c : Char) (rest : List Char) : Option (JsonValue × List Char) :=
  if c = 'n' then readWord "ull" .null rest
  else if c = 't' then readWord "rue" (.bool true) rest
  else if c = 'f' then readWord "alse" (.bool false) rest
  else if c = 'N' then readWord "aN" (.real "NaN") rest
  else if c = 'I' then readWord "nfinity" (.real "Infinity") rest
  else if c = '-' ∧ rest.head? = some 'I' then readWord "Infinity" (.real "-Infinity") rest
  else readNumber (c :: rest)

/-- The string, word or number a text starts with. `digits` is the longest integer's. -/
def scanScalar (digits : Option Nat) : List Char → Except Fault (Loaded × List Char)
  | [] => .error .noValue
  | c :: rest =>
      if c = '"' then
        match scanChars (rest.length + 1) rest with
        | some (codes, rest) => .ok (.string codes, rest)
        | none => .error .malformed
      else
        match readPlain c rest with
        | some (.null, rest) => .ok (.null, rest)
        | some (.bool b, rest) => .ok (.bool b, rest)
        | some (.real text, rest) => .ok (.real text, rest)
        | some (.int n, after) =>
            -- `int` refuses what has more digits than its limit
            if digits.all ((unsigned ((c :: rest).takeWhile isNumberChar)).length ≤ ·) then
              .ok (.int n, after)
            else .error .longInteger
        | _ => .error .noValue

/-- A member's key, with the colon after it. -/
def scanKey (text : List Char) : Option (List Nat × List Char) :=
  if (skip text).head? = some '"' then
    match scanChars (text.length + 1) (skip text).tail with
    | some (key, rest) =>
        if (skip rest).head? = some ':' then some (key, (skip rest).tail) else none
    | none => none
  else none

/-- One level further down, unless the limit is reached. -/
def enter : Option Nat → Option (Option Nat)
  | none => some none
  | some 0 => none
  | some (depth + 1) => some (some depth)

/-- There are so many levels left. -/
def affords (levels : Nat) : Option Nat → Bool
  | none => true
  | some depth => levels ≤ depth

theorem affords_some {levels depth : Nat} : affords levels (some depth) = true ↔ levels ≤ depth :=
  decide_eq_true_iff

/-- An answer that takes so many levels. -/
def spend {α : Type} (levels : Nat) (answer : Except Fault α) (depth : Option Nat) : Except Fault α :=
  if affords levels depth then answer else .error .recursion

section Scan

variable (limits : Limits)

/-- Raise an exception. -/
def fail {α : Type} (fault : Fault) : Option Nat → Except Fault α :=
  spend (limits.raising fault) (.error fault)

/-- The levels that a word takes: `parse_constant` is called for three of them. -/
def constantLevels (word : String) : Nat :=
  if ["NaN", "Infinity", "-Infinity"].contains word then limits.constant else 0

/-- The levels that a string, a word or a number takes. -/
def scalarLevels : Except Fault (Loaded × List Char) → Nat
  | .ok (.real text, _) => constantLevels limits text
  | .ok _ => 0
  | .error fault => limits.raising fault

/-- The call of `object_pairs_hook`, which refuses a key that stands twice. -/
def pairsHook (members : List (List Nat × Loaded)) (depth : Option Nat) : Except Fault Loaded :=
  if affords limits.hook depth then
    if (members.map Prod.fst).Nodup then .ok (.object members) else fail limits .duplicateKey depth
  else .error .recursion

/-- The levels of that call. -/
def hookLevels (members : List (List Nat × Loaded)) : Nat :=
  if (members.map Prod.fst).Nodup then limits.hook
  else max limits.hook (limits.raising .duplicateKey)

mutual

/-- The value a text starts with, and the rest of the text. -/
def scanValue : Nat → Option Nat → List Char → Except Fault (Loaded × List Char)
  | 0, _, _ => .error .stuck
  | n + 1, depth, text =>
      if text.head? = some '[' then
        match enter depth with
        | none => .error .recursion
        | some depth =>
            if (skip text.tail).head? = some ']' then .ok (.array [], (skip text.tail).tail)
            else do
              let r ← scanItems n depth text.tail
              .ok (.array r.1, r.2)
      else if text.head? = some '\x7b' then
        match enter depth with
        | none => .error .recursion
        | some depth =>
            if (skip text.tail).head? = some '\x7d' then do
              let object ← pairsHook limits [] depth
              .ok (object, (skip text.tail).tail)
            else do
              let r ← scanMembers n depth text.tail
              -- the hook is called at the depth of its object
              let object ← pairsHook limits r.1 depth
              .ok (object, r.2)
      else
        spend (scalarLevels limits (scanScalar limits.digits text)) (scanScalar limits.digits text)
          depth

/-- The items of an array from the next one on. -/
def scanItems : Nat → Option Nat → List Char → Except Fault (List Loaded × List Char)
  | 0, _, _ => .error .stuck
  | n + 1, depth, text => do
      let r ← scanValue n depth (skip text)
      if (skip r.2).head? = some ']' then .ok ([r.1], (skip r.2).tail)
      else if (skip r.2).head? = some ',' then do
        let rs ← scanItems n depth (skip r.2).tail
        .ok (r.1 :: rs.1, rs.2)
      else fail limits .malformed depth

/-- The members of an object from the next one on. -/
def scanMembers : Nat → Option Nat → List Char → Except Fault (List (List Nat × Loaded) × List Char)
  | 0, _, _ => .error .stuck
  | n + 1, depth, text =>
      match scanKey text with
      | none => fail limits .malformed depth
      | some (key, rest) => do
          let r ← scanValue n depth (skip rest)
          if (skip r.2).head? = some '\x7d' then .ok ([(key, r.1)], (skip r.2).tail)
          else if (skip r.2).head? = some ',' then do
            let rs ← scanMembers n depth (skip r.2).tail
            .ok ((key, r.1) :: rs.1, rs.2)
          else fail limits .malformed depth

end

/-- What `raw_decode` and `decode` make of what the scanner says. -/
def conclude (scanned : Except Fault (Loaded × List Char)) (depth : Option Nat) :
    Except Fault Loaded :=
  match scanned with
  | .error .noValue => fail limits .unread depth
  | .error fault => .error fault
  | .ok r => if (skip r.2).isEmpty then .ok r.1 else fail limits .extraData depth

/-- The levels it takes. -/
def concludeLevels : Except Fault (Loaded × List Char) → Nat
  | .error .noValue => limits.raising .unread
  | .error _ => 0
  | .ok r => if (skip r.2).isEmpty then 0 else limits.raising .extraData

/-- `json.loads`. -/
def loads (depth : Option Nat) (text : List Char) : Except Fault Loaded :=
  conclude limits (scanValue limits (2 * text.length + 1) depth (skip text)) depth

/-- What is needed after a first answer; nothing, if there is none. -/
def needAfter {α : Type} (first : Except Fault α) (need : α → Nat) : Nat :=
  match first with
  | .error _ => 0
  | .ok a => need a

/-- What is needed after a value: nothing at the end, or what more of the same needs. -/
def restLevels (close : Char) (rest : List Char) (more : Nat) : Nat :=
  if rest.head? = some close then 0
  else if rest.head? = some ',' then more
  else limits.raising .malformed

mutual

/-- How many levels the reading of the value takes that a text starts with. -/
def nestValue : Nat → List Char → Nat
  | 0, _ => 0
  | n + 1, text =>
      if text.head? = some '[' then
        if (skip text.tail).head? = some ']' then 1 else nestItems n text.tail + 1
      else if text.head? = some '\x7b' then
        if (skip text.tail).head? = some '\x7d' then hookLevels limits [] + 1
        else max (nestMembers n text.tail)
          (needAfter (scanMembers limits n none text.tail) fun r => hookLevels limits r.1) + 1
      else scalarLevels limits (scanScalar limits.digits text)

def nestItems : Nat → List Char → Nat
  | 0, _ => 0
  | n + 1, text =>
      max (nestValue n (skip text)) (needAfter (scanValue limits n none (skip text)) fun r =>
        restLevels limits ']' (skip r.2) (nestItems n (skip r.2).tail))

def nestMembers : Nat → List Char → Nat
  | 0, _ => 0
  | n + 1, text =>
      match scanKey text with
      | none => limits.raising .malformed
      | some (_, rest) =>
          max (nestValue n (skip rest)) (needAfter (scanValue limits n none (skip rest)) fun r =>
            restLevels limits '\x7d' (skip r.2) (nestMembers n (skip r.2).tail))

end

/-- How many levels a text asks for before it is read or goes wrong. -/
def nesting (text : List Char) : Nat :=
  max (nestValue limits (2 * text.length + 1) (skip text))
    (concludeLevels limits (scanValue limits (2 * text.length + 1) none (skip text)))

end Scan

/-! ## The depth -/

section Depth

variable {digits : Option Nat}

/-- A string, a word or a number is malformed or too long; it is not deep and takes no fuel. -/
theorem scanScalar_fault {text : List Char} {fault : Fault} (h : scanScalar digits text = .error fault) :
    fault ≠ .recursion ∧ fault ≠ .stuck := by
  have hmalformed : ∀ {α : Type} {fault : Fault}, (.error .malformed : Except Fault α) = .error fault →
      fault ≠ .recursion ∧ fault ≠ .stuck := by
    intro α fault h
    rw [← Except.error.inj h]
    decide
  have hnoValue : ∀ {α : Type} {fault : Fault}, (.error .noValue : Except Fault α) = .error fault →
      fault ≠ .recursion ∧ fault ≠ .stuck := by
    intro α fault h
    rw [← Except.error.inj h]
    decide
  unfold scanScalar at h
  split at h
  · exact hnoValue h
  · split at h
    · split at h
      · cases h
      · exact hmalformed h
    · split at h
      · cases h
      · cases h
      · cases h
      · split at h
        · cases h
        · rw [← Except.error.inj h]
          decide
      · exact hnoValue h

/-- A reader that meets its limit exactly where it needs to go deeper. -/
structure Limited {α : Type} (answer : Option Nat → Except Fault α) (need : Nat) : Prop where
  unlimited : answer none ≠ .error .recursion
  limited : ∀ depth, answer (some depth) = if depth < need then .error .recursion else answer none

/-- What is read one level down needs one more. -/
theorem Limited.enter {α : Type} {answer : Option Nat → Except Fault α} {need : Nat}
    (h : Limited answer need) :
    Limited (fun depth => match JsonLoads.enter depth with
      | none => .error .recursion
      | some depth => answer depth) (need + 1) where
  unlimited := h.unlimited
  limited := fun depth => by
    cases depth with
    | zero => simp [JsonLoads.enter]
    | succ depth => simp only [JsonLoads.enter, h.limited depth, Nat.add_lt_add_iff_right]

/-- Two readers one after the other need what the deeper one needs, whatever the first one says. -/
theorem Limited.follow {α β : Type} {answer : Option Nat → Except Fault α} {need : Nat}
    (h : Limited answer need) {next : Except Fault α → Option Nat → Except Fault β}
    {needs : Except Fault α → Nat} (hnext : ∀ a, a ≠ .error .recursion → Limited (next a) (needs a))
    (hstop : ∀ depth, next (.error .recursion) depth = .error .recursion) :
    Limited (fun depth => next (answer depth) depth) (max need (needs (answer none))) where
  unlimited := (hnext _ h.unlimited).unlimited
  limited := fun depth => by
    rw [h.limited depth]
    by_cases hdeep : depth < need
    · rw [if_pos hdeep, if_pos (Nat.lt_of_lt_of_le hdeep (Nat.le_max_left _ _)), hstop]
    · have hmax : depth < max need (needs (answer none)) ↔ depth < needs (answer none) := by omega
      rw [if_neg hdeep]
      simp only [hmax]
      exact (hnext _ h.unlimited).limited depth

theorem limited_const {α : Type} {a : Except Fault α} (h : a ≠ .error .recursion) :
    Limited (fun _ => a) 0 :=
  ⟨h, fun _ => by rw [if_neg (Nat.not_lt_zero _)]⟩

/-- A second reader that starts from what the first one read. -/
theorem Limited.bind {α β : Type} {answer : Option Nat → Except Fault α} {need : Nat}
    (h : Limited answer need) {next : α → Option Nat → Except Fault β} {needs : α → Nat}
    (hnext : ∀ a, Limited (next a) (needs a)) :
    Limited (fun depth => answer depth >>= fun a => next a depth)
      (max need (needAfter (answer none) needs)) := by
  refine @Limited.follow _ _ _ _ h (fun first depth => first >>= fun a => next a depth)
    (fun first => needAfter first needs) (fun first hfirst => ?_) fun _ => rfl
  cases first with
  | error fault => exact limited_const fun h => hfirst (congrArg Except.error (Except.error.inj h))
  | ok a => exact hnext a

/-- What is made of an answer needs nothing more. -/
theorem Limited.then {α β : Type} {answer : Option Nat → Except Fault α} {need : Nat}
    (h : Limited answer need) {next : α → Except Fault β}
    (hnext : ∀ a, next a ≠ .error .recursion) :
    Limited (fun depth => answer depth >>= next) need := by
  have hbind := @Limited.bind _ _ _ _ h (fun a _ => next a) (fun _ => 0)
    fun a => limited_const (hnext a)
  have hzero : max need (needAfter (answer none) fun _ => 0) = need := by
    cases answer none with
    | error fault => exact Nat.max_zero need
    | ok a => exact Nat.max_zero need
  rwa [hzero] at hbind

variable {limits : Limits}

theorem limited_spend {α : Type} {answer : Except Fault α} (h : answer ≠ .error .recursion)
    (levels : Nat) : Limited (spend levels answer) levels where
  unlimited := h
  limited := fun depth => by
    simp only [spend, affords, decide_eq_true_eq, if_true, ← Nat.not_lt, ite_not]

theorem limited_fail {α : Type} {fault : Fault} (h : fault ≠ .recursion) :
    Limited (fail limits fault : Option Nat → Except Fault α) (limits.raising fault) :=
  limited_spend (fun heq => h (Except.error.inj heq)) _

theorem limited_pairsHook (members : List (List Nat × Loaded)) :
    Limited (pairsHook limits members) (hookLevels limits members) := by
  unfold hookLevels
  by_cases hnodup : (members.map Prod.fst).Nodup
  · have hspend : pairsHook limits members = spend limits.hook (.ok (.object members)) := by
      funext depth
      rw [pairsHook, if_pos hnodup, spend]
    rw [if_pos hnodup, hspend]
    exact limited_spend (by simp) _
  · have hspend : pairsHook limits members = fun depth =>
        spend limits.hook (.ok ()) depth >>= fun _ => fail limits .duplicateKey depth := by
      funext depth
      rw [pairsHook, if_neg hnodup, spend]
      cases affords limits.hook depth <;> rfl
    rw [if_neg hnodup, hspend]
    exact (limited_spend (by simp) _).bind fun _ => limited_fail (by decide)

/-- The answer after a value: the end, or more of the same after a comma. -/
theorem Limited.rest {α : Type} {close : Char} {rest : List Char}
    {last : Except Fault α} (hlast : last ≠ .error .recursion)
    {more : Option Nat → Except Fault α} {need : Nat} (hmore : Limited more need) :
    Limited (fun depth => if rest.head? = some close then last
      else if rest.head? = some ',' then more depth else fail limits .malformed depth)
      (restLevels limits close rest need) := by
  unfold restLevels
  by_cases hend : rest.head? = some close
  · simp only [if_pos hend]
    exact limited_const hlast
  · simp only [if_neg hend]
    by_cases hcomma : rest.head? = some ','
    · simp only [if_pos hcomma]
      exact hmore
    · simp only [if_neg hcomma]
      exact limited_fail (by decide)

/-- **The limit is met exactly where the text asks for more levels**, and changes nothing else. -/
theorem scan_limited (n : Nat) :
    (∀ text, Limited (fun depth => scanValue limits n depth text) (nestValue limits n text))
    ∧ (∀ text, Limited (fun depth => scanItems limits n depth text) (nestItems limits n text))
    ∧ ∀ text, Limited (fun depth => scanMembers limits n depth text)
        (nestMembers limits n text) := by
  induction n with
  | zero =>
      simp only [scanValue, scanItems, scanMembers, nestValue, nestItems, nestMembers]
      exact ⟨fun _ => limited_const (by simp), fun _ => limited_const (by simp),
        fun _ => limited_const (by simp)⟩
  | succ n ih =>
      obtain ⟨hvalue, hitems, hmembers⟩ := ih
      refine ⟨fun text => ?_, fun text => ?_, fun text => ?_⟩
      · simp only [scanValue, nestValue]
        by_cases harray : text.head? = some '['
        · simp only [if_pos harray]
          by_cases hempty : (skip text.tail).head? = some ']'
          -- nothing is read inside, but the brackets cost their level
          · simp only [if_pos hempty]
            exact (limited_const (by simp)).enter
          · simp only [if_neg hempty]
            exact ((hitems text.tail).then (by simp)).enter
        · simp only [if_neg harray]
          by_cases hobject : text.head? = some '\x7b'
          · simp only [if_pos hobject]
            by_cases hempty : (skip text.tail).head? = some '\x7d'
            · simp only [if_pos hempty]
              exact ((limited_pairsHook []).then (by simp)).enter
            · simp only [if_neg hempty]
              exact ((hmembers text.tail).bind fun r =>
                (limited_pairsHook r.1).then (by simp)).enter
          · simp only [if_neg hobject]
            exact limited_spend (fun h => (scanScalar_fault h).1 rfl) _
      · simp only [scanItems, nestItems]
        exact (hvalue (skip text)).bind fun r =>
          Limited.rest (by simp) ((hitems (skip r.2).tail).then (by simp))
      · simp only [scanMembers, nestMembers]
        cases scanKey text with
        | none => exact limited_fail (by decide)
        | some r =>
            exact (hvalue (skip r.2)).bind fun r =>
              Limited.rest (by simp) ((hmembers (skip r.2).tail).then (by simp))

variable (limits) in
theorem loads_limited (text : List Char) :
    Limited (fun depth => loads limits depth text) (nesting limits text) := by
  refine @Limited.follow _ _ _ _ ((scan_limited _).1 _) (conclude limits) (concludeLevels limits)
    (fun scanned hscanned => ?_) fun _ => rfl
  cases scanned with
  | ok r =>
      by_cases hend : (skip r.2).isEmpty = true
      · have hconclude : conclude limits (.ok r) = fun _ => .ok r.1 := funext fun _ => if_pos hend
        rw [hconclude, show concludeLevels limits (.ok r) = 0 from if_pos hend]
        exact limited_const (by simp)
      · have hconclude : conclude limits (.ok r) = fail limits .extraData :=
          funext fun _ => if_neg hend
        rw [hconclude, show concludeLevels limits (.ok r) = _ from if_neg hend]
        exact limited_fail (by decide)
  | error fault =>
      cases fault with
      | recursion => exact absurd rfl hscanned
      | noValue => exact limited_fail (by decide)
      | unread | malformed | extraData | longInteger | duplicateKey | stuck =>
          exact limited_const (by simp)

end Depth

/-! ## The fuel -/

theorem skip_length_le (text : List Char) : (skip text).length ≤ text.length :=
  (List.dropWhile_suffix _).length_le

theorem tail_length_lt {text : List Char} {c : Char} (h : text.head? = some c) :
    text.tail.length + 1 = text.length := by
  cases text with
  | nil => cases h
  | cons d rest => rfl

/-- What an answer leaves of a text of so many characters. -/
def Shortens {α : Type} (answer : Option (α × List Char)) (length : Nat) : Prop :=
  ∀ r, answer = some r → r.2.length ≤ length

theorem readHex4_shortens (text : List Char) : Shortens (readHex4 text) text.length := by
  intro r h
  unfold readHex4 at h
  split at h
  · simp only [Option.bind_eq_bind, Option.bind_eq_some_iff, Option.some.injEq] at h
    obtain ⟨_, _, _, _, _, _, _, _, rfl⟩ := h
    simp only [List.length_cons]
    omega
  · cases h

theorem scanUnicode_shortens (text : List Char) : Shortens (scanUnicode text) text.length := by
  intro r h
  simp only [scanUnicode, Option.bind_eq_bind, Option.bind_eq_some_iff] at h
  obtain ⟨first, hfirst, h⟩ := h
  have hle := readHex4_shortens text first hfirst
  split at h
  · rw [← Option.some.inj h]
    exact hle
  · split at h
    · rename_i more heq
      simp only [Option.bind_eq_some_iff] at h
      obtain ⟨second, hsecond, h⟩ := h
      have hmore := readHex4_shortens more second hsecond
      rw [heq, List.length_cons, List.length_cons] at hle
      split at h
      · rw [← Option.some.inj h]
        dsimp only
        omega
      · rw [← Option.some.inj h]
        dsimp only
        rw [heq, List.length_cons, List.length_cons]
        exact hle
    · rw [← Option.some.inj h]
      exact hle

theorem scanChar_shortens (text : List Char) : Shortens (scanChar text) text.length := by
  intro r h
  unfold scanChar at h
  split at h
  · cases h
  · split at h
    · split at h
      · cases h
      · split at h
        · have := scanUnicode_shortens _ r h
          simp only [List.length_cons]
          omega
        · obtain ⟨c, -, rfl⟩ := Option.map_eq_some_iff.mp h
          simp only [List.length_cons]
          omega
    · split at h
      · cases h
      · rw [← Option.some.inj h, List.length_cons]
        exact Nat.le_succ _

theorem scanChars_shortens (n : Nat) (text : List Char) :
    Shortens (scanChars n text) text.length := by
  induction n generalizing text with
  | zero => exact fun _ h => (by cases h)
  | succ n ih =>
      intro r h
      unfold scanChars at h
      split at h
      · rw [← Option.some.inj h, List.length_tail]
        exact Nat.sub_le _ _
      · simp only [Option.bind_eq_bind, Option.bind_eq_some_iff] at h
        obtain ⟨c, hc, cs, hcs, h⟩ := h
        rw [← Option.some.inj h]
        exact Nat.le_trans (ih _ cs hcs) (scanChar_shortens text c hc)

theorem scanKey_shortens (text : List Char) : Shortens (scanKey text) text.length := by
  intro r h
  unfold scanKey at h
  split at h
  · split at h
    · rename_i key rest hkey
      split at h
      · have hrest := scanChars_shortens _ _ _ hkey
        have hskip := skip_length_le text
        have hskip' := skip_length_le rest
        rw [← Option.some.inj h, List.length_tail]
        rw [List.length_tail] at hrest
        dsimp only at hrest
        omega
      · cases h
    · cases h
  · cases h

theorem readWord_shortens (word : String) (v : JsonValue) (text : List Char) :
    Shortens (readWord word v text) text.length := by
  intro r h
  unfold readWord at h
  split at h
  · rw [← Option.some.inj h, List.length_drop]
    exact Nat.sub_le _ _
  · cases h

theorem readNumber_shortens (text : List Char) : Shortens (readNumber text) text.length := by
  intro r h
  unfold readNumber at h
  dsimp only at h
  split at h
  · rw [← Option.some.inj h]
    exact (List.dropWhile_suffix _).length_le
  · split at h
    · rw [← Option.some.inj h]
      exact (List.dropWhile_suffix _).length_le
    · cases h

variable {digits : Option Nat}

theorem readPlain_shortens (c : Char) (rest : List Char) :
    Shortens (readPlain c rest) (c :: rest).length := by
  have hword : ∀ word v, Shortens (readWord word v rest) (c :: rest).length := fun word v r hr =>
    Nat.le_succ_of_le (readWord_shortens word v rest r hr)
  unfold readPlain
  split
  · exact hword _ _
  · split
    · exact hword _ _
    · split
      · exact hword _ _
      · split
        · exact hword _ _
        · split
          · exact hword _ _
          · split
            · exact hword _ _
            · exact readNumber_shortens _

theorem scanScalar_shortens {text : List Char} {r : Loaded × List Char}
    (h : scanScalar digits text = .ok r) : r.2.length ≤ text.length := by
  unfold scanScalar at h
  split at h
  · cases h
  · rename_i c rest
    split at h
    · split at h
      · rename_i codes after hcodes
        have := scanChars_shortens _ _ _ hcodes
        rw [← Except.ok.inj h, List.length_cons]
        exact Nat.le_succ_of_le this
      · cases h
    · have hshort := readPlain_shortens c rest
      split at h
      · rename_i heq
        rw [← Except.ok.inj h]
        exact hshort _ heq
      · rename_i heq
        rw [← Except.ok.inj h]
        exact hshort _ heq
      · rename_i heq
        rw [← Except.ok.inj h]
        exact hshort _ heq
      · rename_i heq
        split at h
        · rw [← Except.ok.inj h]
          exact hshort _ heq
        · cases h
      · cases h

/-- Whether a reader's fuel was enough for a text of so many characters. -/
structure Done {α : Type} (answer : Except Fault (α × List Char)) (length : Nat) : Prop where
  unstuck : answer ≠ .error .stuck
  shortens : ∀ r, answer = .ok r → r.2.length ≤ length

theorem Done.mono {α : Type} {answer : Except Fault (α × List Char)} {m n : Nat}
    (h : Done answer m) (hle : m ≤ n) : Done answer n :=
  ⟨h.unstuck, fun r hr => Nat.le_trans (h.shortens r hr) hle⟩

theorem done_error {α : Type} {fault : Fault} (h : fault ≠ .stuck) (n : Nat) :
    Done (.error fault : Except Fault (α × List Char)) n :=
  ⟨fun heq => h (Except.error.inj heq), fun _ hr => (by cases hr)⟩

theorem done_ok {α : Type} {a : α} {rest : List Char} {n : Nat} (h : rest.length ≤ n) :
    Done (.ok (a, rest)) n :=
  ⟨fun heq => (by cases heq), fun s hs => by rw [← Except.ok.inj hs]; exact h⟩

theorem Done.bind {α β : Type} {answer : Except Fault (α × List Char)} {m n : Nat}
    (h : Done answer m) {next : α × List Char → Except Fault (β × List Char)}
    (hnext : ∀ r, r.2.length ≤ m → Done (next r) n) : Done (answer >>= next) n := by
  cases heq : answer with
  | error fault => exact done_error (fun hstuck => h.unstuck (by rw [heq, hstuck])) n
  | ok r => exact hnext r (h.shortens r heq)

theorem done_scalar (text : List Char) : Done (scanScalar digits text) text.length := by
  cases h : scanScalar digits text with
  | ok r => exact done_ok (scanScalar_shortens h)
  | error fault => exact done_error (scanScalar_fault h).2 _

variable {limits : Limits}

theorem Done.spend {α : Type} {answer : Except Fault (α × List Char)} {n : Nat} (h : Done answer n)
    (levels : Nat) (depth : Option Nat) : Done (JsonLoads.spend levels answer depth) n := by
  unfold JsonLoads.spend
  split
  · exact h
  · exact done_error (by decide) n

theorem done_fail {α : Type} {fault : Fault} (h : fault ≠ .stuck) (depth : Option Nat) (n : Nat) :
    Done (fail limits fault depth : Except Fault (α × List Char)) n := (done_error h n).spend _ _

theorem pairsHook_ne_stuck (members : List (List Nat × Loaded)) (depth : Option Nat) :
    pairsHook limits members depth ≠ .error .stuck := by
  unfold pairsHook fail spend
  split
  · split
    · simp
    · split <;> simp
  · simp

/-- The hook reads nothing. -/
theorem done_hook (members : List (List Nat × Loaded)) (depth : Option Nat) {rest : List Char}
    {n : Nat} (h : rest.length ≤ n) :
    Done (do let object ← pairsHook limits members depth; .ok (object, rest)) n := by
  cases heq : pairsHook limits members depth with
  | error fault =>
      exact done_error (fun hstuck => pairsHook_ne_stuck members depth (by rw [heq, hstuck])) n
  | ok object => exact done_ok h

/-- The answer after a value, as in `Limited.rest`. -/
theorem Done.rest {α : Type} {close : Char} {rest : List Char} {n : Nat}
    {last : Except Fault (α × List Char)} (hlast : last ≠ .error .stuck)
    (hlast' : ∀ r, last = .ok r → r.2 = rest.tail) {more : Except Fault (α × List Char)}
    (hmore : rest.head? = some ',' → Done more rest.length) (hrest : rest.length ≤ n)
    (depth : Option Nat) :
    Done (if rest.head? = some close then last
      else if rest.head? = some ',' then more else fail limits .malformed depth) n := by
  split
  · refine ⟨hlast, fun r hr => ?_⟩
    rw [hlast' r hr, List.length_tail]
    omega
  · split
    · rename_i hcomma
      exact (hmore hcomma).mono hrest
    · exact done_fail (by decide) depth n

variable (limits) in
/-- **The fuel is enough.** A value takes two rounds for each character. -/
theorem scan_done (n : Nat) :
    (∀ depth text, 2 * text.length < n → Done (scanValue limits n depth text) text.length)
    ∧ (∀ depth text, 2 * text.length + 1 < n → Done (scanItems limits n depth text) text.length)
    ∧ ∀ depth text, 2 * text.length + 1 < n →
        Done (scanMembers limits n depth text) text.length := by
  induction n with
  | zero => exact ⟨fun _ _ h => by omega, fun _ _ h => by omega, fun _ _ h => by omega⟩
  | succ n ih =>
      obtain ⟨hvalue, hitems, hmembers⟩ := ih
      refine ⟨fun depth text hn => ?_, fun depth text hn => ?_, fun depth text hn => ?_⟩
      · rw [scanValue]
        -- the fuel is two for each character, and every branch reads at least one
        split
        · rename_i hhead
          have htail := tail_length_lt hhead
          have hskip := skip_length_le text.tail
          cases enter depth with
          | none => exact done_error (by decide) _
          | some depth =>
              dsimp only
              split
              · exact done_ok (by rw [List.length_tail]; omega)
              · exact (hitems depth text.tail (by omega)).bind fun r hr => done_ok (by omega)
        · split
          · rename_i hhead
            have htail := tail_length_lt hhead
            have hskip := skip_length_le text.tail
            cases enter depth with
            | none => exact done_error (by decide) _
            | some depth =>
                dsimp only
                split
                · exact done_hook [] depth (by rw [List.length_tail]; omega)
                · exact (hmembers depth text.tail (by omega)).bind fun r hr =>
                    done_hook r.1 depth (by omega)
          · exact (done_scalar text).spend _ _
      · have hskip := skip_length_le text
        rw [scanItems]
        refine (hvalue depth (skip text) (by omega)).bind fun r hr => ?_
        have hrest := skip_length_le r.2
        refine Done.rest (by simp) (fun s hs => by rw [← Except.ok.inj hs]) (fun hcomma => ?_)
          (by omega) depth
        have htail := tail_length_lt hcomma
        exact (hitems depth _ (by omega)).bind fun rs hrs => done_ok (by omega)
      · rw [scanMembers]
        cases hkey : scanKey text with
        | none => exact done_fail (by decide) _ _
        | some key =>
            have hshort := scanKey_shortens text key hkey
            have hskip := skip_length_le key.2
            refine (hvalue depth (skip key.2) (by omega)).bind fun r hr => ?_
            have hrest := skip_length_le r.2
            refine Done.rest (by simp) (fun s hs => by rw [← Except.ok.inj hs]) (fun hcomma => ?_)
              (by omega) depth
            have htail := tail_length_lt hcomma
            exact (hmembers depth _ (by omega)).bind fun rs hrs => done_ok (by omega)

theorem loads_ne_stuck (depth : Option Nat) (text : List Char) :
    loads limits depth text ≠ .error .stuck := by
  have hskip := skip_length_le text
  have hdone := (scan_done limits (2 * text.length + 1)).1 depth (skip text) (by omega)
  have hfail : ∀ fault, fault ≠ .stuck → (fail limits fault depth : Except Fault Loaded)
      ≠ .error .stuck := fun fault hfault => by
    unfold fail spend
    split <;> simp [hfault]
  unfold loads
  cases heq : scanValue limits (2 * text.length + 1) depth (skip text) with
  | error fault =>
      cases fault with
      | stuck => exact absurd heq hdone.unstuck
      | noValue => exact hfail _ (by decide)
      | unread | malformed | extraData | longInteger | duplicateKey | recursion => simp [conclude]
  | ok r =>
      simp only [conclude]
      split
      · simp
      · exact hfail _ (by decide)

/-! ## Keys -/

theorem scanScalar_ne_object {text : List Char} {members : List (List Nat × Loaded)}
    {rest : List Char} : scanScalar digits text ≠ .ok (.object members, rest) := by
  intro h
  unfold scanScalar at h
  split at h
  · cases h
  · split at h
    · split at h <;> cases h
    · split at h
      · cases h
      · cases h
      · cases h
      · split at h <;> cases h
      · cases h

theorem spend_ok {α : Type} {levels : Nat} {answer : Except Fault α} {depth : Option Nat} {a : α}
    (h : spend levels answer depth = .ok a) : affords levels depth = true ∧ answer = .ok a := by
  unfold spend at h
  split at h
  · rename_i hlevels
    exact ⟨hlevels, h⟩
  · cases h

theorem fail_ne_ok {α : Type} {fault : Fault} {depth : Option Nat} {a : α} :
    fail limits fault depth ≠ .ok a := fun h => by cases (spend_ok h).2

theorem pairsHook_ok {members : List (List Nat × Loaded)} {depth : Option Nat} {object : Loaded}
    (h : pairsHook limits members depth = .ok object) :
    affords limits.hook depth = true ∧ (members.map Prod.fst).Nodup ∧ object = .object members := by
  unfold pairsHook at h
  split at h
  · rename_i hlevels
    split at h
    · rename_i hnodup
      exact ⟨hlevels, hnodup, (Except.ok.inj h).symm⟩
    · exact absurd h fail_ne_ok
  · cases h

theorem bind_ok {α β : Type} {x : Except Fault α} {f : α → Except Fault β} {b : β}
    (h : (x >>= f) = .ok b) : ∃ a, x = .ok a ∧ f a = .ok b := by
  cases x with
  | error e => cases h
  | ok a => exact ⟨a, rfl, h⟩

/-- What is loaded was scanned, with nothing but blanks after it. -/
theorem loads_ok {depth : Option Nat} {text : List Char} {v : Loaded}
    (h : loads limits depth text = .ok v) :
    ∃ rest, scanValue limits (2 * text.length + 1) depth (skip text) = .ok (v, rest) := by
  unfold loads at h
  cases hscan : scanValue limits (2 * text.length + 1) depth (skip text) with
  | error fault =>
      rw [hscan] at h
      cases fault with
      | noValue => exact absurd h fail_ne_ok
      | unread | malformed | extraData | longInteger | duplicateKey | recursion | stuck => cases h
  | ok r =>
      rw [hscan] at h
      unfold conclude at h
      dsimp only at h
      split at h
      · rw [← Except.ok.inj h]
        exact ⟨r.2, rfl⟩
      · exact absurd h fail_ne_ok

/-- No key of a loaded object stands twice. -/
theorem loads_nodup {depth : Option Nat} {text : List Char} {members : List (List Nat × Loaded)}
    (h : loads limits depth text = .ok (.object members)) : (members.map Prod.fst).Nodup := by
  have hhook : ∀ {read : List (List Nat × Loaded)} {depth : Option Nat} {rest : List Char} {r},
      (do let object ← pairsHook limits read depth; .ok (object, rest)) = .ok r →
      r.1 = .object members → (members.map Prod.fst).Nodup := by
    intro read depth rest r hread hr
    obtain ⟨object, hobject, heq⟩ := bind_ok hread
    obtain ⟨-, hnodup, hmembers⟩ := pairsHook_ok hobject
    rw [← Except.ok.inj heq, hmembers] at hr
    rwa [← Loaded.object.inj hr]
  obtain ⟨rest, hscan⟩ := loads_ok h
  rw [scanValue] at hscan
  split at hscan
  · split at hscan
    · cases hscan
    · split at hscan
      · cases hscan
      · obtain ⟨items, -, heq⟩ := bind_ok hscan
        cases heq
  · split at hscan
    · split at hscan
      · cases hscan
      · split at hscan
        · exact hhook hscan rfl
        · obtain ⟨r, -, hread⟩ := bind_ok hscan
          exact hhook hread rfl
    · exact absurd (spend_ok hscan).2 scanScalar_ne_object

/-! ## What the plain reader reads

`JsonText.read` knows no limits and no lone surrogates. A value of its that keeps to the limits
is loaded as it is.
-/

/-- The code points of a text. -/
def codes (s : String) : List Nat := s.toList.map Char.toNat

mutual

def embed : JsonValue → Loaded
  | .null => .null
  | .bool b => .bool b
  | .int n => .int n
  | .real text => .real text
  | .string s => .string (codes s)
  | .array items => .array (embedItems items)
  | .object members => .object (embedMembers members)

def embedItems : List JsonValue → List Loaded
  | [] => []
  | v :: rest => embed v :: embedItems rest

def embedMembers : List (String × JsonValue) → List (List Nat × Loaded)
  | [] => []
  | (key, v) :: rest => (codes key, embed v) :: embedMembers rest

end

section Within

variable (limits : Limits)

mutual

/-- A value that may be loaded from so many levels above the limit. -/
def Within : Nat → JsonValue → Prop
  | _, .null | _, .bool _ | _, .string _ => True
  | depth, .real text => constantLevels limits text ≤ depth
  | _, .int n => ∀ limit ∈ limits.digits, 0 < limit ∧ n.natAbs < 10 ^ limit
  | 0, .array _ | 0, .object _ => False
  | depth + 1, .array items => WithinItems depth items
  | depth + 1, .object members =>
      limits.hook ≤ depth ∧ (members.map Prod.fst).Nodup ∧ WithinMembers depth members

def WithinItems : Nat → List JsonValue → Prop
  | _, [] => True
  | depth, v :: rest => Within depth v ∧ WithinItems depth rest

def WithinMembers : Nat → List (String × JsonValue) → Prop
  | _, [] => True
  | depth, (_, v) :: rest => Within depth v ∧ WithinMembers depth rest

end

end Within

theorem hexValue_lt {c : Char} {n : Nat} (h : hexValue c = some n) : n < 16 := by
  have hle : ∀ a b : Char, a ≤ b → a.toNat ≤ b.toNat := fun a b hab => UInt32.le_iff_toNat_le.mp hab
  unfold hexValue at h
  split at h
  · rename_i hc
    have : c.toNat ≤ 57 := hle c '9' hc.2
    have := Option.some.inj h
    omega
  · split at h
    · rename_i hc
      have : c.toNat ≤ 102 := hle c 'f' hc.2
      have := Option.some.inj h
      omega
    · split at h
      · rename_i hc
        have : c.toNat ≤ 70 := hle c 'F' hc.2
        have := Option.some.inj h
        omega
      · cases h

theorem readHex4_lt {text : List Char} {r : Nat × List Char} (h : readHex4 text = some r) :
    r.1 < 65536 := by
  unfold readHex4 at h
  split at h
  · simp only [Option.bind_eq_bind, Option.bind_eq_some_iff, Option.some.injEq] at h
    obtain ⟨a, ha, b, hb, c, hc, d, hd, rfl⟩ := h
    have := hexValue_lt ha
    have := hexValue_lt hb
    have := hexValue_lt hc
    have := hexValue_lt hd
    dsimp only
    omega
  · cases h

theorem ofNat_toNat {n : Nat} (h : n < 0xD800 ∨ 0xDFFF < n ∧ n < 0x110000) :
    (Char.ofNat n).toNat = n := by
  have hvalid : n.isValidChar := h
  rw [Char.ofNat, dif_pos hvalid]
  rfl

theorem scanUnicode_read {text : List Char} {r : Char × List Char} (h : readUnicode text = some r) :
    scanUnicode text = some (r.1.toNat, r.2) := by
  unfold readUnicode at h
  unfold scanUnicode
  simp only [Option.bind_eq_bind, Option.bind_eq_some_iff] at h
  obtain ⟨first, hfirst, h⟩ := h
  have hlt := readHex4_lt hfirst
  rw [hfirst]
  simp only [Option.bind_eq_bind, Option.bind_some]
  split at h
  · rename_i hplain
    have hn : first.1 < 0xD800 ∨ 0xDBFF < first.1 := by omega
    rw [if_pos hn, ← Option.some.inj h, ofNat_toNat (by omega)]
  · rename_i hplain
    split at h
    · cases h
    · rename_i hhigh
      have hn : ¬ (first.1 < 0xD800 ∨ 0xDBFF < first.1) := by omega
      rw [if_neg hn]
      split at h
      · rename_i more heq
        simp only [Option.bind_eq_some_iff] at h
        obtain ⟨second, hsecond, h⟩ := h
        have hlt' := readHex4_lt hsecond
        simp only [heq, hsecond, Option.bind_some]
        split at h
        · cases h
        · rename_i hlow
          have hm : 0xDC00 ≤ second.1 ∧ second.1 ≤ 0xDFFF := by omega
          rw [if_pos hm, ← Option.some.inj h, ofNat_toNat (by omega)]
      · cases h

theorem scanChar_read {text : List Char} {r : Char × List Char} (h : readChar text = some r) :
    scanChar text = some (r.1.toNat, r.2) := by
  cases text with
  | nil => cases h
  | cons c rest =>
      simp only [readChar] at h
      simp only [scanChar]
      by_cases hescape : c = '\\'
      · rw [if_pos hescape] at h ⊢
        cases rest with
        | nil => cases h
        | cons letter rest =>
            by_cases hunicode : letter = 'u'
            · simp only [if_pos hunicode] at h ⊢
              exact scanUnicode_read h
            · simp only [if_neg hunicode] at h ⊢
              obtain ⟨d, hd, rfl⟩ := Option.map_eq_some_iff.mp h
              rw [hd]
              rfl
      · rw [if_neg hescape] at h ⊢
        by_cases hplain : c = '"' ∨ c.toNat < 32
        · rw [if_pos hplain] at h
          cases h
        · rw [if_neg hplain] at h ⊢
          rw [← Option.some.inj h]

theorem scanChars_read {n : Nat} {text : List Char} {r : List Char × List Char}
    (h : readChars n text = some r) : scanChars n text = some (r.1.map Char.toNat, r.2) := by
  induction n generalizing text r with
  | zero => cases h
  | succ n ih =>
      unfold readChars at h
      unfold scanChars
      split at h
      · rename_i hquote
        rw [if_pos hquote, ← Option.some.inj h]
        rfl
      · rename_i hquote
        simp only [Option.bind_eq_bind, Option.bind_eq_some_iff] at h
        obtain ⟨c, hc, cs, hcs, h⟩ := h
        rw [if_neg hquote, scanChar_read hc]
        simp only [Option.bind_eq_bind, Option.bind_some]
        rw [ih hcs, ← Option.some.inj h]
        rfl

/-- The digits of an integer are no more than its size asks for. -/
theorem isNatText_length {text : List Char} (h : isNatText text = true) {limit : Nat}
    (hpos : 0 < limit) (hlt : Nat.ofDigitChars 10 text 0 < 10 ^ limit) : text.length ≤ limit := by
  cases text with
  | nil => exact Nat.zero_le _
  | cons c rest =>
      unfold isNatText at h
      rw [Bool.and_eq_true, Bool.or_eq_true, List.all_eq_true] at h
      obtain ⟨hdigits, hzero | hempty⟩ := h
      · have hc := hdigits c List.mem_cons_self
        have hle : ∀ a b : Char, a ≤ b → a.toNat ≤ b.toNat :=
          fun a b hab => UInt32.le_iff_toNat_le.mp hab
        have hlow : 48 ≤ c.toNat := by
          simp only [Char.isDigit, Bool.and_eq_true, decide_eq_true_eq] at hc
          exact hle '0' c hc.1
        have hne : c.toNat ≠ 48 := fun heq => by
          rw [bne_iff_ne] at hzero
          exact hzero (Char.ext (UInt32.toNat_inj.mp heq))
        have hfirst : 10 ^ rest.length * 1 ≤ 10 ^ rest.length * (c.toNat - 48) :=
          Nat.mul_le_mul_left _ (by omega)
        have hvalue := @Nat.ofDigitChars_eq_ofDigitChars_zero rest (c.toNat - 48)
        rw [Nat.ofDigitChars_cons, Nat.mul_zero, Nat.zero_add] at hlt
        have hpow : 10 ^ rest.length < 10 ^ limit := by
          have hchar : '0'.toNat = 48 := rfl
          rw [hchar, hvalue] at hlt
          omega
        rw [List.length_cons]
        exact (Nat.pow_lt_pow_iff_right (by decide)).mp hpow
      · rw [List.isEmpty_iff.mp hempty]
        exact hpos

theorem scanScalar_number {depth : Nat} {text : List Char} {r : JsonValue × List Char} {n : Int}
    (hr : r.1 = .int n) (h : readNumber text = some r) (hwithin : Within limits depth (.int n)) :
    limits.digits.all ((unsigned (text.takeWhile isNumberChar)).length ≤ ·) = true := by
  rw [Option.all_eq_true]
  intro limit hlimit
  have hbound : ∀ limit ∈ limits.digits, 0 < limit ∧ n.natAbs < 10 ^ limit := by
    cases depth <;> exact hwithin
  obtain ⟨hpos, hlt⟩ := hbound limit hlimit
  rw [decide_eq_true_eq]
  unfold readNumber at h
  dsimp only at h
  split at h
  · rename_i hint
    rw [← Option.some.inj h] at hr
    have hn : intOf (text.takeWhile isNumberChar) = n := JsonValue.int.inj hr
    refine isNatText_length hint hpos ?_
    have habs : Nat.ofDigitChars 10 (unsigned (text.takeWhile isNumberChar)) 0 = n.natAbs := by
      rw [← hn]
      unfold intOf unsigned
      split
      · rw [Int.natAbs_neg, Int.natAbs_natCast]
      · rw [Int.natAbs_natCast]
    rw [habs]
    exact hlt
  · split at h
    · rw [← Option.some.inj h] at hr
      cases hr
    · cases h

/-- A word is no integer and has no parts; a number is read as one. -/
theorem readPlain_cases {c : Char} {rest : List Char} {r : JsonValue × List Char}
    (h : readPlain c rest = some r) :
    r.1 = .null ∨ (∃ b, r.1 = .bool b) ∨ (∃ text, r.1 = .real text)
      ∨ ∃ n, r.1 = .int n ∧ readNumber (c :: rest) = some r := by
  have hword : ∀ {word v}, readWord word v rest = some r → r.1 = v := by
    intro word v hv
    unfold readWord at hv
    split at hv
    · rw [← Option.some.inj hv]
    · cases hv
  have hnumber : ∀ {r}, readNumber (c :: rest) = some r → (∃ text, r.1 = .real text)
      ∨ ∃ n, r.1 = .int n := by
    intro r hr
    unfold readNumber at hr
    dsimp only at hr
    split at hr
    · rw [← Option.some.inj hr]
      exact Or.inr ⟨_, rfl⟩
    · split at hr
      · rw [← Option.some.inj hr]
        exact Or.inl ⟨_, rfl⟩
      · cases hr
  unfold readPlain at h
  split at h
  · exact Or.inl (hword h)
  · split at h
    · exact Or.inr (Or.inl ⟨_, hword h⟩)
    · split at h
      · exact Or.inr (Or.inl ⟨_, hword h⟩)
      · split at h
        · exact Or.inr (Or.inr (Or.inl ⟨_, hword h⟩))
        · split at h
          · exact Or.inr (Or.inr (Or.inl ⟨_, hword h⟩))
          · split at h
            · exact Or.inr (Or.inr (Or.inl ⟨_, hword h⟩))
            · rcases hnumber h with hreal | ⟨n, hn⟩
              · exact Or.inr (Or.inr (Or.inl hreal))
              · exact Or.inr (Or.inr (Or.inr ⟨n, hn, h⟩))

/-- A string, a word or a number that is read is scanned, with the levels there are. -/
theorem scanScalar_read {n depth : Nat} {c : Char} {rest : List Char}
    {r : JsonValue × List Char} (harray : c ≠ '[') (hobject : c ≠ '\x7b')
    (h : readValue (n + 1) (c :: rest) = some r) (hwithin : Within limits depth r.1) :
    scanScalar limits.digits (c :: rest) = .ok (embed r.1, r.2)
    ∧ scalarLevels limits (.ok (embed r.1, r.2)) ≤ depth := by
  unfold readValue at h
  rw [if_neg harray, if_neg hobject] at h
  unfold scanScalar
  dsimp only
  split at h
  · rename_i hquote
    rw [if_pos hquote]
    obtain ⟨s, hs, rfl⟩ := Option.map_eq_some_iff.mp h
    rw [scanChars_read hs]
    dsimp only [embed, codes]
    rw [String.toList_ofList]
    exact ⟨rfl, Nat.zero_le _⟩
  · rename_i hquote
    have hplain : readPlain c rest = some r := h
    rw [if_neg hquote, hplain]
    obtain ⟨v, after⟩ := r
    rcases readPlain_cases hplain with hv | ⟨b, hv⟩ | ⟨text, hv⟩ | ⟨i, hv, hnumber⟩
    · dsimp only at hv
      subst hv
      exact ⟨rfl, Nat.zero_le _⟩
    · dsimp only at hv
      subst hv
      exact ⟨rfl, Nat.zero_le _⟩
    · dsimp only at hv
      subst hv
      have hlevels : constantLevels limits text ≤ depth := by cases depth <;> exact hwithin
      exact ⟨rfl, hlevels⟩
    · dsimp only at hv
      subst hv
      dsimp only
      rw [if_pos (scanScalar_number rfl hnumber hwithin)]
      exact ⟨rfl, Nat.zero_le _⟩

theorem codes_inj {s t : String} (h : codes s = codes t) : s = t :=
  String.toList_inj.mp (List.map_injective_iff.mpr (fun _ _ hab =>
    Char.ext (UInt32.toNat_inj.mp hab)) h)

theorem embedMembers_keys (members : List (String × JsonValue)) :
    (embedMembers members).map Prod.fst = (members.map Prod.fst).map codes := by
  induction members with
  | nil => rfl
  | cons m rest ih =>
      obtain ⟨key, v⟩ := m
      rw [embedMembers, List.map_cons, List.map_cons, List.map_cons, ih]

theorem embedMembers_nodup {members : List (String × JsonValue)} (h : (members.map Prod.fst).Nodup) :
    ((embedMembers members).map Prod.fst).Nodup := by
  rw [embedMembers_keys]
  exact h.map fun _ _ => codes_inj

theorem scanKey_read {text : List Char} {key rest : List Char} (hhead : (skip text).head? = some '"')
    (hkey : readChars (text.length + 1) (skip text).tail = some (key, rest))
    (hcolon : (skip rest).head? = some ':') :
    scanKey text = some (codes (String.ofList key), (skip rest).tail) := by
  rw [scanKey, if_pos hhead, scanChars_read hkey]
  simp only [hcolon, ↓reduceIte, codes, String.toList_ofList]

theorem pairsHook_within {members : List (List Nat × Loaded)} {depth : Nat}
    (hlevels : limits.hook ≤ depth) (hnodup : (members.map Prod.fst).Nodup) :
    pairsHook limits members (some depth) = .ok (.object members) := by
  rw [pairsHook, if_pos (affords_some.mpr hlevels), if_pos hnodup]

/-- **What the plain reader reads is loaded**, from as many levels above the limit as it has. -/
theorem scan_read (n : Nat) :
    (∀ depth text r, readValue n text = some r → Within limits depth r.1 →
      scanValue limits n (some depth) text = .ok (embed r.1, r.2))
    ∧ (∀ depth text r, readItems n text = some r → WithinItems limits depth r.1 →
      scanItems limits n (some depth) text = .ok (embedItems r.1, r.2))
    ∧ ∀ depth text r, readMembers n text = some r → WithinMembers limits depth r.1 →
      scanMembers limits n (some depth) text = .ok (embedMembers r.1, r.2) := by
  -- the fuel is that of the reader; the levels are told by `Within`
  induction n with
  | zero => exact ⟨fun _ _ _ h => (by cases h), fun _ _ _ h => (by cases h), fun _ _ _ h => (by cases h)⟩
  | succ n ih =>
      obtain ⟨hvalue, hitems, hmembers⟩ := ih
      refine ⟨fun depth text r h hwithin => ?_, fun depth text r h hwithin => ?_,
        fun depth text r h hwithin => ?_⟩
      · cases text with
        | nil => cases h
        | cons c rest =>
            rw [scanValue, List.head?_cons, List.tail_cons]
            -- an array, an object, or a scalar
            by_cases harray : c = '['
            · subst harray
              unfold readValue at h
              rw [if_neg (by decide), if_pos rfl] at h
              rw [if_pos rfl]
              split at h
              · rename_i hempty
                rw [← Option.some.inj h] at hwithin ⊢
                cases depth with
                | zero => exact hwithin.elim
                | succ depth =>
                    simp only [enter, if_pos hempty]
                    rfl
              · rename_i hempty
                obtain ⟨items, hread, rfl⟩ := Option.map_eq_some_iff.mp h
                cases depth with
                | zero => exact hwithin.elim
                | succ depth =>
                    simp only [enter, if_neg hempty, hitems depth rest items hread hwithin]
                    rfl
            · by_cases hobject : c = '\x7b'
              · subst hobject
                unfold readValue at h
                rw [if_neg (by decide), if_neg (by decide), if_pos rfl] at h
                rw [if_neg (by decide), if_pos rfl]
                split at h
                · rename_i hempty
                  rw [← Option.some.inj h] at hwithin ⊢
                  cases depth with
                  | zero => exact hwithin.elim
                  | succ depth =>
                      have hhook := @pairsHook_within limits [] depth hwithin.1 List.nodup_nil
                      simp only [enter, if_pos hempty, hhook]
                      rfl
                · rename_i hempty
                  obtain ⟨members, hread, rfl⟩ := Option.map_eq_some_iff.mp h
                  cases depth with
                  | zero => exact hwithin.elim
                  | succ depth =>
                      have hkeys := embedMembers_nodup hwithin.2.1
                      have hmembers := hmembers depth rest members hread hwithin.2.2
                      simp only [enter, if_neg hempty, hmembers]
                      -- `object_pairs_hook` runs at the depth of its object
                      change (pairsHook limits (embedMembers members.1) (some depth) >>= _) = _
                      rw [pairsHook_within hwithin.1 hkeys]
                      rfl
              · have ha : some c ≠ some '[' := fun h => harray (Option.some.inj h)
                have ho : some c ≠ some '\x7b' := fun h => hobject (Option.some.inj h)
                have hscalar := scanScalar_read harray hobject h hwithin
                rw [if_neg ha, if_neg ho, hscalar.1, spend, if_pos (affords_some.mpr hscalar.2)]
      -- the items of an array: a value, then its end or a comma
      · unfold readItems at h
        simp only [Option.bind_eq_bind, Option.bind_eq_some_iff] at h
        obtain ⟨v, hv, h⟩ := h
        rw [scanItems]
        split at h
        · rename_i hend
          rw [← Option.some.inj h] at hwithin ⊢
          rw [hvalue depth _ v hv hwithin.1]
          change (if _ then _ else _) = _
          rw [if_pos hend]
          rfl
        · rename_i hend
          split at h
          · rename_i hcomma
            rw [Option.bind_eq_some_iff] at h
            obtain ⟨vs, hvs, h⟩ := h
            rw [← Option.some.inj h] at hwithin ⊢
            rw [hvalue depth _ v hv hwithin.1]
            change (if _ then _ else if _ then _ else _) = _
            rw [if_neg hend, if_pos hcomma, hitems depth _ vs hvs hwithin.2]
            rfl
          · cases h
      -- the members of an object: a key, a colon, a value, then its end or a comma
      · unfold readMembers at h
        split at h
        · cases h
        · rename_i hquote
          simp only [Option.bind_eq_bind, Option.bind_eq_some_iff] at h
          obtain ⟨key, hkey, h⟩ := h
          split at h
          · cases h
          · rename_i hcolon
            rw [Option.bind_eq_some_iff] at h
            obtain ⟨v, hv, h⟩ := h
            rw [scanMembers, scanKey_read (not_not.mp hquote) hkey (not_not.mp hcolon)]
            dsimp only
            split at h
            · rename_i hend
              rw [← Option.some.inj h] at hwithin ⊢
              rw [hvalue depth _ v hv hwithin.1]
              change (if _ then _ else _) = _
              rw [if_pos hend]
              rfl
            · rename_i hend
              split at h
              · rename_i hcomma
                rw [Option.bind_eq_some_iff] at h
                obtain ⟨vs, hvs, h⟩ := h
                rw [← Option.some.inj h] at hwithin ⊢
                rw [hvalue depth _ v hv hwithin.1]
                change (if _ then _ else if _ then _ else _) = _
                rw [if_neg hend, if_pos hcomma, hmembers depth _ vs hvs hwithin.2]
                rfl
              · cases h

/-- **What is written is loaded.** -/
theorem loads_write {escape : Char → List Char} (hescape : Readable escape)
    {v : JsonValue} (h : Writable v) {depth : Nat} (hwithin : Within limits depth v) :
    loads limits (some depth) (write escape v) = .ok (embed v) := by
  have hread := readValue_write hescape v h (2 * (write escape v).length + 1) []
    (by omega) ends_nil
  have hskip := @skip_write escape _ h []
  rw [List.append_nil] at hread hskip
  rw [loads, hskip, (scan_read _).1 depth _ _ hread hwithin]
  rfl

/-! ## How high a value is -/

section Height

variable (limits : Limits)

mutual

/-- The levels that a value was loaded with. -/
def Loaded.height : Loaded → Nat
  | .array items => heightItems items + 1
  | .object members => max limits.hook (heightMembers members) + 1
  | .real text => constantLevels limits text
  | .null | .bool _ | .int _ | .string _ => 0

def heightItems : List Loaded → Nat
  | [] => 0
  | v :: rest => max v.height (heightItems rest)

def heightMembers : List (List Nat × Loaded) → Nat
  | [] => 0
  | (_, v) :: rest => max v.height (heightMembers rest)

end

end Height

theorem scanScalar_height {text : List Char} {r : Loaded × List Char}
    (h : scanScalar limits.digits text = .ok r) :
    r.1.height limits = scalarLevels limits (.ok r) := by
  unfold scanScalar at h
  split at h
  · cases h
  · split at h
    · split at h
      · rw [← Except.ok.inj h]
        rfl
      · cases h
    · split at h
      · rw [← Except.ok.inj h]
        rfl
      · rw [← Except.ok.inj h]
        rfl
      · rw [← Except.ok.inj h]
        rfl
      · split at h
        · rw [← Except.ok.inj h]
          rfl
        · cases h
      · cases h

/-- The object of a hook that was called one level down. -/
theorem pairsHook_height {members : List (List Nat × Loaded)} {depth : Nat} {rest : List Char}
    {r : Loaded × List Char} (hmembers : heightMembers limits members ≤ depth)
    (h : (do let object ← pairsHook limits members (some depth); .ok (object, rest)) = .ok r) :
    r.1.height limits ≤ depth + 1 := by
  obtain ⟨object, hobject, heq⟩ := bind_ok h
  obtain ⟨hlevels, -, hvalue⟩ := pairsHook_ok hobject
  rw [← Except.ok.inj heq, hvalue]
  exact Nat.succ_le_succ (Nat.max_le.mpr ⟨affords_some.mp hlevels, hmembers⟩)

/-- What is loaded is no higher than the limit. -/
theorem scan_height (n : Nat) :
    (∀ depth text r, scanValue limits n (some depth) text = .ok r → r.1.height limits ≤ depth)
    ∧ (∀ depth text r, scanItems limits n (some depth) text = .ok r →
        heightItems limits r.1 ≤ depth)
    ∧ ∀ depth text r, scanMembers limits n (some depth) text = .ok r →
        heightMembers limits r.1 ≤ depth := by
  induction n with
  | zero => exact ⟨fun _ _ _ h => (by cases h), fun _ _ _ h => (by cases h), fun _ _ _ h => (by cases h)⟩
  | succ n ih =>
      obtain ⟨hvalue, hitems, hmembers⟩ := ih
      refine ⟨fun depth text r h => ?_, fun depth text r h => ?_, fun depth text r h => ?_⟩
      · rw [scanValue] at h
        -- an array, an object, or a scalar; each takes its level before it reads on
        split at h
        · cases depth with
          | zero => cases h
          | succ depth =>
              simp only [enter] at h
              split at h
              · rw [← Except.ok.inj h]
                exact Nat.succ_le_succ (Nat.zero_le _)
              · obtain ⟨items, hread, h⟩ := bind_ok h
                rw [← Except.ok.inj h]
                exact Nat.succ_le_succ (hitems depth _ items hread)
        · split at h
          · cases depth with
            | zero => cases h
            | succ depth =>
                simp only [enter] at h
                split at h
                · exact pairsHook_height (Nat.zero_le _) h
                · obtain ⟨members, hread, h⟩ := bind_ok h
                  exact pairsHook_height (hmembers depth _ members hread) h
          · obtain ⟨hlevels, hscalar⟩ := spend_ok h
            rw [scanScalar_height hscalar, ← hscalar]
            exact affords_some.mp hlevels
      · rw [scanItems] at h
        obtain ⟨v, hv, h⟩ := bind_ok h
        have hle := hvalue depth _ v hv
        split at h
        · rw [← Except.ok.inj h]
          exact Nat.max_le.mpr ⟨hle, Nat.zero_le _⟩
        · split at h
          · obtain ⟨vs, hvs, h⟩ := bind_ok h
            rw [← Except.ok.inj h]
            exact Nat.max_le.mpr ⟨hle, hitems depth _ vs hvs⟩
          · exact absurd h fail_ne_ok
      · rw [scanMembers] at h
        split at h
        · exact absurd h fail_ne_ok
        · obtain ⟨v, hv, h⟩ := bind_ok h
          have hle := hvalue depth _ v hv
          split at h
          · rw [← Except.ok.inj h]
            exact Nat.max_le.mpr ⟨hle, Nat.zero_le _⟩
          · split at h
            · obtain ⟨vs, hvs, h⟩ := bind_ok h
              rw [← Except.ok.inj h]
              exact Nat.max_le.mpr ⟨hle, hmembers depth _ vs hvs⟩
            · exact absurd h fail_ne_ok

/-- **A value that is loaded under one limit** is loaded under another, unless it is higher. -/
theorem loads_depth {depth : Nat} {text : List Char} {v : Loaded}
    (h : loads limits (some depth) text = .ok v) (limit : Nat) :
    (v.height limits ≤ limit ∧ loads limits (some limit) text = .ok v)
      ∨ (loads limits (some limit) text = .error .recursion) := by
  have hlimits := (loads_limited limits text).limited
  have hnone : loads limits none text = .ok v := by
    rw [hlimits depth] at h
    split at h
    · cases h
    · exact h
  by_cases hdeep : limit < nesting limits text
  · exact Or.inr (by rw [hlimits limit, if_pos hdeep])
  · have hload : loads limits (some limit) text = .ok v := by
      rw [hlimits limit, if_neg hdeep, hnone]
    obtain ⟨rest, hr⟩ := loads_ok hload
    exact Or.inl ⟨(scan_height _).1 limit _ _ hr, hload⟩

end JsonLoads
