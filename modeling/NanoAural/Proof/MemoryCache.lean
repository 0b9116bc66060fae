import Mathlib.Algebra.Order.BigOperators.Group.List
import NanoAural.ControlFoley.MemoryStore
import NanoAural.Proof.DigestSpellings

/-!
# The memory cache is a bounded map

What each method of the memory store can do, as one relation between the state
before, how the call ended and the state after. The byte counter, the limits and
the order of use are read off it, first for one call and then for every history of
calls and clock readings.
-/

namespace NanoAural

open Faulty Faulty.Prog Relational

namespace MemoryCache

/-! ## Entries and bytes -/

abbrev Item := Identity × StoreEntry

def payloadBytes (entry : StoreEntry) : ℤ := entry.payload.length

/-- The bytes of the payloads held. -/
def MemoryStore.payloadTotal (s : MemoryStore) : ℤ := s.entries.total payloadBytes

/-- The counter is right. -/
def MemoryStore.Balanced (s : MemoryStore) : Prop := s.bytesUsed = s.payloadTotal

/-- A list of items within the limits. -/
def Fits (policy : StorePolicy) (items : List Item) : Prop :=
  items.length ≤ policy.maxEntries
    ∧ (items.map fun item => payloadBytes item.2).sum ≤ policy.maxTotalBytes

/-- The state with a reading of the clock on record. -/
def MemoryStore.read (s : MemoryStore) (now : ℚ) : MemoryStore := { s with lastNow := some now }

/-- The state with a new entry at the end. -/
def MemoryStore.put (s : MemoryStore) (identity : Identity) (entry : StoreEntry) : MemoryStore :=
  { s with
    entries := s.entries.push identity entry
    bytesUsed := s.bytesUsed + entry.payload.length }

/-- The clock's reading is taken, as that double. -/
def Accepts (s : MemoryStore) (reading : Option ℚ) (now : ℚ) : Prop :=
  ∃ value, reading = some value ∧ Doubles.ofRat value = some now ∧ 0 ≤ value
    ∧ ∀ last ∈ s.lastNow, last ≤ value

section Balance

/-- An accepted reading is no less than nothing, rounded or not. -/
theorem Accepts.nonneg {s : MemoryStore} {reading : Option ℚ} {now : ℚ} (h : Accepts s reading now) :
    0 ≤ now := by
  obtain ⟨value, _, hdouble, hnonneg, _⟩ := h
  exact Doubles.ofRat_nonneg hnonneg hdouble

variable {s : MemoryStore} {identity : Identity} {entry : StoreEntry}

theorem MemoryStore.Balanced.read (h : s.Balanced) (now : ℚ) : (s.read now).Balanced := h

theorem remove_entries : (s.remove identity).entries = s.entries.erase identity := by
  unfold MemoryStore.remove
  cases h : s.entries.get? identity with
  | none => exact (OrderedMap.erase_eq_self h).symm
  | some entry => rfl

theorem MemoryStore.Balanced.remove (h : s.Balanced) : (s.remove identity).Balanced := by
  unfold MemoryStore.remove
  cases hget : s.entries.get? identity with
  | none => exact h
  | some entry =>
      change s.bytesUsed - entry.payload.length = (s.entries.erase identity).total payloadBytes
      rw [OrderedMap.total_erase (OrderedMap.get?_eq_some.mp hget)]
      exact congrArg (· - (entry.payload.length : ℤ)) h

theorem MemoryStore.Balanced.touch (h : s.Balanced) : (s.touch identity).Balanced :=
  h.trans OrderedMap.total_moveToEnd.symm

variable (entry) in
theorem MemoryStore.Balanced.put (h : s.Balanced) (hnew : s.entries.get? identity = none) :
    (s.put identity entry).Balanced := by
  change s.bytesUsed + entry.payload.length = (s.entries.push identity entry).total payloadBytes
  rw [OrderedMap.total_push hnew]
  exact congrArg (· + (entry.payload.length : ℤ)) h

/-! ### Removing several -/

theorem removeAll_balanced (identities : List Identity) (h : s.Balanced) :
    (s.removeAll identities).Balanced := by
  induction identities generalizing s with
  | nil => exact h
  | cons identity identities ih => exact ih h.remove

theorem removeAll_frame (identities : List Identity) :
    (s.removeAll identities).evictions = s.evictions
      ∧ (s.removeAll identities).closed = s.closed
      ∧ (s.removeAll identities).lastNow = s.lastNow := by
  induction identities generalizing s with
  | nil => exact ⟨rfl, rfl, rfl⟩
  | cons identity identities ih =>
      have hframe : (s.remove identity).evictions = s.evictions
          ∧ (s.remove identity).closed = s.closed ∧ (s.remove identity).lastNow = s.lastNow := by
        unfold MemoryStore.remove
        cases s.entries.get? identity with
        | none => exact ⟨rfl, rfl, rfl⟩
        | some entry => exact ⟨rfl, rfl, rfl⟩
      have h := ih (s := s.remove identity)
      exact ⟨h.1.trans hframe.1, h.2.1.trans hframe.2.1, h.2.2.trans hframe.2.2⟩

theorem removeAll_items (identities : List Identity) :
    (s.removeAll identities).entries.items
      = s.entries.items.filter fun item => item.1 ∉ identities := by
  induction identities generalizing s with
  | nil => exact (List.filter_eq_self.mpr fun _ _ => by simp).symm
  | cons identity identities ih =>
      change ((s.remove identity).removeAll identities).entries.items = _
      rw [ih, remove_entries, OrderedMap.items_erase, List.filter_filter]
      refine List.filter_congr fun item _ => ?_
      by_cases h : item.1 = identity <;> simp [h]

/-- The items that go are those that satisfy the condition. -/
theorem removeAll_identities (p : StoreEntry → Bool) :
    (s.removeAll (s.identities p)).entries.items = s.entries.items.filter fun item => !p item.2 := by
  rw [removeAll_items]
  refine List.filter_congr fun item hitem => ?_
  have hiff : item.1 ∈ s.identities p ↔ p item.2 = true := by
    unfold MemoryStore.identities
    constructor
    · intro h
      obtain ⟨other, hother, heq⟩ := List.mem_map.mp h
      obtain ⟨hmem, hp⟩ := List.mem_filter.mp hother
      rwa [← List.inj_on_of_nodup_map s.entries.nodup hmem hitem heq]
    · intro h
      exact List.mem_map_of_mem (List.mem_filter.mpr ⟨hitem, h⟩)
  rw [Bool.eq_iff_iff, decide_eq_true_iff, Bool.not_eq_true', ← Bool.not_eq_true]
  exact not_congr hiff

end Balance

/-! ## Eviction -/

variable {policy : StorePolicy}

/-- What `_evict_to_limits` makes of a state: the shortest run of oldest entries goes. -/
structure Shed (policy : StorePolicy) (s s' : MemoryStore) (dropped : List Item) : Prop where
  drop : ShortestDrop (Fits policy) s.entries.items dropped s'.entries.items
  balanced : s'.Balanced
  evictions : s'.evictions = s.evictions + dropped.length
  closed : s'.closed = s.closed
  lastNow : s'.lastNow = s.lastNow

theorem overLimits_eq_false {s : MemoryStore} (h : s.Balanced) :
    s.overLimits policy = false ↔ Fits policy s.entries.items := by
  unfold MemoryStore.overLimits Fits
  rw [show (s.entries.items.map fun item => payloadBytes item.2).sum = s.bytesUsed from h.symm]
  simp

variable (policy) in
/-- The loop, given rounds enough. Induction on the rounds; one entry goes in each. -/
theorem evictRounds_run (rounds : Nat) (s : MemoryStore) (h : s.Balanced)
    (hrounds : s.entries.items.length < rounds) :
    ∃ s' dropped, evictRounds policy rounds [] s = (.returned (), [], s')
      ∧ Shed policy s s' dropped := by
  induction rounds generalizing s with
  | zero => exact absurd hrounds (Nat.not_lt_zero _)
  | succ rounds ih =>
      have hround : evictRounds policy (rounds + 1) [] s
          = (if s.overLimits policy then do
              popOldest
              evictRounds policy rounds
            else pure () : StoreProg Unit) [] s := bind_returned rfl
      -- so many rounds as entries, and one more that finds the limits kept
      rw [hround]
      cases hover : s.overLimits policy with
      | false =>
          exact ⟨s, [], rfl, .nil ((overLimits_eq_false h).mp hover), h, rfl, rfl, rfl⟩
      | true =>
          have hnot : ¬ Fits policy s.entries.items := fun hfits => by
            rw [(overLimits_eq_false h).mpr hfits] at hover
            cases hover
          cases hitems : s.entries.items with
          | nil =>
              -- an empty store is within every limit
              refine absurd ⟨?_, ?_⟩ hnot
              · rw [hitems]
                exact Nat.zero_le _
              · rw [hitems]
                exact Int.natCast_nonneg _
          | cons item rest =>
              obtain ⟨identity, entry⟩ := item
              let next : MemoryStore := { s with
                entries := s.entries.tail
                bytesUsed := s.bytesUsed - entry.payload.length
                evictions := s.evictions + 1 }
              have hpop : popOldest [] s = (.returned (), [], next) := by
                refine (bind_returned (a := s.entries.items) rfl).trans ?_
                rw [hitems]
                rfl
              have hnext : next.entries.items = rest := by
                change s.entries.items.tail = rest
                rw [hitems]
                rfl
              -- the count of bytes goes down by the payload that leaves
              have hbalanced : next.Balanced := by
                have htotal : s.payloadTotal = entry.payload.length + next.payloadTotal := by
                  unfold MemoryStore.payloadTotal OrderedMap.total
                  rw [hnext, hitems]
                  rfl
                have hs : s.bytesUsed = s.payloadTotal := h
                change s.bytesUsed - entry.payload.length = next.payloadTotal
                rw [hs, htotal]
                exact add_sub_cancel_left _ _
              obtain ⟨s', dropped, hrun, hshed⟩ := ih next hbalanced (by
                rw [hnext]
                rw [hitems, List.length_cons] at hrounds
                exact Nat.lt_of_succ_lt_succ hrounds)
              have hdrop := hshed.drop
              rw [hnext] at hdrop
              refine ⟨s', (identity, entry) :: dropped, (bind_returned hpop).trans hrun, ?_,
                hshed.balanced, ?_, hshed.closed, hshed.lastNow⟩
              · rw [hitems]
                exact hdrop.cons (hitems ▸ hnot)
              · rw [hshed.evictions, List.length_cons]
                change s.evictions + 1 + _ = _
                omega

variable (policy) in
theorem evictToLimits_run {s : MemoryStore} (h : s.Balanced) :
    ∃ s' dropped, evictToLimits policy [] s = (.returned (), [], s') ∧ Shed policy s s' dropped := by
  obtain ⟨s', dropped, hrun, hshed⟩ := evictRounds_run policy
    (s.entries.items.length + 1) s h (Nat.lt_succ_self _)
  exact ⟨s', dropped, (bind_returned rfl).trans hrun, hshed⟩

theorem get?_remove (s : MemoryStore) (identity : Identity) :
    (s.remove identity).entries.get? identity = none := by
  rw [remove_entries, OrderedMap.get?_eq_none]
  exact fun v hv => (OrderedMap.mem_erase.mp hv).2 rfl

/-- An entry that fits the policy survives the eviction it causes. -/
theorem Shed.keeps_put {s s' : MemoryStore} {identity : Identity} {entry : StoreEntry}
    {dropped : List Item} (h : Shed policy (s.put identity entry) s' dropped)
    (habsent : s.entries.get? identity = none) (hshort : entry.payload.length ≤ policy.maxEntryBytes) :
    (identity, entry) ∈ s'.entries.items := by
  have hdrop := h.drop
  rw [show (s.put identity entry).entries.items = s.entries.items ++ [(identity, entry)] from
    OrderedMap.items_push habsent] at hdrop
  have hbytes : ([(identity, entry)].map fun item : Item => payloadBytes item.2).sum
      = (entry.payload.length : ℤ) := List.sum_singleton
  have hfits : Fits policy [(identity, entry)] := by
    refine ⟨policy.maxEntries_pos, ?_⟩
    rw [hbytes]
    exact_mod_cast hshort.trans policy.maxEntryBytes_le
  obtain ⟨mid, hkept⟩ := hdrop.keeps hfits
  rw [hkept]
  exact List.mem_append_right _ (List.mem_singleton_self _)

/-! ## What a call can do -/

/-- The expired entries removed. -/
def MemoryStore.prune (s : MemoryStore) (now : ℚ) : MemoryStore :=
  s.removeAll (s.identities fun entry => entry.expiresAt ≤ now)

/-- The reading a call takes of the clock in this state, if it takes one. -/
def StoreCall.reads (policy : StorePolicy) (s : MemoryStore) : StoreCall → Option (Option ℚ)
  | .getEntry tier keyDigest reading =>
      if (s.entries.get? (tier, keyDigest)).isSome then some reading else none
  | .putIfAbsent _ _ _ payload reading =>
      if payload.length ≤ policy.maxEntryBytes then some reading else none
  | .snapshot reading => some reading
  | .delete _ _ | .invalidateDeployment _ | .invalidateAll | .close => none

section Reads

variable {s : MemoryStore} {tier keyDigest : String} (reading : Option ℚ)

theorem reads_getEntry (h : (s.entries.get? (tier, keyDigest)).isSome = true) :
    (StoreCall.getEntry tier keyDigest reading).reads policy s = some reading := if_pos h

theorem reads_miss (h : s.entries.get? (tier, keyDigest) = none) :
    (StoreCall.getEntry tier keyDigest reading).reads policy s = none :=
  if_neg (by rw [h]; exact Bool.false_ne_true)

theorem reads_putIfAbsent (deployment : String) {payload : List UInt8}
    (h : payload.length ≤ policy.maxEntryBytes) :
    (StoreCall.putIfAbsent tier keyDigest deployment payload reading).reads policy s
      = some reading := if_pos h

theorem reads_rejected (deployment : String) {payload : List UInt8}
    (h : policy.maxEntryBytes < payload.length) :
    (StoreCall.putIfAbsent tier keyDigest deployment payload reading).reads policy s = none :=
  if_neg (not_le.mpr h)

end Reads

/-- The arguments a method takes. -/
def StoreCall.Valid : StoreCall → Prop
  | .getEntry tier keyDigest _ | .delete tier keyDigest =>
      tier ∈ cacheLevels ∧ acceptsSha256 keyDigest = true
  | .putIfAbsent tier keyDigest deployment payload _ => tier ∈ cacheLevels
      ∧ acceptsSha256 keyDigest = true ∧ acceptsSha256 deployment = true ∧ payload ≠ []
  | .invalidateDeployment deployment => acceptsSha256 deployment = true
  | .invalidateAll | .snapshot _ | .close => True

/-- Why a call can be refused: its arguments, a closed store, or what the clock shows. -/
def Refused (policy : StorePolicy) (s : MemoryStore) (c : StoreCall) : Prop :=
  ¬ c.Valid ∨ s.closed = true
    ∨ ∃ reading, c.reads policy s = some reading ∧ ∀ now, ¬ Accepts s reading now

/-- How a call can end, and the state it then leaves. -/
inductive Effect (policy : StorePolicy) (hash : Hexdigest) (s : MemoryStore) :
    StoreCall → Exit StoreRaise StoreAnswer → MemoryStore → Prop where
  | refused {c : StoreCall} (h : Refused policy s c) (e : StoreRaise) :
      Effect policy hash s c (.raised e) s
  | miss {tier keyDigest : String} {reading : Option ℚ}
      (habsent : s.entries.get? (tier, keyDigest) = none) :
      Effect policy hash s (.getEntry tier keyDigest reading) (.returned (.entry none)) s
  | expired {tier keyDigest : String} {reading : Option ℚ} {now : ℚ} {entry : StoreEntry}
      (hnow : Accepts s reading now) (hentry : s.entries.get? (tier, keyDigest) = some entry)
      (hexpired : entry.expiresAt ≤ now) :
      Effect policy hash s (.getEntry tier keyDigest reading) (.returned (.entry none))
        ((s.read now).remove (tier, keyDigest))
  | hit {tier keyDigest : String} {reading : Option ℚ} {now : ℚ} {entry : StoreEntry}
      (hnow : Accepts s reading now) (hentry : s.entries.get? (tier, keyDigest) = some entry)
      (hlive : now < entry.expiresAt) :
      Effect policy hash s (.getEntry tier keyDigest reading) (.returned (.entry (some entry)))
        ((s.read now).touch (tier, keyDigest))
  | rejected {tier keyDigest deployment : String} {payload : List UInt8} {reading : Option ℚ}
      (hlong : policy.maxEntryBytes < payload.length) :
      Effect policy hash s (.putIfAbsent tier keyDigest deployment payload reading)
        (.returned (.outcome .rejected)) s
  | present {tier keyDigest deployment : String} {payload : List UInt8} {reading : Option ℚ}
      {now : ℚ} {entry : StoreEntry} (hnow : Accepts s reading now)
      (hshort : payload.length ≤ policy.maxEntryBytes)
      (hentry : s.entries.get? (tier, keyDigest) = some entry) (hlive : now < entry.expiresAt) :
      Effect policy hash s (.putIfAbsent tier keyDigest deployment payload reading)
        (.returned (.outcome .present)) ((s.read now).touch (tier, keyDigest))
  | overflowed {tier keyDigest deployment : String} {payload : List UInt8} {reading : Option ℚ}
      {now : ℚ} (hnow : Accepts s reading now) (hshort : payload.length ≤ policy.maxEntryBytes)
      (hexpired : ∀ entry, s.entries.get? (tier, keyDigest) = some entry → entry.expiresAt ≤ now)
      (hinfinite : Doubles.ofRat (now + policy.ttl) = none) (e : StoreRaise) :
      Effect policy hash s (.putIfAbsent tier keyDigest deployment payload reading) (.raised e)
        ((s.read now).remove (tier, keyDigest))
  | stored {tier keyDigest deployment : String} {payload : List UInt8} {reading : Option ℚ}
      {now : ℚ} {entry : StoreEntry} {s' : MemoryStore} {dropped : List Item}
      (hnow : Accepts s reading now)
      (hexpired : ∀ entry, s.entries.get? (tier, keyDigest) = some entry → entry.expiresAt ≤ now)
      (hshort : payload.length ≤ policy.maxEntryBytes)
      (hentry : newEntry tier keyDigest deployment payload (hash.sha256 payload)
        (Doubles.ofRat (now + policy.ttl)) = .ok entry)
      (hshed : Shed policy (((s.read now).remove (tier, keyDigest)).put (tier, keyDigest) entry) s'
        dropped) :
      Effect policy hash s (.putIfAbsent tier keyDigest deployment payload reading)
        (.returned (.outcome .stored)) s'
  | deleted {tier keyDigest : String} :
      Effect policy hash s (.delete tier keyDigest) (.returned .nothing) (s.remove (tier, keyDigest))
  | invalidated {deployment : String} :
      Effect policy hash s (.invalidateDeployment deployment)
        (.returned (.count
          (s.identities fun entry => entry.deploymentFingerprint == deployment).length))
        (s.removeAll (s.identities fun entry => entry.deploymentFingerprint == deployment))
  | cleared : Effect policy hash s .invalidateAll (.returned (.count s.entries.items.length))
      { s with entries := OrderedMap.empty, bytesUsed := 0 }
  | pruned {reading : Option ℚ} {now : ℚ} (hnow : Accepts s reading now) :
      Effect policy hash s (.snapshot reading)
        (.returned (.snapshot ⟨((s.read now).prune now).entries.items.length,
          ((s.read now).prune now).bytesUsed, s.evictions⟩)) ((s.read now).prune now)
  | closed : Effect policy hash s .close (.returned .nothing)
      { s with entries := OrderedMap.empty, bytesUsed := 0, closed := true }

/-! ### Checks that go before -/

/-- The program passes where the condition holds and raises where it does not. It changes nothing. -/
def Checks (p : StoreProg Unit) (s : MemoryStore) (passes : Prop) : Prop :=
  (¬ passes ∧ ∃ e, p [] s = (.raised e, [], s)) ∨ (passes ∧ p [] s = (.returned (), [], s))

theorem checks_require {check : Except StoreRaise Unit} (s : MemoryStore) {passes : Prop}
    (h : check = .ok () ↔ passes) : Checks (require check) s passes := by
  cases check with
  | ok => exact .inr ⟨h.mp rfl, rfl⟩
  | error e => exact .inl ⟨fun hp => (by cases h.mpr hp), e, rfl⟩

theorem checks_ensureOpen (s : MemoryStore) : Checks ensureOpen s (s.closed = false) := by
  have hrun : ensureOpen [] s
      = raiseWhen s.closed (.runtime "cache store is closed") [] s := bind_returned rfl
  cases hclosed : s.closed with
  | true => exact .inl ⟨Bool.noConfusion, _, by rw [hrun, hclosed]; rfl⟩
  | false => exact .inr ⟨rfl, by rw [hrun, hclosed]; rfl⟩

theorem checkTier_ok {tier : String} : checkTier tier = .ok () ↔ tier ∈ cacheLevels := by
  unfold checkTier
  rw [← List.contains_iff_mem]
  cases cacheLevels.contains tier <;> simp

theorem checkSha256_ok {value name : String} :
    checkSha256 value name = .ok () ↔ acceptsSha256 value = true := requireDigest_ok

theorem checkPayload_ok {payload : List UInt8} : checkPayload payload = .ok () ↔ payload ≠ [] := by
  cases payload <;> simp [checkPayload]

theorem refuses_eq_false {s : MemoryStore} {value : ℚ} :
    s.refuses value = false ↔ 0 ≤ value ∧ ∀ last ∈ s.lastNow, last ≤ value := by
  unfold MemoryStore.refuses
  rw [Bool.or_eq_false_iff, decide_eq_false_iff_not, not_lt, Option.any_eq_false]
  refine and_congr_right fun _ => forall₂_congr fun last _ => ?_
  rw [decide_eq_false_iff_not, not_lt]

/-- `_now` raises and changes nothing, or takes the reading. -/
theorem now_run (reading : Option ℚ) (s : MemoryStore) :
    ((∃ e, now reading [] s = (.raised e, [], s)) ∧ ∀ v, ¬ Accepts s reading v)
      ∨ ∃ v, Accepts s reading v ∧ now reading [] s = (.returned v, [], s.read v) := by
  cases reading with
  | none => exact .inl ⟨⟨_, rfl⟩, fun v hv => by obtain ⟨_, h, _⟩ := hv; cases h⟩
  | some value =>
      have hvalue : ∀ v, Accepts s (some value) v ↔
          Doubles.ofRat value = some v ∧ s.refuses value = false := fun v => by
        rw [refuses_eq_false]
        constructor
        · rintro ⟨_, heq, hrest⟩
          cases heq
          exact hrest
        · exact fun h => ⟨value, rfl, h⟩
      cases hdouble : Doubles.ofRat value with
      | none =>
          refine .inl ⟨⟨.overflow, ?_⟩, fun v hv => ?_⟩
          · simp only [now, hdouble]
            rfl
          · rw [((hvalue v).mp hv).1] at hdouble
            cases hdouble
      | some v =>
          have hrun : now (some value) [] s
              = (raiseWhen (s.refuses value) (.runtime "cache monotonic clock is invalid") >>=
                fun _ => do
                  assign fun s => { s with lastNow := some v }
                  pure v : StoreProg ℚ) [] s := by
            simp only [now, hdouble]
            exact bind_returned rfl
          rw [hrun]
          cases hrefused : s.refuses value with
          | true =>
              refine .inl ⟨⟨_, bind_raised rfl⟩, fun v hv => ?_⟩
              rw [((hvalue v).mp hv).2] at hrefused
              cases hrefused
          | false => exact .inr ⟨v, (hvalue v).mpr ⟨hdouble, hrefused⟩, rfl⟩

/-- A check in front of a program. -/
theorem Checks.comes {p : StoreProg Unit} {s : MemoryStore} {passes : Prop} (h : Checks p s passes)
    {α : Type} {f : Unit → StoreProg α} {R : Exit StoreRaise α → MemoryStore → Prop}
    (hraised : ¬ passes → ∀ e, R (.raised e) s) (hpassed : passes → Comes (f ()) s R) :
    Comes (p >>= f) s R := by
  rcases h with ⟨hfails, e, hrun⟩ | ⟨hpasses, hrun⟩
  · exact comes_bind_raised hrun (hraised hfails e)
  · exact comes_bind hrun (hpassed hpasses)

/-- The clock in front of a program. -/
theorem now_comes {s : MemoryStore} {reading : Option ℚ} {α : Type} {f : ℚ → StoreProg α}
    {R : Exit StoreRaise α → MemoryStore → Prop}
    (hraised : (∀ v, ¬ Accepts s reading v) → ∀ e, R (.raised e) s)
    (hpassed : ∀ v, Accepts s reading v → Comes (f v) (s.read v) R) :
    Comes (now reading >>= f) s R := by
  rcases now_run reading s with ⟨⟨e, hrun⟩, hnone⟩ | ⟨v, hv, hrun⟩
  · exact comes_bind_raised hrun (hraised hnone e)
  · exact comes_bind hrun (hpassed v hv)

/-! ### One lemma for each method -/

section Methods

variable (policy) (hash : Hexdigest) {s : MemoryStore}

/-- How the call ends, in terms of what its method returns. -/
def Effects (s : MemoryStore) {α : Type} (c : StoreCall) (answer : α → StoreAnswer)
    (x : Exit StoreRaise α) (s' : MemoryStore) : Prop :=
  Effect policy hash s c (match x with
    | .returned a => .returned (answer a)
    | .raised e => .raised e
    | .killed => .killed) s'

theorem effects_map {α : Type} {c : StoreCall} {answer : α → StoreAnswer} {p : StoreProg α}
    (h : Comes p s (Effects policy hash s c answer)) :
    Comes (answer <$> p) s (Effect policy hash s c) :=
  comes_map (fun _ _ h => h) (fun _ _ h => h) (fun _ h => h) h

/-- A call is refused over its arguments, or because the store is closed. -/
theorem effects_invalid {α : Type} {c : StoreCall} {answer : α → StoreAnswer} {passes : Prop}
    (h : c.Valid → passes) (hfails : ¬ passes) (e : StoreRaise) :
    Effects policy hash s c answer (.raised e) s := .refused (.inl fun hv => hfails (h hv)) e

theorem effects_closed {α : Type} {c : StoreCall} {answer : α → StoreAnswer}
    (h : ¬ s.closed = false) (e : StoreRaise) : Effects policy hash s c answer (.raised e) s :=
  .refused (.inr (.inl (Bool.eq_true_of_not_eq_false h))) e

theorem effects_clock {α : Type} {c : StoreCall} {answer : α → StoreAnswer} {reading : Option ℚ}
    (hreads : c.reads policy s = some reading) (h : ∀ now, ¬ Accepts s reading now)
    (e : StoreRaise) : Effects policy hash s c answer (.raised e) s :=
  .refused (.inr (.inr ⟨reading, hreads, h⟩)) e

theorem getEntry_effect (tier keyDigest : String) (reading : Option ℚ) :
    Comes (getEntry tier keyDigest reading) s
      (Effects policy hash s (.getEntry tier keyDigest reading) .entry) := by
  refine (checks_require s checkTier_ok).comes (effects_invalid policy hash And.left) fun _ =>
    (checks_require s checkSha256_ok).comes (effects_invalid policy hash And.right) fun _ =>
    (checks_ensureOpen s).comes (effects_closed policy hash) fun _ => comes_peek ?_
  cases hentry : s.entries.get? (tier, keyDigest) with
  | none => exact comes_pure (.miss hentry)
  | some entry =>
      have hreads : (StoreCall.getEntry tier keyDigest reading).reads policy s = some reading :=
        reads_getEntry reading (Option.isSome_of_eq_some hentry)
      refine now_comes (effects_clock policy hash hreads) fun now hnow =>
        comes_ite (fun hexpired => ?_) fun hlive => ?_
      · exact comes_assign (comes_pure (.expired hnow hentry hexpired))
      · exact comes_assign (comes_pure (.hit hnow hentry (not_le.mp hlive)))

theorem delete_effect (tier keyDigest : String) :
    Comes (delete tier keyDigest) s
      (Effects policy hash s (.delete tier keyDigest) fun _ => .nothing) :=
  (checks_require s checkTier_ok).comes (effects_invalid policy hash And.left) fun _ =>
    (checks_require s checkSha256_ok).comes (effects_invalid policy hash And.right) fun _ =>
    (checks_ensureOpen s).comes (effects_closed policy hash) fun _ => ⟨_, _, rfl, .deleted⟩

theorem invalidateDeployment_effect (deployment : String) :
    Comes (invalidateDeployment deployment) s
      (Effects policy hash s (.invalidateDeployment deployment) .count) :=
  (checks_require s checkSha256_ok).comes (effects_invalid policy hash fun hv => hv) fun _ =>
    (checks_ensureOpen s).comes (effects_closed policy hash) fun _ => comes_peek (comes_assign
      (comes_pure .invalidated))

theorem invalidateAll_effect :
    Comes invalidateAll s (Effects policy hash s .invalidateAll .count) :=
  (checks_ensureOpen s).comes (effects_closed policy hash) fun _ => comes_peek (comes_assign
    (comes_pure .cleared))

theorem snapshot_effect (h : s.Balanced) (reading : Option ℚ) :
    Comes (snapshot reading) s (Effects policy hash s (.snapshot reading) .snapshot) := by
  refine (checks_ensureOpen s).comes (effects_closed policy hash) fun _ =>
    now_comes (effects_clock policy hash rfl) fun now hnow => comes_assign (comes_peek ?_)
  have hbalanced : ((s.read now).prune now).Balanced :=
    removeAll_balanced _ (MemoryStore.Balanced.read h now)
  have hnonneg : 0 ≤ ((s.read now).prune now).bytesUsed := by
    rw [hbalanced]
    refine List.sum_nonneg fun size hsize => ?_
    obtain ⟨item, _, rfl⟩ := List.mem_map.mp hsize
    exact Int.natCast_nonneg _
  have hevictions : ((s.read now).prune now).evictions = s.evictions := (removeAll_frame _).1
  refine comes_bind (show _ = (Exit.returned (), [], (s.read now).prune now) from ?_)
    (comes_pure ?_)
  · have hpass : decide (((s.read now).prune now).bytesUsed < 0) = false :=
      decide_eq_false (not_lt.mpr hnonneg)
    change raiseWhen (decide (((s.read now).prune now).bytesUsed < 0)) _ [] _ = _
    rw [hpass]
    rfl
  · have hpruned : Effect policy hash s _ _ _ := Effect.pruned hnow
    rw [← hevictions] at hpruned
    exact hpruned

/-- What `__post_init__` lets through. -/
theorem newEntry_ok {tier keyDigest deployment digest : String} {payload : List UInt8}
    {expiresAt : Option ℚ} {entry : StoreEntry}
    (h : newEntry tier keyDigest deployment payload digest expiresAt = .ok entry) :
    ∃ expiry, expiresAt = some expiry
      ∧ entry = ⟨tier, keyDigest, deployment, payload, digest, expiry⟩ := by
  obtain ⟨_, _, h⟩ := except_bind_ok.mp h
  obtain ⟨_, _, h⟩ := except_bind_ok.mp h
  obtain ⟨_, _, h⟩ := except_bind_ok.mp h
  obtain ⟨_, _, h⟩ := except_bind_ok.mp h
  obtain ⟨_, _, h⟩ := except_bind_ok.mp h
  cases expiresAt with
  | none => cases h
  | some expiry =>
      dsimp only at h
      split_ifs at h
      exact ⟨expiry, rfl, (Except.ok.inj h).symm⟩

/-- After the checks of the method only an infinite expiry is left to object to. -/
theorem newEntry_of_checks {tier keyDigest deployment digest : String} {payload : List UInt8}
    {expiry : ℚ} (htier : tier ∈ cacheLevels) (hkey : acceptsSha256 keyDigest = true)
    (hdeployment : acceptsSha256 deployment = true) (hpayload : payload ≠ [])
    (hdigest : acceptsSha256 digest = true) (hexpiry : 0 ≤ expiry) :
    newEntry tier keyDigest deployment payload digest (some expiry)
      = .ok ⟨tier, keyDigest, deployment, payload, digest, expiry⟩ := by
  unfold newEntry
  rw [checkTier_ok.mpr htier, checkSha256_ok.mpr hkey, checkSha256_ok.mpr hdeployment,
    checkPayload_ok.mpr hpayload, checkSha256_ok.mpr hdigest]
  exact if_neg (not_lt.mpr hexpiry)

theorem putIfAbsent_effect (h : s.Balanced) (tier keyDigest deployment : String)
    (payload : List UInt8) (reading : Option ℚ) :
    Comes (putIfAbsent policy hash tier keyDigest deployment payload reading) s
      (Effects policy hash s (.putIfAbsent tier keyDigest deployment payload reading) .outcome) := by
  refine (checks_require s checkTier_ok).comes (effects_invalid policy hash And.left) fun htier =>
    (checks_require s checkSha256_ok).comes (effects_invalid policy hash fun hv => hv.2.1)
      fun hkey =>
    (checks_require s checkSha256_ok).comes (effects_invalid policy hash fun hv => hv.2.2.1)
      fun hdeployment =>
    (checks_require s checkPayload_ok).comes (effects_invalid policy hash fun hv => hv.2.2.2)
      fun hpayload => comes_ite (fun hlong => ?_) fun hshort => ?_
  · exact comes_pure (.rejected hlong)
  have hreads : (StoreCall.putIfAbsent tier keyDigest deployment payload reading).reads policy s
      = some reading := reads_putIfAbsent reading deployment (not_lt.mp hshort)
  refine (checks_ensureOpen s).comes (effects_closed policy hash) fun _ =>
    now_comes (effects_clock policy hash hreads) fun now hnow =>
    comes_peek (comes_ite (fun hlive => ?_) fun hexpired => ?_)
  · obtain ⟨entry, hentry, hlive⟩ := (Option.any_eq_true _ _).mp hlive
    exact comes_assign (comes_pure (.present hnow (not_lt.mp hshort) hentry
      (of_decide_eq_true hlive)))
  -- an entry under the key is not live, or the call had found it present
  have hexpired : ∀ entry, s.entries.get? (tier, keyDigest) = some entry →
      entry.expiresAt ≤ now := fun entry hentry => by
    have hnot := (Option.any_eq_false _ _).mp (Bool.eq_false_iff.mpr hexpired) entry hentry
    exact not_lt.mp (of_decide_eq_false hnot)
  refine comes_assign ?_
  cases hnew : newEntry tier keyDigest deployment payload (hash.sha256 payload)
      (Doubles.ofRat (now + policy.ttl)) with
  | error e =>
      refine comes_raise (.overflowed hnow (not_lt.mp hshort) hexpired ?_ e)
      -- what was checked can fail only at the expiry, and there only by overflow
      cases hexpiry : Doubles.ofRat (now + policy.ttl) with
      | none => rfl
      | some expiry =>
          have hnonneg : 0 ≤ expiry := Doubles.ofRat_nonneg
            (add_nonneg (Accepts.nonneg hnow) policy.ttl_pos.le) hexpiry
          rw [hexpiry, newEntry_of_checks htier hkey hdeployment hpayload (hash.digest payload)
            hnonneg] at hnew
          cases hnew
  | ok entry =>
      have habsent := get?_remove (s.read now) (tier, keyDigest)
      obtain ⟨s', dropped, hrun, hshed⟩ := evictToLimits_run policy
        ((MemoryStore.Balanced.read h now).remove.put entry habsent)
      obtain ⟨expiry, _, hentry⟩ := newEntry_ok hnew
      have hpayload : entry.payload = payload := by rw [hentry]
      -- the new entry is the youngest, and alone it is within the limits
      have hkept := hshed.keeps_put habsent (hpayload ▸ not_lt.mp hshort)
      rw [← hpayload]
      refine comes_assign (comes_bind hrun (comes_peek (comes_pure ?_)))
      rw [OrderedMap.get?_eq_some.mpr hkept, hpayload]
      exact .stored hnow hexpired (not_lt.mp hshort) hnew hshed

/-- **What a call can do.** -/
theorem call_effect (h : s.Balanced) (c : StoreCall) :
    Comes (c.run policy hash) s (Effect policy hash s c) := by
  cases c with
  | getEntry tier keyDigest reading =>
      exact effects_map policy hash (getEntry_effect policy hash tier keyDigest reading)
  | putIfAbsent tier keyDigest deployment payload reading =>
      exact effects_map policy hash (putIfAbsent_effect policy hash h tier keyDigest deployment
        payload reading)
  | delete tier keyDigest => exact effects_map policy hash (delete_effect policy hash tier keyDigest)
  | invalidateDeployment deployment =>
      exact effects_map policy hash (invalidateDeployment_effect policy hash deployment)
  | invalidateAll => exact effects_map policy hash (invalidateAll_effect policy hash)
  | snapshot reading => exact effects_map policy hash (snapshot_effect policy hash h reading)
  | close => exact ⟨_, _, rfl, .closed⟩

end Methods

/-! ## Limits -/

section Limits

variable {hash : Hexdigest} {s s' : MemoryStore} {c : StoreCall} {x : Exit StoreRaise StoreAnswer}

theorem Fits.sublist {items items' : List Item} (h : Fits policy items) (hsub : items'.Sublist items) :
    Fits policy items' := by
  refine ⟨hsub.length_le.trans h.1, le_trans ?_ h.2⟩
  refine (hsub.map _).sum_le_sum fun size hsize => ?_
  obtain ⟨item, _, rfl⟩ := List.mem_map.mp hsize
  exact Int.natCast_nonneg _

theorem Fits.perm {items items' : List Item} (h : Fits policy items) (hperm : items'.Perm items) :
    Fits policy items' :=
  ⟨hperm.length_eq ▸ h.1, (hperm.map fun item => payloadBytes item.2).sum_eq ▸ h.2⟩

theorem remove_sublist (s : MemoryStore) (identity : Identity) :
    (s.remove identity).entries.items.Sublist s.entries.items := by
  rw [remove_entries, OrderedMap.items_erase]
  exact List.filter_sublist

theorem removeAll_sublist (s : MemoryStore) (identities : List Identity) :
    (s.removeAll identities).entries.items.Sublist s.entries.items := by
  rw [removeAll_items]
  exact List.filter_sublist

/-- The counter is right and the limits are kept. -/
structure MemoryStore.Bounded (policy : StorePolicy) (s : MemoryStore) : Prop where
  balanced : s.Balanced
  fits : Fits policy s.entries.items

theorem bounded_new : MemoryStore.new.Bounded policy := ⟨rfl, Nat.zero_le _, Int.natCast_nonneg _⟩

theorem bounded_empty {s : MemoryStore} (hitems : s.entries = OrderedMap.empty)
    (hbytes : s.bytesUsed = 0) : s.Bounded policy := by
  refine ⟨?_, ?_⟩
  · unfold MemoryStore.Balanced MemoryStore.payloadTotal
    rw [hitems, hbytes]
    rfl
  · rw [hitems]
    exact ⟨Nat.zero_le _, Int.natCast_nonneg _⟩

/-- **One call keeps the limits.** -/
theorem bounded_step (h : s.Bounded policy) (he : Effect policy hash s c x s') :
    s'.Bounded policy := by
  have hread : ∀ now, (s.read now).Balanced := MemoryStore.Balanced.read h.balanced
  cases he with
  | refused | miss | rejected => exact h
  | expired | overflowed => exact ⟨(hread _).remove, h.fits.sublist (remove_sublist _ _)⟩
  | hit | present => exact ⟨(hread _).touch, h.fits.perm (OrderedMap.perm_moveToEnd _)⟩
  | stored hnow hexpired hshort hentry hshed => exact ⟨hshed.balanced, hshed.drop.fits⟩
  | deleted => exact ⟨h.balanced.remove, h.fits.sublist (remove_sublist _ _)⟩
  | invalidated => exact ⟨removeAll_balanced _ h.balanced, h.fits.sublist (removeAll_sublist _ _)⟩
  | pruned => exact ⟨removeAll_balanced _ (hread _), h.fits.sublist (removeAll_sublist _ _)⟩
  | cleared | closed => exact bounded_empty rfl rfl

end Limits

/-! ## The order of use -/

/-- A call that was made, and how it ended. -/
structure StoreEvent where
  call : StoreCall
  exit : Exit StoreRaise StoreAnswer

/-- What the event counts as a use of: a hit, an entry found present, an entry stored. -/
def StoreEvent.uses : StoreEvent → Option Identity
  | ⟨.getEntry tier keyDigest _, .returned (.entry (some _))⟩ => some (tier, keyDigest)
  | ⟨.putIfAbsent tier keyDigest _ _ _, .returned (.outcome .present)⟩ => some (tier, keyDigest)
  | ⟨.putIfAbsent tier keyDigest _ _ _, .returned (.outcome .stored)⟩ => some (tier, keyDigest)
  | _ => none

/-- The number of the last event that used the identity; the log has the newest event first. -/
def lastUse : List StoreEvent → Identity → Nat
  | [], _ => 0
  | event :: log, identity =>
      if event.uses = some identity then log.length + 1 else lastUse log identity

theorem lastUse_le (log : List StoreEvent) (identity : Identity) :
    lastUse log identity ≤ log.length := by
  induction log with
  | nil => exact Nat.zero_le _
  | cons event log ih =>
      unfold lastUse
      split
      · exact Nat.le_refl _
      · exact Nat.le_succ_of_le ih

theorem lastUse_used {event : StoreEvent} {log : List StoreEvent} {identity : Identity}
    (h : event.uses = some identity) : lastUse (event :: log) identity = log.length + 1 := if_pos h

theorem lastUse_other {event : StoreEvent} {log : List StoreEvent} {identity : Identity}
    (h : event.uses ≠ some identity) : lastUse (event :: log) identity = lastUse log identity :=
  if_neg h

/-- The items stand in the order of their last use. -/
def ByUse (log : List StoreEvent) (items : List Item) : Prop :=
  items.Pairwise fun a b => lastUse log a.1 < lastUse log b.1

theorem ByUse.sublist {log : List StoreEvent} {items items' : List Item} (h : ByUse log items)
    (hsub : items'.Sublist items) : ByUse log items' := List.Pairwise.sublist hsub h

theorem uses_raised (c : StoreCall) (e : StoreRaise) :
    StoreEvent.uses ⟨c, .raised e⟩ = none := by
  cases c <;> rfl

/-- An event that uses nothing changes no order. -/
theorem ByUse.idle {log : List StoreEvent} {items : List Item} (h : ByUse log items)
    {event : StoreEvent} (hidle : event.uses = none) : ByUse (event :: log) items := by
  have hsame : ∀ identity, lastUse (event :: log) identity = lastUse log identity := fun identity =>
    lastUse_other (by rw [hidle]; exact (Option.some_ne_none identity).symm)
  exact h.imp fun hab => by rwa [hsame, hsame]

/-- Nor does one that takes items out. -/
theorem ByUse.shrink {log : List StoreEvent} {items items' : List Item} (h : ByUse log items)
    {event : StoreEvent} (hsub : items'.Sublist items) (hidle : event.uses = none) :
    ByUse (event :: log) items' := (h.sublist hsub).idle hidle

/-- The item used goes to the end. -/
theorem ByUse.push {log : List StoreEvent} {m : OrderedMap Identity StoreEntry}
    (h : ByUse log m.items) {event : StoreEvent} {identity : Identity} (entry : StoreEntry)
    (hused : event.uses = some identity) :
    ByUse (event :: log) (m.push identity entry).items := by
  have hother : ∀ item ∈ (m.erase identity).items,
      lastUse (event :: log) item.1 = lastUse log item.1 := fun item hitem =>
    lastUse_other (by rw [hused]; exact fun heq =>
      (OrderedMap.mem_erase.mp hitem).2 (Option.some.inj heq).symm)
  have hsub : ByUse log (m.erase identity).items := by
    rw [OrderedMap.items_erase]
    exact h.sublist List.filter_sublist
  refine List.pairwise_append.mpr ⟨?_, List.pairwise_singleton _ _, fun a ha b hb => ?_⟩
  · exact hsub.imp_of_mem fun ha hb hab => by rwa [hother _ ha, hother _ hb]
  · rw [List.mem_singleton.mp hb, hother a ha, lastUse_used hused]
    exact Nat.lt_succ_of_le (lastUse_le log a.1)

theorem ByUse.touch {log : List StoreEvent} {s : MemoryStore} (h : ByUse log s.entries.items)
    {event : StoreEvent} {identity : Identity} {entry : StoreEntry}
    (hentry : s.entries.get? identity = some entry) (hused : event.uses = some identity) :
    ByUse (event :: log) (s.touch identity).entries.items := by
  change ByUse _ (s.entries.moveToEnd identity).items
  rw [OrderedMap.moveToEnd_of_mem (OrderedMap.get?_eq_some.mp hentry)]
  exact h.push entry hused

/-- The entries a put finds before it evicts, in the order of their last use. -/
theorem ByUse.put {log : List StoreEvent} {s : MemoryStore} (h : ByUse log s.entries.items)
    {event : StoreEvent} {identity : Identity} (now : ℚ) (entry : StoreEntry)
    (hused : event.uses = some identity) : ByUse (event :: log)
      (((s.read now).remove identity).put identity entry).entries.items := by
  have hremoved : ByUse log ((s.read now).remove identity).entries.items :=
    h.sublist (remove_sublist _ _)
  exact hremoved.push entry hused

/-- **One call keeps the order of use.** -/
theorem byUse_step {hash : Hexdigest} {log : List StoreEvent} {s s' : MemoryStore} {c : StoreCall}
    {x : Exit StoreRaise StoreAnswer} (h : ByUse log s.entries.items)
    (he : Effect policy hash s c x s') : ByUse (⟨c, x⟩ :: log) s'.entries.items := by
  cases he with
  | refused _ e => exact h.idle (uses_raised c e)
  | miss | rejected => exact h.idle rfl
  | expired => exact h.shrink (remove_sublist (s.read _) _) rfl
  | overflowed => exact h.shrink (remove_sublist (s.read _) _) rfl
  | hit hnow hentry => exact ByUse.touch (s := s.read _) h hentry rfl
  | present hnow hshort hentry => exact ByUse.touch (s := s.read _) h hentry rfl
  | @stored tier keyDigest deployment payload reading now entry _ dropped hnow _ _ _ hshed =>
      have hput := @ByUse.put log s h ⟨.putIfAbsent tier keyDigest deployment payload reading,
        .returned (.outcome .stored)⟩ (tier, keyDigest) now entry rfl
      rw [hshed.drop.split] at hput
      exact hput.sublist (List.sublist_append_right _ _)
  | deleted => exact h.shrink (remove_sublist s _) rfl
  | invalidated => exact h.shrink (removeAll_sublist s _) rfl
  | pruned => exact h.shrink (removeAll_sublist (s.read _) _) rfl
  | cleared | closed => exact List.Pairwise.nil

/-! ## What becomes of an entry -/

/-- How an entry can go: by time, by hand, or to make room for another key's. -/
inductive Ended (policy : StorePolicy) (s s' : MemoryStore) (item : Item) : StoreCall → Prop where
  | expired {c : StoreCall} {reading : Option ℚ} {now : ℚ} (hreads : c.reads policy s = some reading)
      (hnow : Accepts s reading now) (hexpired : item.2.expiresAt ≤ now) : Ended policy s s' item c
  | deleted : Ended policy s s' item (.delete item.1.1 item.1.2)
  | invalidated : Ended policy s s' item (.invalidateDeployment item.2.deploymentFingerprint)
  | cleared : Ended policy s s' item .invalidateAll
  | closed : Ended policy s s' item .close
  | evicted {tier keyDigest deployment : String} {payload : List UInt8} {reading : Option ℚ}
      {entry : StoreEntry} {dropped : List Item} (hother : item.1 ≠ (tier, keyDigest))
      (hdrop : ShortestDrop (Fits policy) (s.entries.push (tier, keyDigest) entry).items dropped
        s'.entries.items) (hdropped : item ∈ dropped) :
      Ended policy s s' item (.putIfAbsent tier keyDigest deployment payload reading)

/-- A put whose expiry is beyond the doubles: it raises with the reading on record and the expired
entry of its key gone. -/
def Overflows (policy : StorePolicy) (s s' : MemoryStore) : StoreCall → Prop
  | .putIfAbsent tier keyDigest _ _ reading => ∃ now, Accepts s reading now
      ∧ Doubles.ofRat (now + policy.ttl) = none
      ∧ (∀ entry, s.entries.get? (tier, keyDigest) = some entry → entry.expiresAt ≤ now)
      ∧ s' = (s.read now).remove (tier, keyDigest)
  | _ => False

section Entries

variable {hash : Hexdigest} {s s' : MemoryStore} {c : StoreCall} {x : Exit StoreRaise StoreAnswer}

theorem effect_raises (he : Effect policy hash s c x s') {e : StoreRaise} (hx : x = .raised e) :
    s' = s ∨ Overflows policy s s' c := by
  cases he with
  | refused => exact .inl rfl
  | overflowed hnow _ hexpired hinfinite => exact .inr ⟨_, hnow, hinfinite, hexpired, rfl⟩
  | miss | expired | hit | rejected | present | stored | deleted | invalidated | cleared | pruned
  | closed => cases hx

theorem effect_clock (he : Effect policy hash s c x s') {reading : Option ℚ}
    (hreads : c.reads policy s = some reading) (hbad : ∀ now, ¬ Accepts s reading now) :
    ∃ e, x = .raised e := by
  cases he with
  | refused _ e => exact ⟨e, rfl⟩
  | overflowed hnow hshort hexpired hinfinite e => exact ⟨e, rfl⟩
  | miss habsent =>
      rw [reads_miss _ habsent] at hreads
      cases hreads
  | rejected hlong =>
      rw [reads_rejected _ _ hlong] at hreads
      cases hreads
  | expired hnow hentry | hit hnow hentry =>
      rw [reads_getEntry _ (Option.isSome_of_eq_some hentry)] at hreads
      cases hreads
      exact absurd hnow (hbad _)
  | present hnow hshort =>
      rw [reads_putIfAbsent _ _ hshort] at hreads
      cases hreads
      exact absurd hnow (hbad _)
  | stored hnow hexpired hshort =>
      rw [reads_putIfAbsent _ _ hshort] at hreads
      cases hreads
      exact absurd hnow (hbad _)
  | pruned hnow =>
      cases hreads
      exact absurd hnow (hbad _)
  | deleted | invalidated | cleared | closed => cases hreads

/-- An item that `_remove` takes out is the one under the identity. -/
theorem mem_remove {item : Item} (hitem : item ∈ s.entries.items) (identity : Identity) :
    item ∈ (s.remove identity).entries.items
      ∨ (item.1 = identity ∧ s.entries.get? identity = some item.2) := by
  by_cases hkey : item.1 = identity
  · subst hkey
    exact .inr ⟨rfl, OrderedMap.get?_eq_some.mpr hitem⟩
  · rw [remove_entries]
    exact .inl (OrderedMap.mem_erase.mpr ⟨hitem, hkey⟩)

/-- What a put finds before it evicts: the entries of the other keys, and its own last. -/
theorem put_items (s : MemoryStore) (now : ℚ) (identity : Identity) (entry : StoreEntry) :
    (((s.read now).remove identity).put identity entry).entries.items
      = (s.entries.push identity entry).items := by
  change (((s.read now).remove identity).entries.push identity entry).items = _
  rw [remove_entries]
  exact OrderedMap.items_push_erase

/-- Those that `removeAll` takes out satisfy the condition. -/
theorem mem_removeAll {item : Item} (hitem : item ∈ s.entries.items) (p : StoreEntry → Bool) :
    item ∈ (s.removeAll (s.identities p)).entries.items ∨ p item.2 = true := by
  rw [removeAll_identities, List.mem_filter]
  cases h : p item.2 with
  | true => exact .inr rfl
  | false => exact .inl ⟨hitem, rfl⟩

/-- **An entry stays or has a reason to go.** -/
theorem effect_keeps (he : Effect policy hash s c x s') {item : Item}
    (hitem : item ∈ s.entries.items) :
    item ∈ s'.entries.items ∨ Ended policy s s' item c := by
  cases he with
  | refused | miss | rejected => exact .inl hitem
  | @expired tier keyDigest reading now entry hnow hentry hexpired =>
      rcases mem_remove (s := s.read now) hitem (tier, keyDigest) with hkept | ⟨_, hget⟩
      · exact .inl hkept
      · have heq : item.2 = entry := Option.some.inj (hget.symm.trans hentry)
        exact .inr (.expired (reads_getEntry _ (Option.isSome_of_eq_some hentry)) hnow
          (heq ▸ hexpired))
  | hit | present => exact .inl (OrderedMap.mem_moveToEnd.mpr hitem)
  | @overflowed tier keyDigest deployment payload reading now hnow hshort hexpired hinfinite =>
      rcases mem_remove (s := s.read now) hitem (tier, keyDigest) with hkept | ⟨_, hget⟩
      · exact .inl hkept
      · exact .inr (.expired (reads_putIfAbsent _ _ hshort) hnow (hexpired _ hget))
  | @stored tier keyDigest deployment payload reading now entry s' dropped hnow hexpired hshort hentry hshed =>
      have hdrop := hshed.drop
      rw [put_items] at hdrop
      -- the key is stored only where its old entry has expired
      by_cases hkey : item.1 = (tier, keyDigest)
      · have hget : s.entries.get? (tier, keyDigest) = some item.2 :=
          hkey ▸ OrderedMap.get?_eq_some.mpr hitem
        exact .inr (.expired (reads_putIfAbsent _ _ hshort) hnow (hexpired _ hget))
      · have hpush : item ∈ (s.entries.push (tier, keyDigest) entry).items :=
          OrderedMap.mem_push.mpr (.inl ⟨hitem, hkey⟩)
        rw [hdrop.split] at hpush
        -- any other entry is in what the rounds drop or in what they leave
        rcases List.mem_append.mp hpush with hdropped | hkept
        · exact .inr (.evicted hkey hdrop hdropped)
        · exact .inl hkept
  | @deleted tier keyDigest =>
      rcases mem_remove hitem (tier, keyDigest) with hkept | ⟨hkey, _⟩
      · exact .inl hkept
      · have hdeleted : Ended policy s (s.remove (tier, keyDigest)) item _ := .deleted
        rw [hkey] at hdeleted
        exact .inr hdeleted
  | @invalidated deployment =>
      rcases mem_removeAll hitem fun entry => entry.deploymentFingerprint == deployment
        with hkept | hgone
      · exact .inl hkept
      · rw [← eq_of_beq hgone]
        exact .inr .invalidated
  | @pruned reading now hnow =>
      rcases mem_removeAll (s := s.read now) hitem fun entry => entry.expiresAt ≤ now
        with hkept | hgone
      · exact .inl hkept
      · exact .inr (.expired rfl hnow (of_decide_eq_true hgone))
  | cleared => exact .inr .cleared
  | closed => exact .inr .closed

/-- **An entry was there or is the one just put.** -/
theorem effect_fresh (he : Effect policy hash s c x s') {item : Item}
    (hitem : item ∈ s'.entries.items) :
    item ∈ s.entries.items ∨ (x = .returned (.outcome .stored) ∧ ∃ reading,
      c = .putIfAbsent item.1.1 item.1.2 item.2.deploymentFingerprint item.2.payload reading) := by
  cases he with
  | refused | miss | rejected => exact .inl hitem
  | expired | overflowed => exact .inl ((remove_sublist _ _).mem hitem)
  | hit | present => exact .inl (OrderedMap.mem_moveToEnd.mp hitem)
  | @stored tier keyDigest deployment payload reading now entry s' dropped hnow hexpired hshort hentry hshed =>
      have hdrop := hshed.drop
      rw [put_items] at hdrop
      have hpush : item ∈ (s.entries.push (tier, keyDigest) entry).items := by
        rw [hdrop.split]
        exact List.mem_append_right _ hitem
      rcases OrderedMap.mem_push.mp hpush with ⟨hmem, _⟩ | rfl
      · exact .inl hmem
      · obtain ⟨_, _, rfl⟩ := newEntry_ok hentry
        exact .inr ⟨rfl, reading, rfl⟩
  | deleted => exact .inl ((remove_sublist _ _).mem hitem)
  | invalidated | pruned => exact .inl ((removeAll_sublist _ _).mem hitem)
  | cleared | closed => cases hitem

end Entries

/-! ## Histories -/

variable (policy) (hash : Hexdigest)

/-- A store with the calls made on it, the newest first. -/
structure Trace where
  log : List StoreEvent
  store : MemoryStore

namespace Trace

def start : Trace := ⟨[], .new⟩

/-- One more call. -/
def next (t : Trace) (c : StoreCall) : Trace :=
  ⟨⟨c, ((c.run policy hash).run [] t.store).1⟩ :: t.log, ((c.run policy hash).run [] t.store).2⟩

def plays (t : Trace) (calls : List StoreCall) : Trace := calls.foldl (next policy hash) t

/-- What holds after every history. -/
structure Sound (t : Trace) : Prop where
  bounded : t.store.Bounded policy
  byUse : ByUse t.log t.store.entries.items

theorem sound_start : start.Sound policy := ⟨bounded_new, List.Pairwise.nil⟩

variable {policy hash} {t : Trace}

variable (hash) in
theorem Sound.effect (h : t.Sound policy) (c : StoreCall) :
    Effect policy hash t.store c ((c.run policy hash).run [] t.store).1 (t.next policy hash c).store :=
  (call_effect policy hash h.bounded.balanced c).run

theorem sound_step (h : t.Sound policy) (c : StoreCall) : (t.next policy hash c).Sound policy :=
  ⟨bounded_step h.bounded (h.effect hash c), byUse_step h.byUse (h.effect hash c)⟩

theorem sound_plays (h : t.Sound policy) (calls : List StoreCall) :
    (t.plays policy hash calls).Sound policy := by
  induction calls generalizing t with
  | nil => exact h
  | cons c calls ih => exact ih (sound_step h c)

end Trace

/-- What one more call on the store of a history does. -/
structure Obeys (t : Trace) (c : StoreCall) (x : Exit StoreRaise StoreAnswer) (s' : MemoryStore) :
    Prop where
  /-- A call that raises changes nothing, unless it is a put whose expiry overflows. -/
  raises : ∀ e, x = .raised e → s' = t.store ∨ Overflows policy t.store s' c
  /-- A reading that is invalid or goes back makes the call raise. -/
  clock : ∀ reading, c.reads policy t.store = some reading →
    (∀ now, ¬ Accepts t.store reading now) → ∃ e, x = .raised e
  /-- An entry stays as it is, or goes for a reason. -/
  keeps : ∀ item ∈ t.store.entries.items,
    item ∈ s'.entries.items ∨ Ended policy t.store s' item c
  /-- Every other entry is the one this call stored. -/
  fresh : ∀ item ∈ s'.entries.items, item ∈ t.store.entries.items
    ∨ (x = .returned (.outcome .stored) ∧ ∃ reading,
      c = .putIfAbsent item.1.1 item.1.2 item.2.deploymentFingerprint item.2.payload reading)
  /-- Nothing else makes a call with valid arguments on an open store raise. -/
  returns : c.Valid → t.store.closed = false →
    (∀ reading, c.reads policy t.store = some reading → ∃ now, Accepts t.store reading now) →
    (∃ a, x = .returned a) ∨ Overflows policy t.store s' c
  /-- A lookup finds the entry that is held while it is live, and takes it out once it is not. -/
  gets : ∀ tier keyDigest reading found, c = .getEntry tier keyDigest reading →
    x = .returned (.entry found) →
    (t.store.entries.get? (tier, keyDigest) = none ∧ found = none)
      ∨ ∃ entry now, t.store.entries.get? (tier, keyDigest) = some entry
        ∧ Accepts t.store reading now ∧ found = (if now < entry.expiresAt then some entry else none)
        ∧ s'.entries.get? (tier, keyDigest) = found
  /-- A put of what fits finds a live entry and leaves it, or stores its own for the time to live. -/
  puts : ∀ tier keyDigest deployment payload reading outcome,
    c = .putIfAbsent tier keyDigest deployment payload reading →
    x = .returned (.outcome outcome) → payload.length ≤ policy.maxEntryBytes →
    ∃ now, Accepts t.store reading now
      ∧ ((outcome = .present ∧ ∃ entry, t.store.entries.get? (tier, keyDigest) = some entry
          ∧ now < entry.expiresAt ∧ s'.entries.get? (tier, keyDigest) = some entry)
        ∨ (outcome = .stored
          ∧ (∀ entry, t.store.entries.get? (tier, keyDigest) = some entry → entry.expiresAt ≤ now)
          ∧ ∃ expiry, Doubles.ofRat (now + policy.ttl) = some expiry
            ∧ s'.entries.get? (tier, keyDigest)
              = some ⟨tier, keyDigest, deployment, payload, hash.sha256 payload, expiry⟩))
  /-- A put evicts the shortest run of the least recently used, and never the entry it put. -/
  evicts : ∀ tier keyDigest deployment payload reading,
    c = .putIfAbsent tier keyDigest deployment payload reading → x = .returned (.outcome .stored) →
    ∃ entry dropped, entry.payload = payload
      ∧ ByUse (⟨c, x⟩ :: t.log) (t.store.entries.push (tier, keyDigest) entry).items
      ∧ ShortestDrop (Fits policy) (t.store.entries.push (tier, keyDigest) entry).items dropped
        s'.entries.items
      ∧ ((tier, keyDigest), entry) ∈ s'.entries.items
      ∧ s'.evictions = t.store.evictions + dropped.length
  /-- Only what does not fit the policy is rejected. -/
  rejects : ∀ tier keyDigest deployment payload reading,
    c = .putIfAbsent tier keyDigest deployment payload reading →
    x = .returned (.outcome .rejected) → policy.maxEntryBytes < payload.length
  /-- A deletion takes out the entry of its key. -/
  deletes : ∀ tier keyDigest a, c = .delete tier keyDigest → x = .returned a →
    s'.entries.items = t.store.entries.items.filter fun item => decide (item.1 ≠ (tier, keyDigest))
  /-- An invalidation takes out the entries of its deployment, and counts them. -/
  invalidates : ∀ deployment n, c = .invalidateDeployment deployment → x = .returned (.count n) →
    (s'.entries.items = t.store.entries.items.filter fun item =>
        !(item.2.deploymentFingerprint == deployment))
      ∧ n = (t.store.entries.items.filter fun item =>
        item.2.deploymentFingerprint == deployment).length
  clears : ∀ n, c = .invalidateAll → x = .returned (.count n) →
    s'.entries.items = [] ∧ n = t.store.entries.items.length
  /-- A snapshot takes out what has expired, and counts the rest. -/
  snapshots : ∀ reading taken, c = .snapshot reading → x = .returned (.snapshot taken) →
    ∃ now, Accepts t.store reading now
      ∧ (s'.entries.items = t.store.entries.items.filter fun item => !decide (item.2.expiresAt ≤ now))
      ∧ taken = ⟨s'.entries.items.length, s'.bytesUsed, s'.evictions⟩

section Obeying

variable {policy hash} {t : Trace} {c : StoreCall} {x : Exit StoreRaise StoreAnswer}
  {s' : MemoryStore}

theorem effect_returns (he : Effect policy hash t.store c x s') (hvalid : c.Valid)
    (hopen : t.store.closed = false)
    (hclock : ∀ reading, c.reads policy t.store = some reading →
      ∃ now, Accepts t.store reading now) :
    (∃ a, x = .returned a) ∨ Overflows policy t.store s' c := by
  cases he with
  | refused h e =>
      rcases h with hargs | hclosed | ⟨reading, hreads, hnone⟩
      · exact absurd hvalid hargs
      · rw [hopen] at hclosed
        cases hclosed
      · obtain ⟨now, hnow⟩ := hclock reading hreads
        exact absurd hnow (hnone now)
  | overflowed hnow _ hexpired hinfinite => exact .inr ⟨_, hnow, hinfinite, hexpired, rfl⟩
  | miss | expired | hit | rejected | present | stored | deleted | invalidated | cleared | pruned
  | closed => exact .inl ⟨_, rfl⟩

theorem effect_gets (he : Effect policy hash t.store c x s') {tier keyDigest : String}
    {reading : Option ℚ} {found : Option StoreEntry} (hc : c = .getEntry tier keyDigest reading)
    (hx : x = .returned (.entry found)) :
    (t.store.entries.get? (tier, keyDigest) = none ∧ found = none)
      ∨ ∃ entry now, t.store.entries.get? (tier, keyDigest) = some entry
        ∧ Accepts t.store reading now ∧ found = (if now < entry.expiresAt then some entry else none)
        ∧ s'.entries.get? (tier, keyDigest) = found := by
  subst hc hx
  cases he with
  | miss habsent => exact .inl ⟨habsent, rfl⟩
  | expired hnow hentry hexpired =>
      exact .inr ⟨_, _, hentry, hnow, (if_neg (not_lt.mpr hexpired)).symm, get?_remove _ _⟩
  | hit hnow hentry hlive =>
      refine .inr ⟨_, _, hentry, hnow, (if_pos hlive).symm, OrderedMap.get?_eq_some.mpr ?_⟩
      exact OrderedMap.mem_moveToEnd.mpr (OrderedMap.get?_eq_some.mp hentry)

theorem effect_puts (he : Effect policy hash t.store c x s') {tier keyDigest deployment : String}
    {payload : List UInt8} {reading : Option ℚ} {outcome : StoreOutcome}
    (hc : c = .putIfAbsent tier keyDigest deployment payload reading)
    (hx : x = .returned (.outcome outcome)) (hfits : payload.length ≤ policy.maxEntryBytes) :
    ∃ now, Accepts t.store reading now
      ∧ ((outcome = .present ∧ ∃ entry, t.store.entries.get? (tier, keyDigest) = some entry
          ∧ now < entry.expiresAt ∧ s'.entries.get? (tier, keyDigest) = some entry)
        ∨ (outcome = .stored
          ∧ (∀ entry, t.store.entries.get? (tier, keyDigest) = some entry → entry.expiresAt ≤ now)
          ∧ ∃ expiry, Doubles.ofRat (now + policy.ttl) = some expiry
            ∧ s'.entries.get? (tier, keyDigest)
              = some ⟨tier, keyDigest, deployment, payload, hash.sha256 payload, expiry⟩)) := by
  subst hc hx
  cases he with
  | rejected hlong => exact absurd hfits (not_le.mpr hlong)
  | present hnow _ hentry hlive =>
      refine ⟨_, hnow, .inl ⟨rfl, _, hentry, hlive, OrderedMap.get?_eq_some.mpr ?_⟩⟩
      exact OrderedMap.mem_moveToEnd.mpr (OrderedMap.get?_eq_some.mp hentry)
  | stored hnow hexpired hshort hentry hshed =>
      obtain ⟨expiry, hexpiry, rfl⟩ := newEntry_ok hentry
      exact ⟨_, hnow, .inr ⟨rfl, hexpired, expiry, hexpiry,
        OrderedMap.get?_eq_some.mpr (hshed.keeps_put (get?_remove _ _) hshort)⟩⟩

theorem effect_deletes (he : Effect policy hash t.store c x s') {tier keyDigest : String}
    {a : StoreAnswer} (hc : c = .delete tier keyDigest) (hx : x = .returned a) :
    s'.entries.items
      = t.store.entries.items.filter fun item => decide (item.1 ≠ (tier, keyDigest)) := by
  subst hc hx
  cases he with
  | deleted => rw [remove_entries, OrderedMap.items_erase]

theorem effect_invalidates (he : Effect policy hash t.store c x s') {deployment : String} {n : Nat}
    (hc : c = .invalidateDeployment deployment) (hx : x = .returned (.count n)) :
    (s'.entries.items = t.store.entries.items.filter fun item =>
        !(item.2.deploymentFingerprint == deployment))
      ∧ n = (t.store.entries.items.filter fun item =>
        item.2.deploymentFingerprint == deployment).length := by
  subst hc hx
  cases he with
  | invalidated => exact ⟨removeAll_identities _, List.length_map _⟩

theorem effect_clears (he : Effect policy hash t.store c x s') {n : Nat} (hc : c = .invalidateAll)
    (hx : x = .returned (.count n)) :
    s'.entries.items = [] ∧ n = t.store.entries.items.length := by
  subst hc hx
  cases he with
  | cleared => exact ⟨rfl, rfl⟩

theorem effect_snapshots (he : Effect policy hash t.store c x s') {reading : Option ℚ}
    {taken : StoreSnapshot} (hc : c = .snapshot reading) (hx : x = .returned (.snapshot taken)) :
    ∃ now, Accepts t.store reading now
      ∧ (s'.entries.items = t.store.entries.items.filter fun item => !decide (item.2.expiresAt ≤ now))
      ∧ taken = ⟨s'.entries.items.length, s'.bytesUsed, s'.evictions⟩ := by
  subst hc hx
  cases he with
  | @pruned _ now hnow =>
      have hevictions : ((t.store.read now).prune now).evictions = t.store.evictions :=
        (removeAll_frame _).1
      exact ⟨now, hnow, removeAll_identities _, by rw [hevictions]⟩

theorem effect_evicts (h : t.Sound policy) (he : Effect policy hash t.store c x s')
    {tier keyDigest deployment : String} {payload : List UInt8} {reading : Option ℚ}
    (hc : c = .putIfAbsent tier keyDigest deployment payload reading)
    (hx : x = .returned (.outcome .stored)) :
    ∃ entry dropped, entry.payload = payload
      ∧ ByUse (⟨c, x⟩ :: t.log) (t.store.entries.push (tier, keyDigest) entry).items
      ∧ ShortestDrop (Fits policy) (t.store.entries.push (tier, keyDigest) entry).items dropped
        s'.entries.items
      ∧ ((tier, keyDigest), entry) ∈ s'.entries.items
      ∧ s'.evictions = t.store.evictions + dropped.length := by
  subst hc hx
  cases he with
  | @stored _ _ _ _ _ now entry _ dropped hnow hexpired hshort hentry hshed =>
      obtain ⟨expiry, _, heq⟩ := newEntry_ok hentry
      have hpayload : entry.payload = payload := by rw [heq]
      have hdrop := hshed.drop
      rw [put_items] at hdrop
      have hevictions : (((t.store.read now).remove (tier, keyDigest)).put (tier, keyDigest)
          entry).evictions = t.store.evictions := (removeAll_frame [(tier, keyDigest)]).1
      refine ⟨entry, dropped, hpayload, h.byUse.push entry rfl, hdrop,
        hshed.keeps_put (get?_remove _ _) (hpayload ▸ hshort), ?_⟩
      rw [hshed.evictions, hevictions]

theorem effect_rejects (he : Effect policy hash t.store c x s') {tier keyDigest deployment : String}
    {payload : List UInt8} {reading : Option ℚ}
    (hc : c = .putIfAbsent tier keyDigest deployment payload reading)
    (hx : x = .returned (.outcome .rejected)) : policy.maxEntryBytes < payload.length := by
  subst hc hx
  cases he with
  | rejected hlong => exact hlong

theorem obeys_of_effect (h : t.Sound policy) (he : Effect policy hash t.store c x s') :
    Obeys policy hash t c x s' where
  raises _ hx := effect_raises he hx
  clock _ hreads hbad := effect_clock he hreads hbad
  keeps _ hitem := effect_keeps he hitem
  fresh _ hitem := effect_fresh he hitem
  returns hvalid hopen hclock := effect_returns he hvalid hopen hclock
  gets _ _ _ _ hc hx := effect_gets he hc hx
  puts _ _ _ _ _ _ hc hx hfits := effect_puts he hc hx hfits
  evicts _ _ _ _ _ hc hx := effect_evicts h he hc hx
  rejects _ _ _ _ _ hc hx := effect_rejects he hc hx
  deletes _ _ _ hc hx := effect_deletes he hc hx
  invalidates _ _ hc hx := effect_invalidates he hc hx
  clears _ hc hx := effect_clears he hc hx
  snapshots _ _ hc hx := effect_snapshots he hc hx

end Obeying

/-- One of the calls gives the entry a reason to go. -/
def EndedWithin (item : Item) : List StoreCall → Trace → Prop
  | [], _ => False
  | c :: calls, t => Ended policy t.store (t.next policy hash c).store item c
      ∨ EndedWithin item calls (t.next policy hash c)

variable {policy hash} in
/-- **Until it ends, an entry stays what it is.** -/
theorem entry_stays {t : Trace} (h : t.Sound policy) {item : Item}
    (hitem : item ∈ t.store.entries.items) (calls : List StoreCall)
    (hstays : ¬ EndedWithin policy hash item calls t) :
    item ∈ (t.plays policy hash calls).store.entries.items := by
  induction calls generalizing t with
  | nil => exact hitem
  | cons c calls ih =>
      rcases effect_keeps (h.effect hash c) hitem with hkept | hended
      · exact ih (Trace.sound_step h c) hkept fun hlater => hstays (.inr hlater)
      · exact absurd (.inl hended) hstays

/-- **A bounded map with expiry that evicts the least recently used.** After every history of calls
and clock readings the counter is right and the limits are kept, the next call is as it should be, and
an entry stays the same through later calls until one of them ends it. -/
theorem bounded_ttl_lru_map (calls : List StoreCall) :
    (Trace.start.plays policy hash calls).store.bytesUsed
        = ((Trace.start.plays policy hash calls).store.entries.items.map
            fun item => (item.2.payload.length : ℤ)).sum
      ∧ (Trace.start.plays policy hash calls).store.entries.items.length ≤ policy.maxEntries
      ∧ (Trace.start.plays policy hash calls).store.bytesUsed ≤ policy.maxTotalBytes
      ∧ (∀ c, Obeys policy hash (Trace.start.plays policy hash calls) c
          ((c.run policy hash).run [] (Trace.start.plays policy hash calls).store).1
          ((c.run policy hash).run [] (Trace.start.plays policy hash calls).store).2)
      ∧ ∀ item ∈ (Trace.start.plays policy hash calls).store.entries.items, ∀ later,
          ¬ EndedWithin policy hash item later (Trace.start.plays policy hash calls) →
          item ∈ ((Trace.start.plays policy hash calls).plays policy hash later).store.entries.items := by
  have h : (Trace.start.plays policy hash calls).Sound policy :=
    Trace.sound_plays (Trace.sound_start policy) calls
  refine ⟨h.bounded.balanced, h.bounded.fits.1, ?_, fun c => obeys_of_effect h (h.effect hash c),
    fun item hitem later hstays => entry_stays h hitem later hstays⟩
  have hbalanced : _ = _ := h.bounded.balanced
  rw [hbalanced]
  exact h.bounded.fits.2

/-! ### An expiry beyond the doubles -/

/-- Half of what is too much. -/
def hugePolicy : StorePolicy where
  maxEntries := 4
  maxEntryBytes := 4
  maxTotalBytes := 16
  ttl := 2 ^ 1023
  maxEntries_pos := by decide
  maxEntryBytes_pos := by decide
  maxTotalBytes_pos := by decide
  maxEntryBytes_le := by decide
  ttl_pos := by decide +kernel
  ttl_double := by decide +kernel

/-- The digest of the one payload below. -/
def oneByteHash : Hexdigest where
  sha256 := fun _ => "4bf5122f344554c53bde2ebb8cd2b7e3d1600ad631c385a5d7cce23c7785459a"
  digest := fun _ => by decide +kernel

def oneByteKey : String := "4bf5122f344554c53bde2ebb8cd2b7e3d1600ad631c385a5d7cce23c7785459a"

/-- A put under one key, at that time. -/
def putAt (reading : ℚ) : StoreCall :=
  .putIfAbsent "l0_metadata" oneByteKey oneByteKey [1] (some reading)

/-- A store with one entry, put at the beginning of time. -/
def putOnce : Trace := Trace.start.plays hugePolicy oneByteHash [putAt 0]

/-- The second put raises, and the entry is gone. -/
theorem raising_put_removes :
    (((putAt (2 ^ 1023)).run hugePolicy oneByteHash).run [] putOnce.store).1
        = .raised (.value "cache expiry must be finite and nonnegative")
      ∧ putOnce.store.entries.items.length = 1
      ∧ (((putAt (2 ^ 1023)).run hugePolicy oneByteHash).run [] putOnce.store).2.entries.items.length
        = 0 := by decide +kernel

end MemoryCache

end NanoAural
