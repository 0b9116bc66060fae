import NanoAural.Proof.GenerationFence

/-!
# Payloads stay with their keys

Whatever a transaction reads as its cached preprocess payload was exported for its own key: the
store files every payload under a digest, a commit puts a transaction's payload under the digest of
the transaction's key, and a digest belongs to one key. This holds whoever expires, evicts, deletes
or invalidates meanwhile, so long as no transaction stages what was not exported for its key.
-/

namespace NanoAural

open Faulty Faulty.Prog

namespace L0L1Cache

open MemoryCache

variable {κ : Type} {env : Env κ} {Exports : κ → List UInt8 → Prop} {key : Option κ}

/-! ## The store -/

/-- Every preprocess payload in the store was exported for the key it is filed under. -/
structure Memory.Holds (env : Env κ) (Exports : κ → List UInt8 → Prop) (m : Memory) : Prop where
  bounded : m.store.Bounded env.policy
  exported : ∀ item ∈ m.store.entries.items, item.1.1 = "l1_preprocess" →
    ∀ k, env.digest k = item.1.2 → Exports k item.2.payload

/-- Keys of one digest have the same exports, as where every key has a digest of its own. -/
def Separates (env : Env κ) (Exports : κ → List UInt8 → Prop) : Prop :=
  ∀ k k', env.digest k = env.digest k' → ∀ payload, Exports k payload → Exports k' payload

/-- What the call would store was exported. -/
def Proper (env : Env κ) (Exports : κ → List UInt8 → Prop) (c : StoreCall) : Prop :=
  ∀ keyDigest deployment payload reading,
    c = .putIfAbsent "l1_preprocess" keyDigest deployment payload reading →
      ∀ k, env.digest k = keyDigest → Exports k payload

/-- **A call on the store** leaves what was there, or stores what it was given. -/
theorem Memory.Holds.effect {m m' : Memory} (h : m.Holds env Exports) {c : StoreCall}
    {x : Exit StoreRaise StoreAnswer} {store : MemoryStore}
    (he : MemoryCache.Effect env.policy env.hash m.store c x store) (hproper : Proper env Exports c)
    (hstore : m'.store = store) : m'.Holds env Exports := by
  refine ⟨hstore ▸ bounded_step h.bounded he, fun item hitem htier k hk => ?_⟩
  rw [hstore] at hitem
  rcases effect_fresh he hitem with hmem | ⟨_, reading, hcall⟩
  · exact h.exported item hmem htier k hk
  · rw [htier] at hcall
    exact hproper _ _ _ _ hcall k hk

/-! ## What the transactions' methods keep -/

/-- What the transaction has read as its preprocess payload was exported for its key. -/
def Transaction.Reads (Exports : κ → List UInt8 → Prop) (t : Transaction κ) : Prop :=
  ∀ p ∈ t.payloads.items, p.1 = "l1_preprocess" → ∃ k ∈ t.key, Exports k p.2.payload

/-- The store holds what was exported, and so does the transaction at hand, whose key is `key`. -/
structure Trusted (env : Env κ) (Exports : κ → List UInt8 → Prop) (key : Option κ) (s : State κ) :
    Prop where
  holds : s.toMemory.Holds env Exports
  key : s.txn.key = key
  reads : s.txn.Reads Exports

theorem trusted_update {f : Transaction κ → Transaction κ} (hkey : ∀ t, (f t).key = t.key)
    (hpayloads : ∀ t, ∀ p ∈ (f t).payloads.items, p ∈ t.payloads.items) :
    Always (Trusted env Exports key) (Transaction.update f) := by
  refine always_assign fun s hs => ⟨hs.holds, (hkey s.txn).trans hs.key, fun p hp htier => ?_⟩
  obtain ⟨k, hk, hexported⟩ := hs.reads p (hpayloads s.txn p hp) htier
  exact ⟨k, (hkey s.txn).symm ▸ hk, hexported⟩

/-- An update that leaves what was read. -/
theorem trusted_note {f : Transaction κ → Transaction κ}
    (hf : ∀ t, (f t).key = t.key ∧ (f t).payloads = t.payloads) :
    Always (Trusted env Exports key) (Transaction.update f) :=
  trusted_update (fun t => (hf t).1) fun t _ hp => (hf t).2 ▸ hp

theorem trusted_recordFault (reason : String) :
    Always (Trusted env Exports key) (Transaction.recordFault reason : CacheProg κ Unit) :=
  trusted_note fun _ => ⟨rfl, rfl⟩

theorem trusted_setState (tier : String) (state : TierState) :
    Always (Trusted env Exports key) (Transaction.setState tier state : CacheProg κ Unit) :=
  trusted_note fun _ => ⟨rfl, rfl⟩

theorem trusted_abort : Always (Trusted env Exports key) (Transaction.abort : CacheProg κ Unit) :=
  trusted_note fun _ => ⟨rfl, rfl⟩

/-- **A proper call keeps the trust**, and answers for what it finds. -/
theorem yields_trusted {α : Type} {mark : α → State κ → Identity → Nat}
    {method : Option ℚ → StoreProg α} {c : Option ℚ → StoreCall} {answer : α → StoreAnswer}
    {φ : α → Prop}
    (heffect : ∀ reading store, store.Balanced →
      Comes (method reading) store (Effects env.policy env.hash store (c reading) answer))
    (hproper : ∀ reading, Proper env Exports (c reading))
    (hφ : ∀ (m : Memory) reading a store', m.Holds env Exports →
      MemoryCache.Effect env.policy env.hash m.store (c reading) (.returned (answer a)) store' → φ a) :
    Yields (Trusted env Exports key) (Trusted env Exports key) (storeCall mark method)
      fun a _ => φ a := by
  have hrun : ∀ s : State κ, Trusted env Exports key s → Effects env.policy env.hash s.store
      (c (s.clock s.readings)) answer ((method (s.clock s.readings)).run [] s.store).1
      ((method (s.clock s.readings)).run [] s.store).2 := fun s hs =>
    (heffect (s.clock s.readings) s.store hs.holds.bounded.balanced).run
  refine yields_call (fun _ hs => hs) (fun s hs => ?_) fun s a s' hs heq => ?_
  · have he := hrun s hs
    generalize (method (s.clock s.readings)).run [] s.store = r at he ⊢
    obtain ⟨x, store⟩ := r
    cases x with
    | returned | raised | killed =>
        exact ⟨hs.holds.effect he (hproper _) rfl, hs.key, hs.reads⟩
  · have he := hrun s hs
    generalize (method (s.clock s.readings)).run [] s.store = r at he heq
    obtain ⟨x, store⟩ := r
    cases x with
    | returned a' =>
        obtain rfl := Except.ok.inj (Prod.mk.inj heq).1
        exact hφ s.toMemory _ _ _ hs.holds he
    | raised | killed => cases (Prod.mk.inj heq).1

theorem trusted_storeCall {α : Type} {mark : α → State κ → Identity → Nat}
    {method : Option ℚ → StoreProg α} {c : Option ℚ → StoreCall} {answer : α → StoreAnswer}
    (heffect : ∀ reading store, store.Balanced →
      Comes (method reading) store (Effects env.policy env.hash store (c reading) answer))
    (hproper : ∀ reading, Proper env Exports (c reading)) :
    Always (Trusted env Exports key) (storeCall mark method) :=
  (yields_trusted (φ := fun _ => True) heffect hproper fun _ _ _ _ _ _ => trivial).always

theorem trusted_safePut {tier : String} {k : κ} {payload : List UInt8}
    (hdigest : Separates env Exports) (hexported : tier = "l1_preprocess" → Exports k payload) :
    Always (Trusted env Exports key) (Cache.safePut env tier k payload) := by
  refine always_bind (always_peek _) fun _ => always_ite (fun _ => always_pure _) fun _ =>
    always_catchException (always_bind (trusted_storeCall
      (c := .putIfAbsent tier (env.digest k) (env.deployment k) payload)
      (fun reading _ h => putIfAbsent_effect env.policy env.hash h _ _ _ _ reading) ?_)
      fun _ => always_pure _) (always_pure _)
  intro reading keyDigest deployment payload' reading' hcall k' hk'
  injection hcall with htier hkey _ hpayload _
  exact hpayload ▸ hdigest k k' (hkey.trans hk'.symm) _ (hexported htier)

theorem trusted_safeDelete (tier : String) (k : κ) :
    Always (Trusted env Exports key) (Cache.safeDelete env tier k) :=
  always_bind (always_peek _) fun _ => always_ite (fun _ => always_pure _) fun _ =>
    always_catchException (trusted_storeCall (c := fun _ => .delete tier (env.digest k))
      (fun _ store _ => delete_effect env.policy env.hash (s := store) tier (env.digest k))
      fun _ _ _ _ _ h => (by cases h)) (always_pure _)

theorem trusted_report : Always (Trusted env Exports key) Transaction.report := by
  have hsnapshot : Always (Trusted env Exports key) Cache.safeSnapshot :=
    always_bind (always_peek _) fun _ => always_ite (fun _ => always_pure _) fun _ =>
      always_catchException (always_map _ (trusted_storeCall (c := .snapshot)
        (fun reading _ h => snapshot_effect env.policy env.hash h reading)
        fun _ _ _ _ _ h => (by cases h))) (always_pure _)
  exact always_bind (always_bind (always_peek _) fun _ => always_ite (fun _ => always_pure _)
    fun _ => hsnapshot) fun _ => always_bind (always_bind (always_peek _) fun _ =>
      always_ite (fun _ => trusted_recordFault _) fun _ => always_pure _) fun _ => always_peek _

/-! ### Reading -/

/-- **What is read was exported for the key it is read under.** -/
theorem getEntry_exported (k : κ) :
    Yields (Trusted env Exports key) (Trusted env Exports key)
      (Cache.getEntry env "l1_preprocess" k) fun entry _ => ∀ e ∈ entry, Exports k e.payload := by
  refine Always.yields_bind (always_peek _) (fun _ hs => hs) fun _ =>
    yields_raiseWhen_bind (fun _ hs => hs) fun _ =>
      yields_trusted (c := .getEntry "l1_preprocess" (env.digest k)) (φ := fun entry =>
        ∀ e ∈ entry, Exports k e.payload)
      (fun reading store _ => getEntry_effect env.policy env.hash (s := store) _ _ reading)
      (fun _ _ _ _ _ h => (by cases h)) fun m reading entry store' hm he e hmem => ?_
  obtain rfl := Option.mem_def.mp hmem
  cases he with
  | hit hnow hentry hlive => exact hm.exported _ (OrderedMap.get?_eq_some.mp hentry) rfl k rfl

theorem trusted_judge {tier : String} {k : κ} (hkey : key = some k) (expected : Option (List UInt8))
    {entry : Option StoreEntry}
    (hentry : tier = "l1_preprocess" → ∀ e ∈ entry, Exports k e.payload) :
    Always (Trusted env Exports key) (Transaction.judge env tier k expected entry) := by
  cases entry with
  | none => exact trusted_setState _ _
  | some entry =>
      refine always_ite (fun _ => ?_) fun _ => always_bind (trusted_setState _ _) fun _ =>
        always_bind (trusted_note fun _ => ⟨rfl, rfl⟩) fun _ => trusted_safeDelete _ _
      refine always_bind (trusted_setState _ _) fun _ => always_bind (always_peek _) fun origin =>
        always_assign fun s hs => ⟨hs.holds, hs.key, fun p hp htier => ?_⟩
      rcases OrderedMap.mem_put.mp hp with ⟨hmem, _⟩ | rfl
      · exact hs.reads p hmem htier
      · exact ⟨k, hs.key.trans hkey, hentry htier entry rfl⟩

theorem trusted_read {tier : String} {k : κ} (hkey : key = some k) (expected : Option (List UInt8)) :
    Always (Trusted env Exports key) (Transaction.read env tier k expected) := by
  have hentry : Yields (Trusted env Exports key) (Trusted env Exports key)
      (catchException (some <$> Cache.getEntry env tier k) (pure none))
      fun r _ => tier = "l1_preprocess" → ∀ entry ∈ r, ∀ e ∈ entry, Exports k e.payload := by
    by_cases htier : tier = "l1_preprocess"
    · subst htier
      refine yields_catchException (yields_map (Yields.weaken (getEntry_exported k) (fun _ hs => hs)
        fun entry s _ h _ e he => ?_)) (yields_pure (fun _ hs => hs) fun _ _ _ _ h => by cases h)
      obtain rfl := Option.some.inj he
      exact h
    · refine Always.yields_of (always_catchException (always_map _ ?_) (always_pure _))
        fun _ _ _ h => absurd h htier
      exact always_bind (always_peek _) fun _ => always_bind (always_raiseWhen _ _) fun _ =>
        trusted_storeCall (c := .getEntry tier (env.digest k))
          (fun reading store _ => getEntry_effect env.policy env.hash (s := store) _ _ reading)
          fun _ _ _ _ _ h => (by cases h)
  refine triple_bind hentry (fun r => ?_) (fun _ _ h => h.1) fun _ h => h.1
  cases r with
  | none =>
      exact Triple.weaken (always_bind (trusted_setState _ _) fun _ => trusted_recordFault _)
        (fun _ hs => hs.1) fun _ _ h => h
  | some entry =>
      refine fun faults s hs => ?_
      exact trusted_judge hkey expected (fun htier => hs.2 _ rfl htier entry rfl) faults s hs.1

/-! ## Programs -/

/-- The transaction at hand is to be trusted, whichever it is. -/
def Trusting (env : Env κ) (Exports : κ → List UInt8 → Prop) (s : State κ) : Prop :=
  Trusted env Exports s.txn.key s

theorem Trusted.trusting {s : State κ} (h : Trusted env Exports key s) : Trusting env Exports s :=
  ⟨h.holds, rfl, h.reads⟩

theorem trusting_of_trusted {α : Type} {p : CacheProg κ α}
    (h : ∀ key, Always (Trusted env Exports key) p) : Always (Trusting env Exports) p :=
  fun faults s hs => (h s.txn.key faults s hs).trusting

theorem trusting_keyless (begun : Nat) (reason : String) (disabled : Bool) :
    Always (Trusting env Exports) (Cache.keyless begun reason disabled) :=
  always_assign fun _ hs => ⟨hs.holds, rfl, fun _ hp => (by cases hp)⟩

theorem trusting_construct (begun : Nat) (k : κ) :
    Always (Trusting env Exports) (Transaction.construct env begun k) := by
  refine triple_assign_bind (R := Trusted env Exports (some k)) ?_ fun s hs =>
    ⟨hs.holds, rfl, fun _ hp => (by cases hp)⟩
  refine Triple.weaken (always_bind (trusted_read rfl _) fun _ => always_bind (trusted_read rfl _)
    fun _ => trusted_note fun t => ?_) (fun _ hs => hs) fun _ _ hs => hs.trusting
  split <;> exact ⟨rfl, rfl⟩

/-- **A transaction begins with what was exported for its key.** -/
theorem trusting_beginKeyed (begun : Nat) (deployment : String) (k : Except Raised κ) :
    Always (Trusting env Exports) (Cache.beginKeyed env begun deployment k) := by
  refine always_catchException ?_ (trusting_keyless begun _ _)
  cases k with
  | error e => exact always_raise e
  | ok k =>
      exact always_bind (always_peek _) fun _ =>
        always_ite (fun _ => trusting_keyless begun _ _) fun _ => trusting_construct begun k

theorem trusting_beginCheck (begun : Nat) (deployment : String) :
    Always (Trusting env Exports) (Cache.beginCheck (κ := κ) begun deployment) :=
  always_bind (always_peek _) fun _ => always_ite
    (fun _ => always_bind (trusting_keyless begun _ _) fun _ => always_pure _) fun _ => always_pure _

/-! ### Commits -/

section Calls

variable [DecidableEq κ] {t : Transaction κ}

/-- What the transaction would store was exported for its key. -/
def Transaction.Stages (Exports : κ → List UInt8 → Prop) (t : Transaction κ) : Prop :=
  ∀ payload, t.pending.get? "l1_preprocess" = some payload → ∀ k ∈ t.key, Exports k payload

/-- The transaction at hand is `t` as it was. -/
def Untouched (env : Env κ) (Exports : κ → List UInt8 → Prop) (t : Transaction κ) (s : State κ) :
    Prop := Trusted env Exports t.key s ∧ s.txn = t

variable (hdigest : Separates env Exports) (hstages : t.Stages Exports)

include hdigest hstages in
/-- **A commit files the payload under the key it was exported for.** -/
theorem yields_transaction_commit (current : Option κ) :
    Yields (Untouched env Exports t) (Trusted env Exports t.key) (Transaction.commit env current)
      fun _ _ => True := by
  refine yields_seq (φ := fun txn s => txn = t ∧ Trusted env Exports t.key s)
    (yields_peek (fun _ hs => hs.1) fun _ hs => ⟨hs.2, hs.1⟩) fun txn => ?_
  refine Triple.weaken (P := fun s => txn = t ∧ Trusted env Exports t.key s)
    (Triple.assume (Q := fun _ s => Trusted env Exports t.key s) fun htxn => ?_) (fun _ hs => hs)
    fun _ _ hs => ⟨hs, fun _ _ => trivial⟩
  subst htxn
  refine always_ite (fun _ => trusted_report) fun _ => ?_
  split
  · exact always_bind (trusted_note fun _ => ⟨rfl, rfl⟩) fun _ => trusted_report
  · rename_i k hk
    refine always_ite (fun _ => ?_) fun _ => always_bind trusted_abort fun _ => always_raise _
    refine always_bind (always_forEach_mem _ fun staged hstaged => always_bind
      (trusted_safePut hdigest fun htier => hstages _ ?_ k hk) fun outcome => ?_) fun _ =>
        always_bind trusted_abort fun _ => trusted_report
    · exact OrderedMap.get?_eq_some.mpr (htier ▸ hstaged)
    · cases outcome with
      | stored => exact trusted_note fun _ => ⟨rfl, rfl⟩
      | fault | rejected => exact trusted_recordFault _
      | present => exact always_pure _

include hdigest hstages in
theorem yields_commit (current : Except Raised κ) :
    Yields (Untouched env Exports t) (Trusted env Exports t.key) (Cache.commit env current)
      fun _ _ => True := by
  have huntouched : ∀ s, Untouched env Exports t s → Trusted env Exports t.key s := fun _ hs => hs.1
  refine Always.yields_bind (always_peek _) huntouched fun txn => ?_
  split
  · exact yields_transaction_commit hdigest hstages none
  · refine yields_seq (φ := fun _ => Untouched env Exports t) (yields_catchException ?_
      (Always.yields_bind trusted_abort (fun _ hs => hs) fun _ => yields_raise fun _ hs => hs))
      fun current => Always.yields_bind (always_peek _) huntouched fun generation =>
        yields_ite (fun _ => ?_) fun _ => yields_transaction_commit hdigest hstages (some current)
    · cases current with
      | error e => exact yields_raise huntouched
      | ok k => exact yields_pure huntouched fun _ hs => hs
    · exact Triple.weaken (always_bind (trusted_note fun _ => ⟨rfl, rfl⟩) fun _ => trusted_report)
        (fun _ hs => hs.1) fun _ _ hs => ⟨hs, fun _ _ => trivial⟩

include hdigest hstages in
theorem yields_transactionCall (c : TransactionCall κ) :
    Yields (Untouched env Exports t) (Trusted env Exports t.key) (c.run env) fun _ _ => True := by
  have hkeeps : ∀ {p : CacheProg κ Unit}, Always (Trusted env Exports t.key) p →
      Yields (Untouched env Exports t) (Trusted env Exports t.key) p fun _ _ => True :=
    fun h => Triple.weaken h (fun _ hs => hs.1) fun _ _ hs => ⟨hs, fun _ _ => trivial⟩
  cases c with
  | rejectCachedPreprocess =>
      refine hkeeps (always_bind (always_peek _) fun txn => ?_)
      split
      · exact always_pure _
      · exact always_bind (trusted_setState _ _) fun _ => always_bind
          (trusted_update (fun _ => rfl) fun _ _ hp => (OrderedMap.mem_erase.mp hp).1)
          fun _ => trusted_safeDelete _ _
  | stagePreprocess payload =>
      exact hkeeps (always_bind (always_peek _) fun _ => always_ite (fun _ => always_pure _) fun _ =>
        always_ite (fun _ => trusted_recordFault _) fun _ => trusted_note fun _ => ⟨rfl, rfl⟩)
  | recordFault reason => exact hkeeps (trusted_recordFault reason)
  | abort => exact hkeeps trusted_abort
  | report => exact hkeeps (always_map _ trusted_report)
  | commit current => exact yields_map (yields_commit hdigest hstages current)

end Calls

/-! ### Invalidations -/

theorem trusted_flag {f : State κ → State κ} (hf : ∀ s, (f s).store = s.store ∧ (f s).txn = s.txn) :
    Always (Trusted env Exports key) (assign f : CacheProg κ Unit) := by
  refine always_assign fun s hs => ?_
  obtain ⟨hstore, htxn⟩ := hf s
  exact ⟨⟨hstore ▸ hs.holds.bounded, hstore ▸ hs.holds.exported⟩, htxn ▸ hs.key, htxn ▸ hs.reads⟩

theorem trusted_invalidate (deployment : Option String) :
    Always (Trusted env Exports key) (Cache.invalidate (κ := κ) deployment) := by
  have hrest : ∀ {p handler : CacheProg κ Nat}, Always (Trusted env Exports key) p →
      Always (Trusted env Exports key) handler → Always (Trusted env Exports key) (do
        Cache.nextGeneration
        let disabled ← peek fun s => s.globallyDisabled
        if disabled then pure 0
        else catchException p handler) := fun hp hhandler =>
    always_bind (trusted_flag fun _ => ⟨rfl, rfl⟩) fun _ => always_bind (always_peek _) fun _ =>
      always_ite (fun _ => always_pure _) fun _ => always_catchException hp hhandler
  have hflag : ∀ {f : State κ → State κ}, (∀ s, (f s).store = s.store ∧ (f s).txn = s.txn) →
      Always (Trusted env Exports key) (do
        assign f
        pure 0 : CacheProg κ Nat) := fun hf => always_bind (trusted_flag hf) fun _ => always_pure _
  cases deployment with
  | none =>
      exact hrest (trusted_storeCall (c := fun _ => .invalidateAll)
        (fun _ store _ => invalidateAll_effect env.policy env.hash (s := store))
        fun _ _ _ _ _ h => (by cases h)) (hflag fun _ => ⟨rfl, rfl⟩)
  | some deployment =>
      refine always_bind ?_ fun _ => hrest (trusted_storeCall
        (c := fun _ => .invalidateDeployment deployment)
        (fun _ store _ => invalidateDeployment_effect env.policy env.hash (s := store) deployment)
        fun _ _ _ _ _ h => (by cases h)) (hflag fun _ => ⟨rfl, rfl⟩)
      cases MemoryCache.checkSha256 deployment "deployment_fingerprint" with
      | ok u => exact always_pure ()
      | error e => exact always_raise _

theorem trusted_close : Always (Trusted env Exports key) (Cache.close : CacheProg κ Unit) := by
  have hclose : ∀ store : MemoryStore, Comes MemoryCache.close store
      (Effects env.policy env.hash store .close fun _ => .nothing) := fun _ => ⟨_, _, rfl, .closed⟩
  exact always_bind (trusted_flag fun _ => ⟨rfl, rfl⟩) fun _ =>
    always_bind (trusted_flag fun _ => ⟨rfl, rfl⟩) fun _ => always_catchException
      (trusted_storeCall (c := fun _ => .close) (fun _ store _ => hclose store)
        fun _ _ _ _ _ h => (by cases h)) (always_pure _)

/-! ## Worlds -/

variable (env Exports) in
/-- The store holds what was exported, and what was read was. -/
structure World.Intact (w : World κ) : Prop where
  holds : w.memory.Holds env Exports
  reads : ∀ t ∈ w.transactions, t.Reads Exports

/-- No transaction leaves or changes its key. -/
def World.Prolongs (w w' : World κ) : Prop :=
  ∀ (j : Nat) (t : Transaction κ), w.transactions[j]? = some t →
    ∃ t' : Transaction κ, w'.transactions[j]? = some t' ∧ t'.key = t.key

namespace World

variable {w : World κ}

theorem Prolongs.of_eq {w' : World κ} (h : w'.transactions = w.transactions) : w.Prolongs w' :=
  fun _ t ht => ⟨t, h ▸ ht, rfl⟩

theorem Prolongs.append (t : Transaction κ) {w' : World κ}
    (h : w'.transactions = w.transactions ++ [t]) : w.Prolongs w' := by
  intro j t' ht'
  refine ⟨t', ?_, rfl⟩
  rw [h, List.getElem?_append_left (List.getElem?_eq_some_iff.mp ht').1, ht']

theorem Intact.state (h : w.Intact env Exports) {t : Transaction κ} (ht : t.Reads Exports) :
    Trusted env Exports t.key (w.state t) := ⟨h.holds, rfl, ht⟩

theorem Intact.idle (h : w.Intact env Exports) : Trusting env Exports (w.state noTransaction) :=
  ⟨h.holds, rfl, fun _ hp => (by cases hp)⟩

/-- A transaction that has begun joins. -/
theorem Intact.joined (h : w.Intact env Exports) {s : State κ} (hs : Trusting env Exports s)
    {w' : World κ} (hmemory : w'.memory = s.toMemory)
    (htransactions : w'.transactions = w.transactions ++ [s.txn]) : w'.Intact env Exports := by
  refine ⟨hmemory ▸ hs.holds, fun t ht => ?_⟩
  rw [htransactions] at ht
  rcases List.mem_append.mp ht with hold | hnew
  · exact h.reads t hold
  · obtain rfl := List.mem_singleton.mp hnew
    exact hs.reads

/-- **One step leaves every payload with its key**, whichever thread takes it. -/
theorem intact_step [DecidableEq κ] {w' : World κ} (hdigest : Separates env Exports)
    (h : w.Intact env Exports) (hstages : ∀ t ∈ w.transactions, t.Stages Exports)
    (hstep : Step env w w') : w'.Intact env Exports ∧ w.Prolongs w' := by
  cases hstep with
  | check deployment faults x s hrun =>
      have hs := Triple.run (trusting_beginCheck w.now deployment) h.idle hrun
      cases x with
      | raised | killed => exact ⟨⟨hs.holds, h.reads⟩, .of_eq rfl⟩
      | returned done =>
          cases done with
          | true => exact ⟨h.joined hs rfl rfl, .append _ rfl⟩
          | false => exact ⟨⟨hs.holds, h.reads⟩, .of_eq rfl⟩
  | begin n deployment hn key hkey faults x s hrun =>
      have hs := Triple.run (trusting_beginKeyed w.now deployment key) h.idle hrun
      cases x with
      | raised | killed => exact ⟨⟨hs.holds, h.reads⟩, .of_eq rfl⟩
      | returned u => exact ⟨h.joined hs rfl rfl, .append _ rfl⟩
  | transaction j t ht c faults x s hrun =>
      have hmem := List.mem_of_getElem? ht
      have hs := (Triple.run (yields_transactionCall hdigest (hstages t hmem) c)
        ⟨h.state (h.reads t hmem), rfl⟩ hrun).1
      refine ⟨⟨hs.holds, fun t' ht' => ?_⟩, fun i t' ht' => ?_⟩
      · rcases List.mem_or_eq_of_mem_set ht' with hold | rfl
        · exact h.reads t' hold
        · exact hs.reads
      · change ∃ t'', (w.transactions.set j s.txn)[i]? = some t'' ∧ _
        by_cases hij : j = i
        · subst hij
          obtain rfl := Option.some.inj (ht.symm.trans ht')
          refine ⟨s.txn, ?_, hs.key⟩
          rw [List.getElem?_set_self (List.getElem?_eq_some_iff.mp ht).1]
        · exact ⟨t', by rw [List.getElem?_set_ne hij, ht'], rfl⟩
  | invalidate deployment faults x s hrun =>
      have hs := Triple.run (trusting_of_trusted fun _ => trusted_invalidate deployment) h.idle hrun
      cases x with
      | returned | raised | killed => exact ⟨⟨hs.holds, h.reads⟩, .of_eq rfl⟩
  | close faults x s hrun =>
      have hs := Triple.run (trusting_of_trusted fun _ => trusted_close) h.idle hrun
      exact ⟨⟨hs.holds, h.reads⟩, .of_eq rfl⟩

theorem intact_init (h : w.Initial) : w.Intact env Exports := by
  refine ⟨⟨h.store ▸ bounded_new, fun item hitem => ?_⟩, fun t ht => ?_⟩
  · rw [h.store] at hitem
    cases hitem
  · rw [h.transactions] at ht
    cases ht

end World

end L0L1Cache

end NanoAural
