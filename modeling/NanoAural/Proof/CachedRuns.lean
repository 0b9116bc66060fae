import NanoAural.ControlFoley.StagedAdapter
import NanoAural.Proof.PayloadIntegrity
import NanoAural.Proof.StagedRuns

/-!
# Cached runs

An invocation through the L0/L1 cache returns what its request comes to without any cache. The two
halves need each other: an invocation stages what was exported for its key because what it read was
exported for its key, and the cache hands out what was exported because invocations stage nothing
else. The induction over the steps of all invocations carries both.
-/

namespace NanoAural

open Faulty Faulty.Prog

namespace StagedAdapter

open StagedPath (TaskKind Raised StagedArtifact StageValue Callbacks Path PathProg
  Swallowed Caught ensures_caught)
open L0L1Cache (TransactionCall)

variable {σ ς π ρ κ : Type} {Exports : κ → List UInt8 → Prop}

/-! ## One invocation -/

/-- What an invocation with this key has staged was exported for it. -/
def Sending (Exports : κ → List UInt8 → Prop) (k : κ) (desk : Desk σ κ) : Prop :=
  ∀ payload, TransactionCall.stagePreprocess payload ∈ desk.sent → Exports k payload

/-- A backend that computes `c`, and a codec whose payloads stand for the preprocess value of every
request with the key they were exported for. The recorder and the condition cache's callbacks are
harmless: a feature that is imported is the one that would be encoded. The token raises nothing that
would want a stage's name. None of them touches what is sent. -/
structure Deployment.Faithful (d : Deployment σ ς π ρ κ) (Exports : κ → List UInt8 → Prop)
    (session : ς) (c : ρ → StagedPath.Computation π) : Prop where
  loaded : d.path.sessions d.sessionId = some session
  computes : ∀ request, d.path.backend.Computes (Sending Exports (d.keyFor request)) (fun _ => True)
    session request (d.task request) (c request)
  watches : ∀ request, Ensures (Sending Exports (d.keyFor request)) (fun e => e ≠ .exception)
    d.raiseIfCancelled fun _ => True
  exports : ∀ codec ∈ d.path.backend.preprocessCodec, ∀ request,
    Ensures (Sending Exports (d.keyFor request)) (fun _ => True)
      (codec.exportPreprocessCache session (c request).preprocess request)
      fun payload => ∀ bytes ∈ payload, Exports (d.keyFor request) bytes
  imports : ∀ codec ∈ d.path.backend.preprocessCodec, ∀ request payload,
    Exports (d.keyFor request) payload →
      Ensures (Sending Exports (d.keyFor request)) (fun _ => True)
        (codec.importPreprocessCache session payload request)
        fun value => ∀ v ∈ value, v.stage = .mediaResolvePreprocess → v = (c request).preprocess
  callbacks : ∀ request, (d.callbacks request).Harmless (Sending Exports (d.keyFor request))
    (fun _ => True) d.path.backend session request (d.task request) (c request)

section Invocation

variable {d : Deployment σ ς π ρ κ} {session : ς} {c : ρ → StagedPath.Computation π} {request : ρ}

/-- A call that stages nothing. -/
theorem ensures_send {k : κ} {may : Raised → Prop} {call : TransactionCall κ}
    (hcall : ∀ payload, call = .stagePreprocess payload → Exports k payload) :
    Ensures (Sending Exports k) may (send call : PathProg (Desk σ κ) Unit) fun _ => True := by
  refine triple_assign fun desk hdesk => ⟨fun payload hpayload => ?_, trivial⟩
  rcases List.mem_append.mp hpayload with hold | hnew
  · exact hdesk payload hold
  · exact hcall payload (List.mem_singleton.mp hnew).symm

variable (h : d.Faithful Exports session c)

include h in
theorem Deployment.Faithful.found : d.path.session d.sessionId = (pure session : PathProg _ ς) := by
  unfold Path.session
  rw [h.loaded]

include h in
/-- **A payload that was exported for the key decodes to the request's value**, if at all. -/
theorem ensures_decodeCachedPreprocess {payload : List UInt8}
    (hpayload : Exports (d.keyFor request) payload) :
    Ensures (Sending Exports (d.keyFor request)) (fun _ => True)
      (d.path.decodeCachedPreprocess d.sessionId request d.raiseIfCancelled payload)
      fun value => value = some (c request).preprocess := by
  unfold Path.decodeCachedPreprocess
  rw [h.found]
  refine ensures_bind (ensures_pure (φ := fun s => s = session) rfl) fun s hs => ?_
  subst hs
  cases hcodec : d.path.backend.preprocessCodec with
  | none => exact ensures_raise trivial
  | some codec =>
      refine ensures_bind ((h.watches request).weaken (fun _ _ => trivial) fun _ h => h) fun _ _ =>
        ensures_bind (h.imports codec hcodec request payload hpayload) fun value hvalue =>
          ensures_raiseWhen_bind (fun _ => trivial) fun hstage => ensures_pure ?_
      cases value with
      | none => cases hstage
      | some v => exact congrArg some (hvalue v rfl (by simpa using hstage))

include h in
theorem ensures_encodePreprocess :
    Ensures (Sending Exports (d.keyFor request)) (fun _ => True)
      (d.path.encodePreprocess d.sessionId request (c request).preprocess)
      fun payload => Exports (d.keyFor request) payload := by
  unfold Path.encodePreprocess
  rw [h.found]
  refine ensures_bind (ensures_pure (φ := fun s => s = session) rfl) fun s hs => ?_
  subst hs
  cases hcodec : d.path.backend.preprocessCodec with
  | none => exact ensures_raise trivial
  | some codec =>
      refine ensures_raiseWhen_bind (fun _ => trivial) fun _ =>
        ensures_bind (h.exports codec hcodec request) fun payload hpayload => ?_
      split
      · exact ensures_pure (hpayload _ rfl)
      · exact ensures_raise trivial

include h in
/-- **What is staged was exported for the key.** -/
theorem ensures_capturePreprocess :
    Ensures (Sending Exports (d.keyFor request)) (fun _ => True)
      (d.capturePreprocess request (c request).preprocess) fun _ => True := by
  refine ensures_bind (φ := fun payload => ∀ bytes ∈ payload, Exports (d.keyFor request) bytes)
    (ensures_tryCatch (ensures_bind (ensures_encodePreprocess h) fun payload hpayload =>
      ensures_pure fun bytes hbytes => Option.some.inj hbytes ▸ hpayload) fun e _ => ?_)
    fun payload hpayload => ?_
  · cases e with
    | interrupt => exact ensures_raise trivial
    | cancelled | rejected | stageExecution | stageContract | adapterExecution | exception =>
        exact ensures_pure fun _ hbytes => (by cases hbytes)
  · cases payload with
    | none => exact ensures_send fun _ hcall => (by cases hcall)
    | some bytes =>
        refine ensures_send fun payload hcall => ?_
        injection hcall with hcall
        exact hcall ▸ hpayload bytes rfl

include h in
theorem harmless_cachedCallbacks {cached : Option (List UInt8)}
    (hcached : ∀ payload ∈ cached, Exports (d.keyFor request) payload) :
    (d.cachedCallbacks request cached).Harmless (Sending Exports (d.keyFor request))
      (fun _ => True) d.path.backend session request (d.task request) (c request) := by
  have hrest := h.callbacks request
  refine { hrest with decode := ?_, reject := ?_, capture := ?_ }
  · intro payload hpayload decode hdecode
    obtain ⟨_, _, rfl⟩ := Option.map_eq_some_iff.mp hdecode
    exact (ensures_decodeCachedPreprocess h (hcached payload hpayload)).weaken
      (fun _ _ _ => trivial) fun _ hvalue => hvalue
  · intro reject hreject
    obtain ⟨_, _, rfl⟩ := Option.map_eq_some_iff.mp hreject
    exact ensures_send fun _ hcall => (by cases hcall)
  · intro capture hcapture
    obtain rfl := Option.some.inj hcapture
    exact (ensures_capturePreprocess h).weaken (fun _ _ _ => trivial) fun _ _ => trivial

include h in
/-- **One invocation**, given a payload that was exported for its key or none. -/
theorem ensures_invoke {cached : Option (List UInt8)}
    (hcached : ∀ payload ∈ cached, Exports (d.keyFor request) payload) :
    Ensures (Sending Exports (d.keyFor request)) (fun _ => True) (d.invoke request cached)
      fun result => result
        = (c request).result d.path.backend.conditionFeatures.isSome (d.task request) := by
  refine (Path.ensures_invoke h.loaded (h.computes request) ?_
    (harmless_cachedCallbacks h hcached)).weaken (fun _ _ => trivial) fun _ hr => hr.1
  exact (h.watches request).weaken (fun _ he => ⟨trivial, he⟩) fun _ _ => trivial

end Invocation

/-! ## All invocations -/

section Runs

variable {env : L0L1Cache.Env κ} {d : Deployment σ ς π ρ κ} {session : ς}
  {c : ρ → StagedPath.Computation π}

variable (env d Exports c) in
/-- What holds after any steps of any invocations. -/
structure Service.Exact (s : Service κ ρ π) : Prop where
  intact : s.cache.Intact env Exports
  asked : s.Asked s.cache
  /-- What an invocation has staged was exported for its transaction's key. -/
  sent : ∀ j payload, TransactionCall.stagePreprocess payload ∈ s.sent j →
    ∃ t, s.cache.transactions[j]? = some t ∧ ∀ k ∈ t.key, Exports k payload
  returned : ∀ r ∈ s.returned,
    r.2 = (c r.1).result d.path.backend.conditionFeatures.isSome (d.task r.1)

namespace Service

variable {s : Service κ ρ π}

/-- Every transaction is about to commit what was exported for its key. -/
theorem Exact.stages (h : s.Exact Exports env d c) : ∀ t ∈ s.cache.transactions, t.Stages Exports := by
  intro t ht payload hpending k hk
  obtain ⟨j, hj⟩ := List.mem_iff_getElem?.mp ht
  obtain ⟨t', ht', hexported⟩ := h.sent j payload (h.asked j t hj payload hpending)
  obtain rfl := Option.some.inj (hj.symm.trans ht')
  exact hexported k hk

/-- What a transaction hands its invocation was exported for the invocation's key. -/
theorem Exact.cached (h : s.Exact Exports env d c) {t : L0L1Cache.Transaction κ}
    (ht : t ∈ s.cache.transactions) {request : ρ} (hkey : ∀ k ∈ t.key, k = d.keyFor request) :
    ∀ payload ∈ t.cachedPreprocess, Exports (d.keyFor request) payload := by
  intro payload hpayload
  obtain ⟨p, hp, rfl⟩ := Option.map_eq_some_iff.mp hpayload
  obtain ⟨k, hk, hexported⟩ := h.intact.reads t ht _ (OrderedMap.get?_eq_some.mp hp) rfl
  exact hkey k hk ▸ hexported

/-- **One step** of the cache or of an invocation. -/
theorem exact_step [DecidableEq κ] {s' : Service κ ρ π} (hdigest : L0L1Cache.Separates env Exports)
    (hd : d.Faithful Exports session c) (h : s.Exact Exports env d c) (hstep : Step env d s s') :
    s'.Exact Exports env d c := by
  cases hstep with
  | cache w hstep hasked =>
      obtain ⟨hintact, hprolongs⟩ := L0L1Cache.World.intact_step hdigest h.intact h.stages hstep
      refine ⟨hintact, hasked, fun j payload hsent => ?_, h.returned⟩
      obtain ⟨t, ht, hexported⟩ := h.sent j payload hsent
      obtain ⟨t', ht', hkey⟩ := hprolongs j t ht
      exact ⟨t', ht', hkey ▸ hexported⟩
  | invoke j t ht request hkey faults host x desk hrun =>
      have hmem := List.mem_of_getElem? ht
      obtain ⟨hsending, hresult⟩ := Triple.run (ensures_invoke hd (h.cached hmem hkey))
        (fun _ hp => (by cases hp)) hrun
      refine ⟨h.intact, fun i t' ht' payload hpending => ?_, fun i payload hsent => ?_,
        fun r hr => ?_⟩
      · -- what was asked for stays asked for
        have hold := h.asked i t' ht' payload hpending
        change _ ∈ Function.update s.sent j (s.sent j ++ desk.sent) i
        by_cases hij : i = j
        · subst hij
          rw [Function.update_self]
          exact List.mem_append_left _ hold
        · rwa [Function.update_of_ne hij]
      · change _ ∈ Function.update s.sent j (s.sent j ++ desk.sent) i at hsent
        by_cases hij : i = j
        · subst hij
          rw [Function.update_self] at hsent
          rcases List.mem_append.mp hsent with hold | hnew
          · exact h.sent i payload hold
          · exact ⟨t, ht, fun k hk => hkey k hk ▸ hsending payload hnew⟩
        · rw [Function.update_of_ne hij] at hsent
          exact h.sent i payload hsent
      · cases x with
        | returned result =>
            rcases List.mem_cons.mp hr with rfl | hold
            · exact hresult
            · exact h.returned r hold
        | raised | killed => exact h.returned r hr

theorem exact_init (h : s.Initial) : s.Exact Exports env d c := by
  refine ⟨L0L1Cache.World.intact_init h.cache, fun j t ht => ?_, fun j payload hsent => ?_,
    fun r hr => ?_⟩
  · rw [h.cache.transactions] at ht
    cases ht
  · rw [h.sent] at hsent
    cases hsent
  · rw [h.returned] at hr
    cases hr

theorem exact_reachable [DecidableEq κ] (hdigest : L0L1Cache.Separates env Exports)
    (hd : d.Faithful Exports session c) (h : (service env d).Reachable s) : s.Exact Exports env d c :=
  h.invariant (I := Exact Exports env d c) (fun _ hinit => exact_init hinit)
    fun _ _ _ hexact hstep => exact_step hdigest hd hexact hstep

end Service

/-- **The cache never shows in a result.** However the invocations of a session interleave with each
other, with expiry, eviction and invalidation and with whatever the store raises: what one of them
returns is what its request comes to without a cache. -/
theorem cached_invocations_exact [DecidableEq κ] (hdigest : L0L1Cache.Separates env Exports)
    (hd : d.Faithful Exports session c) {s : Service κ ρ π} (h : (service env d).Reachable s) :
    ∀ r ∈ s.returned, r.2 = (c r.1).result d.path.backend.conditionFeatures.isSome (d.task r.1) :=
  (Service.exact_reachable hdigest hd h).returned

end Runs

/-! ### A payload that comes back -/

open StagedPath (toneBackend toneBackend_computes toneComputation toneValue)
open L0L1Cache (PlainStep plainEnv emptyCache)
open MemoryCache (oneByteKey)

/-- One more value computed. -/
def count (desk : Desk Nat String) : Desk Nat String := { desk with host := desk.host + 1 }

def toneDeployment : Deployment Nat Unit (List UInt8) Unit String where
  path := ⟨toneBackend count, fun _ => some ()⟩
  sessionId := "session"
  task _ := .t2a
  keyFor _ := oneByteKey
  raiseIfCancelled := pure ()
  callbacks _ := .none

/-- The one payload there is. -/
def toneExports (_ : String) (payload : List UInt8) : Prop := payload = [7]

theorem toneDeployment_faithful : toneDeployment.Faithful toneExports () fun _ => toneComputation where
  loaded := rfl
  computes _ := toneBackend_computes count (fun _ hs => hs) () .t2a
  watches _ := ensures_pure trivial
  exports codec hcodec request := by
    obtain rfl := Option.some.inj hcodec
    exact ensures_pure fun _ hbytes => (Option.some.inj hbytes).symm
  imports codec hcodec request payload hpayload := by
    obtain rfl := Option.some.inj hcodec
    refine ensures_pure fun v hv _ => ?_
    rw [← Option.some.inj hv, show payload = [7] from hpayload]
    rfl
  callbacks _ := by constructor <;> exact fun _ h => by cases h

/-- A step where nothing goes wrong. -/
inductive PlainMove where
  | cache (p : PlainStep)
  | invokes (j : Nat)

/-- The call stages that payload. -/
def stages (payload : List UInt8) : TransactionCall String → Bool
  | .stagePreprocess payload' => payload' == payload
  | _ => false

namespace Service

variable (s : Service String Unit (List UInt8))

def plainRun (j : Nat) : Exit Raised (StagedArtifact × List (StageValue (List UInt8))) ×
    Desk Nat String :=
  (toneDeployment.invoke () (s.cache.transactionAt j).cachedPreprocess).run [] ⟨0, []⟩

def plain : PlainMove → Service String Unit (List UInt8)
  | .cache p => { s with cache := s.cache.plain p }
  | .invokes j => s.invoked j () (s.plainRun j).1 (s.plainRun j).2.sent

/-- `Asked`, decided. -/
def askedBy (w : L0L1Cache.World String) : Bool :=
  (List.range w.transactions.length).all fun j =>
    ((w.transactionAt j).pending.get? "l1_preprocess").all fun payload =>
      (s.sent j).any (stages payload)

def plainOk : PlainMove → Bool
  | .cache p => s.cache.plainOk p && s.askedBy (s.cache.plain p)
  | .invokes j => (s.cache.transactions[j]?).isSome
      && (s.cache.transactionAt j).key == some oneByteKey

variable {s}

theorem asked_of {w : L0L1Cache.World String} (h : s.askedBy w = true) : s.Asked w := by
  intro j t ht payload hpending
  have hj := (List.getElem?_eq_some_iff.mp ht).1
  have hat : w.transactionAt j = t := by
    rw [L0L1Cache.World.transactionAt, List.getD_eq_getElem?_getD, ht, Option.getD_some]
  have hsent := List.all_eq_true.mp h j (List.mem_range.mpr hj)
  rw [hat, hpending] at hsent
  obtain ⟨call, hcall, hstages⟩ := List.any_eq_true.mp hsent
  cases call with
  | stagePreprocess payload' => exact eq_of_beq hstages ▸ hcall
  | rejectCachedPreprocess | recordFault | abort | report | commit => cases hstages

theorem plain_step {move : PlainMove} (h : s.plainOk move = true) :
    Step plainEnv toneDeployment s (s.plain move) := by
  simp only [plainOk] at h
  split at h
  · rw [Bool.and_eq_true] at h
    exact .cache _ (L0L1Cache.World.plain_step h.1) (asked_of h.2)
  · rw [Bool.and_eq_true, beq_iff_eq] at h
    refine .invoke _ _ (L0L1Cache.World.transactionAt_get h.1) () (fun k hk => ?_) [] 0 _ _ rfl
    exact Option.some.inj (hk.symm.trans h.2)

def plays : List PlainMove → Service String Unit (List UInt8) → Service String Unit (List UInt8)
  | [], s => s
  | move :: moves, s => plays moves (s.plain move)

def playsOk : List PlainMove → Service String Unit (List UInt8) → Bool
  | [], _ => true
  | move :: moves, s => s.plainOk move && playsOk moves (s.plain move)

theorem plays_reachable (moves : List PlainMove)
    (h : (service plainEnv toneDeployment).Reachable s) (hok : playsOk moves s = true) :
    (service plainEnv toneDeployment).Reachable (plays moves s) := by
  induction moves generalizing s with
  | nil => exact h
  | cons move moves ih =>
      rw [playsOk, Bool.and_eq_true] at hok
      exact ih (h.step (plain_step hok.1)) hok.2

end Service

/-- The first invocation stores its preprocess payload, the second one reads it. -/
def toneTwice : List PlainMove :=
  [.cache .checks, .cache .begins, .invokes 0, .cache (.calls 0 (.stagePreprocess [7])),
    .cache (.calls 0 (.commit (.ok oneByteKey))), .cache .checks, .cache .begins, .invokes 1]

def idleService : Service String Unit (List UInt8) := ⟨emptyCache, fun _ => [], []⟩

theorem toneTwice_reachable :
    (service plainEnv toneDeployment).Reachable (Service.plays toneTwice idleService) :=
  Service.plays_reachable toneTwice
    (.of_init ⟨⟨rfl, rfl, ⟨rfl, rfl⟩, rfl, rfl, rfl⟩, fun _ => rfl, rfl⟩) (by decide +kernel)

/-- Both return the same, though the second began with the first one's payload. -/
theorem cached_invocations_exact_twice :
    ((Service.plays toneTwice idleService).cache.transactionAt 1).cachedPreprocess = some [7] ∧
      (Service.plays toneTwice idleService).returned.length = 2 ∧
      ∀ r ∈ (Service.plays toneTwice idleService).returned,
        r.2 = toneComputation.result true .t2a := by
  refine ⟨by decide +kernel, by decide +kernel, ?_⟩
  exact cached_invocations_exact (fun _ _ _ _ h => h) toneDeployment_faithful toneTwice_reachable

end StagedAdapter

end NanoAural
