import Mathlib.Logic.Function.Iterate
import Mathlib.Data.Nat.Init

/-!
# Scanning a list round and round

A cursor goes over a list of `n` entries in steps of at most `limit`, and starts
again where a step met the end. A step that stops exactly at the end may notice
or leave it to the next step, which then scans nothing. Either way no entry is
missed for longer than one round and one step.
-/

namespace CyclicScan

/-- Where a step leads that scans up to `limit` entries of `n`. -/
structure Steps (n limit : Nat) (next : Nat → Nat) : Prop where
  within : ∀ p, p + limit < n → next p = p + limit
  exact : ∀ p, p + limit = n → next p = n ∨ next p = 0
  beyond : ∀ p, p ≤ n → n < p + limit → next p = 0

variable {n limit : Nat} {next : Nat → Nat}

theorem Steps.le (h : Steps n limit next) {p : Nat} (hp : p ≤ n) : next p ≤ n := by
  rcases Nat.lt_trichotomy (p + limit) n with hlt | heq | hgt
  · rw [h.within p hlt]
    exact Nat.le_of_lt hlt
  · rcases h.exact p heq with hnext | hnext <;> omega
  · rw [h.beyond p hp hgt]
    exact Nat.zero_le n

/-- Steps that stay short of the end go straight on. -/
theorem Steps.straight (h : Steps n limit next) {p : Nat} (k : Nat) (hk : p + k * limit < n) :
    next^[k] p = p + k * limit := by
  induction k with
  | zero => simp
  | succ k ih =>
      rw [Nat.succ_mul] at hk ⊢
      rw [Function.iterate_succ_apply', ih (by omega), h.within _ (by omega), Nat.add_assoc]

/-- From any place the cursor is back at the start after what is left and one step. -/
theorem Steps.restarts (h : Steps n limit next) (hlimit : 0 < limit) {p : Nat} (hp : p ≤ n) :
    ∃ k, k ≤ (n - p) / limit + 1 ∧ next^[k] p = 0 := by
  obtain ⟨rounds, hrounds⟩ : ∃ k, k = (n - p) / limit := ⟨_, rfl⟩
  have hle : rounds * limit ≤ n - p := hrounds ▸ Nat.div_mul_le_self _ _
  have hgt : n - p < rounds * limit + limit := by
    have := Nat.lt_div_mul_add hlimit (a := n - p)
    rwa [← hrounds] at this
  rw [← hrounds]
  rcases Nat.lt_or_ge (p + rounds * limit) n with hlt | hge
  · refine ⟨rounds + 1, Nat.le_refl _, ?_⟩
    rw [Function.iterate_succ_apply', h.straight rounds hlt]
    exact h.beyond _ (Nat.le_of_lt hlt) (by omega)
  · -- The last of the straight steps stops exactly at the end.
    cases rounds with
    | zero =>
        refine ⟨1, Nat.le_refl _, ?_⟩
        rw [Function.iterate_one]
        exact h.beyond p hp (by omega)
    | succ rounds =>
        rw [Nat.succ_mul] at hle hge
        have hstraight := h.straight (p := p) rounds (by omega)
        rcases h.exact (p + rounds * limit) (by omega) with hnext | hnext
        · refine ⟨rounds + 2, Nat.le_refl _, ?_⟩
          rw [Function.iterate_succ_apply', Function.iterate_succ_apply', hstraight, hnext]
          exact h.beyond n (Nat.le_refl n) (by omega)
        · refine ⟨rounds + 1, Nat.le_succ _, ?_⟩
          rw [Function.iterate_succ_apply', hstraight, hnext]

/-- **No entry is missed.** Wherever the cursor stands, each entry is among those one of the next
steps scans, as many steps as a round takes and one more. -/
theorem Steps.covers (h : Steps n limit next) (hlimit : 0 < limit) {p : Nat} (hp : p ≤ n) {i : Nat}
    (hi : i < n) :
    ∃ k, k ≤ (n + limit - 1) / limit ∧ next^[k] p ≤ i ∧ i < next^[k] p + limit := by
  have hfrom : ∀ q, q ≤ i → ∃ k, k ≤ (i - q) / limit ∧ next^[k] q ≤ i
      ∧ i < next^[k] q + limit := by
    intro q hq
    have hle := Nat.div_mul_le_self (i - q) limit
    have hgt := Nat.lt_div_mul_add hlimit (a := i - q)
    refine ⟨(i - q) / limit, Nat.le_refl _, ?_⟩
    rw [h.straight ((i - q) / limit) (by omega)]
    omega
  rcases Nat.lt_or_ge i p with hlt | hge
  · obtain ⟨k, hk, hzero⟩ := h.restarts hlimit hp
    obtain ⟨k', hk', hscan⟩ := hfrom 0 (Nat.zero_le i)
    refine ⟨k' + k, ?_, by rwa [Function.iterate_add_apply, hzero]⟩
    have hsum : (n - p) / limit + (p - 1) / limit + 1 ≤ (n + limit - 1) / limit := by
      rw [Nat.add_assoc, ← Nat.add_div_right _ hlimit]
      refine Nat.le_trans Nat.div_add_div_le_add_div (Nat.div_le_div_right ?_)
      omega
    have hback : i / limit ≤ (p - 1) / limit := Nat.div_le_div_right (by omega)
    rw [Nat.sub_zero] at hk'
    omega
  · obtain ⟨k, hk, hscan⟩ := hfrom p hge
    exact ⟨k, Nat.le_trans hk (Nat.div_le_div_right (by omega)), hscan⟩

/-! ## Scanners -/

variable {σ ι : Type}

/-- One of the calls, made one after another, scans the entry. -/
def Scans (step : ι → σ → σ) (scanned : σ → ι → Nat → Prop) : List ι → σ → Nat → Prop
  | [], _, _ => False
  | c :: calls, s, i => scanned s c i ∨ Scans step scanned calls (step c s) i

variable {step : ι → σ → σ} {scanned : σ → ι → Nat → Prop} {At : σ → Nat → Prop}

theorem scans_iterate (hstep : ∀ s p c, At s p → At (step c s) (next p))
    (hscan : ∀ s p c i, At s p → p ≤ i → i < p + limit → i < n → scanned s c i) {i : Nat}
    (hi : i < n) (k : Nat) : ∀ (calls : List ι) (s : σ) (p : Nat), At s p → k < calls.length →
      next^[k] p ≤ i → i < next^[k] p + limit → Scans step scanned calls s i := by
  induction k with
  | zero =>
      intro calls s p hp hk hle hlt
      cases calls with
      | nil => cases hk
      | cons c calls => exact .inl (hscan s p c i hp hle hlt hi)
  | succ k ih =>
      intro calls s p hp hk hle hlt
      cases calls with
      | nil => cases hk
      | cons c calls =>
          exact .inr (ih calls (step c s) (next p) (hstep s p c hp) (Nat.lt_of_succ_lt_succ hk)
            hle hlt)

/-- **A round of calls and one more scan everything.** -/
theorem Steps.scans (h : Steps n limit next) (hlimit : 0 < limit)
    (hstep : ∀ s p c, At s p → At (step c s) (next p))
    (hscan : ∀ s p c i, At s p → p ≤ i → i < p + limit → i < n → scanned s c i)
    {calls : List ι} {s : σ} {p : Nat} (hs : At s p) (hp : p ≤ n)
    (hcalls : (n + limit - 1) / limit + 1 ≤ calls.length) {i : Nat} (hi : i < n) :
    Scans step scanned calls s i := by
  obtain ⟨k, hk, hle, hlt⟩ := h.covers hlimit hp hi
  exact scans_iterate hstep hscan hi k calls s p hs (by omega) hle hlt

end CyclicScan
