import NanoAural.Durable.ChunkStreams

/-!
# Bounded chunk streams are exact

The bound is checked before the chunk that crosses it is handed on, so that what was
handed on never exceeds it, however the bytes are split. Both loops keep one
invariant: what they have shown is an announcement of chunks whose bytes, with those
before, stay within the bound.
-/

namespace NanoAural

namespace ChunkStreams

/-! ## Announcements -/

/-- So many bytes. -/
def bytesIn (chunks : List (List UInt8)) : Nat := chunks.flatten.length

theorem bytesIn_cons (chunk : List UInt8) (rest : List (List UInt8)) :
    bytesIn (chunk :: rest) = chunk.length + bytesIn rest := by
  rw [bytesIn, List.flatten_cons, List.length_append, bytesIn]

theorem handedOn_announced (size : Nat) (chunks : List (List UInt8)) :
    handedOn (announced size chunks) = chunks := by
  induction chunks generalizing size with
  | nil => rfl
  | cons chunk rest ih =>
      change chunk :: handedOn (announced (size + chunk.length) rest) = chunk :: rest
      rw [ih]

/-- **The counts grow** from one chunk with bytes to the next. -/
theorem countsBefore_announced (size : Nat) (chunks : List (List UInt8)) :
    (countsBefore (announced size chunks)).Pairwise (· < ·)
      ∧ ∀ count ∈ countsBefore (announced size chunks), size < count := by
  induction chunks generalizing size with
  | nil => exact ⟨.nil, fun _ h => absurd h List.not_mem_nil⟩
  | cons chunk rest ih =>
      obtain ⟨hpair, hlow⟩ := ih (size + chunk.length)
      rw [announced, countsBefore]
      split
      · rename_i hempty
        rw [hempty] at hpair hlow ⊢
        exact ⟨hpair, hlow⟩
      · rename_i hne
        have hpos := List.length_pos_iff.mpr hne
        refine ⟨.cons hlow hpair, fun count hcount => ?_⟩
        rcases List.mem_cons.mp hcount with rfl | hcount
        · omega
        · have := hlow count hcount
          omega

theorem handing_announced {size : Nat} {chunk : List UInt8} {chunks : List (List UInt8)}
    {rest : List StreamEvent × StreamEnd} (h : rest.1 = announced (size + chunk.length) chunks) :
    (handing (size + chunk.length) chunk rest).1 = announced size (chunk :: chunks) := by
  rw [handing, announced, h]

/-! ## The reader -/

/-- The reads from one index on, so many. -/
def readsFrom (reads : Nat → List UInt8) (index count : Nat) : List (List UInt8) :=
  (List.range count).map fun i => reads (index + i)

theorem readsFrom_succ (reads : Nat → List UInt8) (index count : Nat) :
    readsFrom reads index (count + 1) = reads index :: readsFrom reads (index + 1) count := by
  rw [readsFrom, List.range_succ_eq_map, List.map_cons, List.map_map, readsFrom, Nat.add_zero]
  refine congrArg (reads index :: ·) (List.map_congr_left fun i _ => ?_)
  rw [Function.comp_apply, Nat.succ_eq_add_one]
  congr 1
  omega

/-- What the loop has done when it ends. -/
structure Copied (reads : Nat → List UInt8) (expected index size : Nat)
    (run : List StreamEvent × StreamEnd) (count : Nat) : Prop where
  shown : run.1 = announced size (readsFrom reads index count)
  full : ∀ i < count, reads (index + i) ≠ []
  within : size + bytesIn (readsFrom reads index count) ≤ expected
  ending : run.2 = .finished ∧ reads (index + count) = []
        ∧ size + bytesIn (readsFrom reads index count) = expected
      ∨ (∃ message, run.2 = .rejected message)
        ∧ (reads (index + count) = [] ∧ size + bytesIn (readsFrom reads index count) ≠ expected
          ∨ expected < size + bytesIn (readsFrom reads index count)
            + (reads (index + count)).length)

/-- **The loop copies reads up to the bound**, by induction on what is left of it. -/
theorem iterFrom_copied (reads : Nat → List UInt8) (expected index size : Nat)
    (hsize : size ≤ expected) :
    ∃ count, Copied reads expected index size (iterFrom reads expected index size) count := by
  induction index, size using iterFrom.induct reads expected with
  | case1 index size hempty hne =>
      rw [iterFrom, if_pos hempty, if_pos hne]
      refine ⟨0, rfl, fun _ h => absurd h (Nat.not_lt_zero _), hsize, Or.inr ⟨⟨_, rfl⟩, Or.inl ⟨hempty, hne⟩⟩⟩
  | case2 index size hempty heq =>
      rw [iterFrom, if_pos hempty, if_neg heq]
      exact ⟨0, rfl, fun _ h => absurd h (Nat.not_lt_zero _), hsize,
        Or.inl ⟨rfl, hempty, not_not.mp heq⟩⟩
  | case3 index size hne hover =>
      rw [iterFrom, if_neg hne, if_pos hover]
      exact ⟨0, rfl, fun _ h => absurd h (Nat.not_lt_zero _), hsize,
        Or.inr ⟨⟨_, rfl⟩, Or.inr hover⟩⟩
  | case4 index size hne hunder ih =>
      obtain ⟨count, hcopied⟩ := ih (by omega)
      have hbytes := bytesIn_cons (reads index) (readsFrom reads (index + 1) count)
      have hindex : index + (count + 1) = index + 1 + count := by omega
      rw [iterFrom, if_neg hne, if_neg hunder]
      refine ⟨count + 1, ?_, fun i hi => ?_, ?_, ?_⟩
      · rw [readsFrom_succ]
        exact handing_announced hcopied.shown
      · cases i with
        | zero => exact hne
        | succ i =>
            have := hcopied.full i (by omega)
            rwa [show index + 1 + i = index + (i + 1) by omega] at this
      · rw [readsFrom_succ, hbytes]
        have := hcopied.within
        omega
      · rw [readsFrom_succ, hbytes, hindex, ← Nat.add_assoc]
        exact hcopied.ending

theorem bytesIn_prefix {front chunks : List (List UInt8)} (h : front <+: chunks) :
    bytesIn front ≤ bytesIn chunks := by
  obtain ⟨rest, rfl⟩ := h
  rw [bytesIn, bytesIn, List.flatten_append, List.length_append]
  exact Nat.le_add_right _ _

/-- A reader that ends with the expected number of bytes is not turned away. -/
theorem Copied.finished {reads : Nat → List UInt8} {expected count n : Nat}
    {run : List StreamEvent × StreamEnd} (h : Copied reads expected 0 0 run count)
    (hends : EndsAfter reads n) (htotal : bytesIn (readsFrom reads 0 n) = expected) :
    run.2 = .finished := by
  rcases h.ending with ⟨hend, -⟩ | ⟨-, hwhy⟩
  · exact hend
  · have hle : ¬ n < count := fun hlt => h.full n hlt (by rw [Nat.zero_add]; exact hends.1)
    rcases hwhy with ⟨hempty, hne⟩ | hover
    · have heq : count = n := by
        by_contra hne'
        exact hends.2 count (by omega) (by rwa [Nat.zero_add] at hempty)
      rw [heq, htotal] at hne
      exact absurd (Nat.zero_add _) hne
    · have hbytes : bytesIn (readsFrom reads 0 (count + 1))
          = bytesIn (readsFrom reads 0 count) + (reads count).length := by
        rw [readsFrom, List.range_succ, List.map_append, bytesIn, List.flatten_append,
          List.length_append, readsFrom, bytesIn]
        simp
      rw [Nat.zero_add, Nat.zero_add] at hover
      by_cases heq : count = n
      · rw [heq, hends.1, List.length_nil, htotal] at hover
        omega
      · have hprefix : readsFrom reads 0 (count + 1) <+: readsFrom reads 0 n := by
          refine List.IsPrefix.map _ ?_
          rw [List.prefix_iff_eq_take, List.length_range, List.take_range]
          congr 1
          omega
        have := bytesIn_prefix hprefix
        omega

/-! ## The candidate -/

/-- A number of bytes that the bounds allow. -/
def Allowed (maxSize : Nat) (expected : Option Nat) (size : Nat) : Prop :=
  size ≤ maxSize ∧ ∀ limit ∈ expected, size ≤ limit

/-- **The loop hands the candidate on up to the bounds**, by induction on its chunks. -/
theorem boundedFrom_copied {maxSize : Nat} {expected : Option Nat} {size : Nat}
    (chunks : List (List UInt8)) (hsize : Allowed maxSize expected size) :
    ∃ front, front <+: chunks
      ∧ (boundedFrom maxSize expected size chunks).1 = announced size front
      ∧ Allowed maxSize expected (size + bytesIn front)
      ∧ ((boundedFrom maxSize expected size chunks).2 = .finished ∧ front = chunks
        ∨ (∃ message, (boundedFrom maxSize expected size chunks).2 = .rejected message)
          ∧ ¬ Allowed maxSize expected (size + bytesIn chunks)) := by
  induction chunks generalizing size with
  | nil => exact ⟨[], List.prefix_rfl, rfl, hsize, Or.inl ⟨rfl, rfl⟩⟩
  | cons chunk rest ih =>
      have hbytes := bytesIn_cons chunk rest
      rw [boundedFrom]
      by_cases hover : (decide (maxSize < size + chunk.length)
          || expected.any (· < size + chunk.length)) = true
      · rw [if_pos hover]
        refine ⟨[], List.nil_prefix, rfl, hsize, Or.inr ⟨⟨_, rfl⟩, fun hallowed => ?_⟩⟩
        rw [Bool.or_eq_true, decide_eq_true_eq, Option.any_eq_true] at hover
        rcases hover with hmax | ⟨limit, hlimit, hlt⟩
        · have := hallowed.1
          omega
        · have := hallowed.2 limit hlimit
          have := of_decide_eq_true hlt
          omega
      · have hallowed : Allowed maxSize expected (size + chunk.length) := by
          rw [Bool.or_eq_true, decide_eq_true_eq, Option.any_eq_true] at hover
          refine ⟨by omega, fun limit hlimit => ?_⟩
          by_contra hlt
          exact hover (Or.inr ⟨limit, hlimit, decide_eq_true (by omega)⟩)
        obtain ⟨front, hfront, hshown, hwithin, hending⟩ := ih hallowed
        have hfrontBytes := bytesIn_cons chunk front
        rw [if_neg hover]
        refine ⟨chunk :: front, (List.prefix_cons_inj chunk).mpr hfront, handing_announced hshown,
          ?_, ?_⟩
        · rw [hfrontBytes, ← Nat.add_assoc]
          exact hwithin
        · rw [hbytes, ← Nat.add_assoc]
          rcases hending with ⟨hend, heq⟩ | hend
          · exact Or.inl ⟨hend, congrArg (chunk :: ·) heq⟩
          · exact Or.inr hend

/-! ## Both streams -/

/-- **Bounded chunk streams are exact.** A reader that is copied to its end is copied whole and has
the expected number of bytes; else it is turned away after at most so many. A candidate within its
bounds is handed on as it is; else it is turned away after a part of it within them. The progress
hook sees the count of bytes before each chunk is handed on, and it grows with every chunk that has
bytes. -/
theorem bounded_streams_exact :
    (∀ (reads : Nat → List UInt8) (expectedSizeBytes : Nat),
      let run := iterChunks reads expectedSizeBytes
      (run.2 = .finished → ∃ n, EndsAfter reads n ∧ handedOn run.1 = (List.range n).map reads
        ∧ bytesIn (handedOn run.1) = expectedSizeBytes)
      ∧ (∀ n, EndsAfter reads n → bytesIn ((List.range n).map reads) = expectedSizeBytes →
        run.2 = .finished)
      ∧ (run.2 ≠ .finished →
        (∃ message, run.2 = .rejected message) ∧ bytesIn (handedOn run.1) ≤ expectedSizeBytes)
      ∧ run.1 = announced 0 (handedOn run.1) ∧ (countsBefore run.1).Pairwise (· < ·))
    ∧ ∀ (chunks : List (List UInt8)) (maxSizeBytes : Nat) (expectedSizeBytes : Option Nat),
      let run := boundedCandidateChunks chunks maxSizeBytes expectedSizeBytes
      (run.2 = .finished → handedOn run.1 = chunks)
      ∧ (run.2 = .finished ↔ Allowed maxSizeBytes expectedSizeBytes (bytesIn chunks))
      ∧ (run.2 ≠ .finished → ∃ message, run.2 = .rejected message)
      ∧ handedOn run.1 <+: chunks
      ∧ Allowed maxSizeBytes expectedSizeBytes (bytesIn (handedOn run.1))
      ∧ run.1 = announced 0 (handedOn run.1) ∧ (countsBefore run.1).Pairwise (· < ·) := by
  constructor
  · intro reads expected run
    obtain ⟨count, h⟩ := iterFrom_copied reads expected 0 0 (Nat.zero_le _)
    have hreads : ∀ n, readsFrom reads 0 n = (List.range n).map reads := fun n =>
      List.map_congr_left fun i _ => by rw [Nat.zero_add]
    have hhanded : handedOn run.1 = readsFrom reads 0 count := by
      rw [show run.1 = _ from h.shown, handedOn_announced]
    have hwithin := h.within
    rw [Nat.zero_add] at hwithin
    refine ⟨fun hend => ?_, fun n hends htotal => h.finished hends (by rw [hreads, htotal]),
      fun hend => ⟨?_, by rw [hhanded]; exact hwithin⟩, by rw [hhanded]; exact h.shown, ?_⟩
    -- it ends on an empty read only, with every earlier read handed on
    · rcases h.ending with ⟨-, hempty, htotal⟩ | ⟨⟨_, hrejected⟩, -⟩
      · rw [Nat.zero_add] at hempty htotal
        refine ⟨count, ⟨hempty, fun i hi => ?_⟩, by rw [hhanded, hreads], by rw [hhanded, htotal]⟩
        have := h.full i hi
        rwa [Nat.zero_add] at this
      · rw [show run.2 = _ from hrejected] at hend
        cases hend
    · rcases h.ending with ⟨hfinished, -⟩ | ⟨hrejected, -⟩
      · exact absurd hfinished hend
      · exact hrejected
    · rw [show run.1 = _ from h.shown]
      exact (countsBefore_announced 0 _).1
  · intro chunks maxSize expected run
    -- no bound is broken before the first chunk
    have hzero : Allowed maxSize expected 0 := ⟨Nat.zero_le _, fun _ _ => Nat.zero_le _⟩
    obtain ⟨front, hfront, hshown, hwithin, hending⟩ := boundedFrom_copied chunks hzero
    have hhanded : handedOn run.1 = front := by
      rw [show run.1 = _ from hshown, handedOn_announced]
    rw [Nat.zero_add] at hwithin
    rw [Nat.zero_add] at hending
    rw [hhanded]
    refine ⟨fun hend => ?_, ⟨fun hend => ?_, fun hallowed => ?_⟩, fun hend => ?_, hfront, hwithin,
      hshown, ?_⟩
    · rcases hending with ⟨-, heq⟩ | ⟨⟨_, hrejected⟩, -⟩
      · exact heq
      · rw [show run.2 = _ from hrejected] at hend
        cases hend
    · rcases hending with ⟨-, heq⟩ | ⟨⟨_, hrejected⟩, -⟩
      · rw [← heq]
        exact hwithin
      · rw [show run.2 = _ from hrejected] at hend
        cases hend
    · rcases hending with ⟨hfinished, -⟩ | ⟨-, hnot⟩
      · exact hfinished
      · exact absurd hallowed hnot
    · rcases hending with ⟨hfinished, -⟩ | ⟨hrejected, -⟩
      · exact absurd hfinished hend
      · exact hrejected
    · rw [show run.1 = _ from hshown]
      exact (countsBefore_announced 0 _).1

end ChunkStreams

end NanoAural
