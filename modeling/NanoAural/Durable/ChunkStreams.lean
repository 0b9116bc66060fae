import Mathlib.Data.List.Basic

/-!
# Bounded chunk streams

`_iter_chunks` and `_bounded_candidate_chunks` of `artifact_publication`: the
generators through which every byte passes that is copied between stores. A
generator that is consumed to its end leaves the events of its body, in order, and
the way it ended. A reader is the sequence of what its `read` returns.
-/

namespace NanoAural

namespace ChunkStreams

/-- What a consumer and the progress hook see. -/
inductive StreamEvent where
  | progress (size : Nat)
  | handOn (chunk : List UInt8)
  deriving DecidableEq, Repr

/-- How a generator ends: it returns, or raises an `ArtifactRejectedError`. -/
inductive StreamEnd where
  | finished
  | rejected (message : String)
  deriving DecidableEq, Repr

/-- One round of a generator before the rest of its run. -/
def handing (size : Nat) (chunk : List UInt8) (rest : List StreamEvent × StreamEnd) :
    List StreamEvent × StreamEnd :=
  (.progress size :: .handOn chunk :: rest.1, rest.2)

/-- The loop of `_iter_chunks`. The bound ends it, however long the reader goes on. -/
def iterFrom (reads : Nat → List UInt8) (expectedSizeBytes index size : Nat) :
    List StreamEvent × StreamEnd :=
  if reads index = [] then
    if size ≠ expectedSizeBytes then ([], .rejected "artifact ended before its validated size")
    else ([], .finished)
  else if expectedSizeBytes < size + (reads index).length then
    ([], .rejected "artifact changed beyond its validated size")
  else
    handing (size + (reads index).length) (reads index)
      (iterFrom reads expectedSizeBytes (index + 1) (size + (reads index).length))
termination_by expectedSizeBytes - size
decreasing_by
  have := List.length_pos_iff.mpr ‹¬ reads index = []›
  omega

/-- `_iter_chunks`. -/
def iterChunks (reads : Nat → List UInt8) (expectedSizeBytes : Nat) :
    List StreamEvent × StreamEnd :=
  iterFrom reads expectedSizeBytes 0 0

/-- The loop of `_bounded_candidate_chunks`. -/
def boundedFrom (maxSizeBytes : Nat) (expectedSizeBytes : Option Nat) :
    Nat → List (List UInt8) → List StreamEvent × StreamEnd
  | _, [] => ([], .finished)
  | size, chunk :: rest =>
      if maxSizeBytes < size + chunk.length || expectedSizeBytes.any (· < size + chunk.length) then
        ([], .rejected "publication candidate exceeds its size bound")
      else
        handing (size + chunk.length) chunk
          (boundedFrom maxSizeBytes expectedSizeBytes (size + chunk.length) rest)

/-- `_bounded_candidate_chunks`. -/
def boundedCandidateChunks (chunks : List (List UInt8)) (maxSizeBytes : Nat)
    (expectedSizeBytes : Option Nat) : List StreamEvent × StreamEnd :=
  boundedFrom maxSizeBytes expectedSizeBytes 0 chunks

/-! ## What a run shows -/

/-- The chunks that were handed on. -/
def handedOn (events : List StreamEvent) : List (List UInt8) :=
  events.filterMap fun
    | .handOn chunk => some chunk
    | .progress _ => none

/-- The chunks handed on one after the other, each after the hook has seen the bytes up to its
end. -/
def announced : Nat → List (List UInt8) → List StreamEvent
  | _, [] => []
  | size, chunk :: rest =>
      .progress (size + chunk.length) :: .handOn chunk :: announced (size + chunk.length) rest

/-- The counts the hook sees directly before a chunk that is not empty. -/
def countsBefore : List StreamEvent → List Nat
  | .progress size :: .handOn chunk :: rest =>
      if chunk = [] then countsBefore rest else size :: countsBefore rest
  | _ :: rest => countsBefore rest
  | [] => []

/-- The reader ends after so many reads: the next one is its first empty one. -/
def EndsAfter (reads : Nat → List UInt8) (n : Nat) : Prop :=
  reads n = [] ∧ ∀ i < n, reads i ≠ []

end ChunkStreams

end NanoAural
