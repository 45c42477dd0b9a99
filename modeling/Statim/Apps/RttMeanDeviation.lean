import Mathlib.Data.List.Basic
import Mathlib.Algebra.Ring.Nat
import Mathlib.Data.Int.Notation

/-!
# The round-trip estimator of a consumer

`RttMeanDeviation` times the sequence numbers it is told about and smooths the
samples it takes.  The smoothing runs in floating point and is a parameter here;
when a sample is taken, and what `Reset` forgets, is not.
-/

namespace Statim

/-- The floating-point part of the estimator, on times in nanoseconds. -/
structure RttArithmetic where
  initialEstimatedRtt : ℤ
  /-- The variance after a first sample. -/
  halve : ℤ → ℤ
  /-- The estimate and the variance after a further sample. -/
  smooth : ℤ → ℤ → ℤ → ℤ × ℤ
  /-- The timeout from the multiplier, the estimate and the variance, between the
  configured bounds. -/
  timeout : ℕ → ℤ → ℤ → ℤ

/-- `RttHistory`: a sequence number whose round trip is being timed. -/
structure RttHistory where
  seq : UInt32
  count : ℕ
  time : ℕ
  retx : Bool
deriving DecidableEq, Repr

/-- `RttMeanDeviation`. -/
structure RttMeanDeviation where
  currentEstimatedRtt : ℤ
  variance : ℤ
  nSamples : ℕ
  multiplier : ℕ
  history : List RttHistory
deriving DecidableEq, Repr

namespace RttMeanDeviation

variable {arithmetic : RttArithmetic} {r : RttMeanDeviation}

/-- The constructor. -/
def initial (arithmetic : RttArithmetic) : RttMeanDeviation where
  currentEstimatedRtt := arithmetic.initialEstimatedRtt
  variance := 0
  nSamples := 0
  multiplier := 1
  history := []

/-- `RttMeanDeviation::Measurement`. -/
def measurement (arithmetic : RttArithmetic) (m : ℤ) (r : RttMeanDeviation) :
    RttMeanDeviation :=
  if r.nSamples ≠ 0 then
    { r with
      currentEstimatedRtt := (arithmetic.smooth m r.currentEstimatedRtt r.variance).1
      variance := (arithmetic.smooth m r.currentEstimatedRtt r.variance).2
      nSamples := (r.nSamples + 1) % 2 ^ 32 }
  else
    { r with
      currentEstimatedRtt := m
      variance := arithmetic.halve m
      nSamples := (r.nSamples + 1) % 2 ^ 32 }

/-- `RttEstimator::ResetMultiplier`. -/
def resetMultiplier (r : RttMeanDeviation) : RttMeanDeviation := { r with multiplier := 1 }

/-- `RttMeanDeviation::RetransmitTimeout`. -/
def retransmitTimeout (arithmetic : RttArithmetic) (r : RttMeanDeviation) : ℤ :=
  arithmetic.timeout r.multiplier r.currentEstimatedRtt r.variance

/-- Mark a number that is being timed as sent again, or start to time it. -/
def noteSent (seq : UInt32) (size now : ℕ) : List RttHistory → List RttHistory
  | [] => [⟨seq, size, now, false⟩]
  | h :: rest =>
      if seq = h.seq then { h with retx := true } :: rest else h :: noteSent seq size now rest

/-- `RttMeanDeviation::SentSeq`. -/
def sentSeq (seq : UInt32) (size now : ℕ) (r : RttMeanDeviation) : RttMeanDeviation :=
  { r with history := noteSent seq size now r.history }

/-- `RttMeanDeviation::AckSeq`. -/
def ackSeq (arithmetic : RttArithmetic) (ackSeq : UInt32) (now : ℕ) (r : RttMeanDeviation) :
    RttMeanDeviation :=
  match r.history.find? fun h => h.seq == ackSeq with
  | none => r
  | some h =>
      let measured := if h.retx then r
        else resetMultiplier (measurement arithmetic (now - h.time) r)
      { measured with history := r.history.eraseP fun h => h.seq == ackSeq }

/-- `RttMeanDeviation::Reset`, which also runs `RttEstimator::Reset`. -/
def reset (arithmetic : RttArithmetic) (r : RttMeanDeviation) : RttMeanDeviation :=
  resetMultiplier { r with
    variance := 0
    currentEstimatedRtt := arithmetic.initialEstimatedRtt
    history := []
    nSamples := 0 }

/-! ## What is left of a sample -/

/-- The estimator holds no sample. -/
structure Unsampled (arithmetic : RttArithmetic) (r : RttMeanDeviation) : Prop where
  estimate : r.currentEstimatedRtt = arithmetic.initialEstimatedRtt
  variance : r.variance = 0
  multiplier : r.multiplier = 1

theorem unsampled_initial : Unsampled arithmetic (initial arithmetic) := ⟨rfl, rfl, rfl⟩

/-- A reset forgets whatever was measured. -/
theorem unsampled_reset (r : RttMeanDeviation) : Unsampled arithmetic (reset arithmetic r) :=
  ⟨rfl, rfl, rfl⟩

theorem Unsampled.sentSeq (h : Unsampled arithmetic r) (seq : UInt32) (size now : ℕ) :
    Unsampled arithmetic (r.sentSeq seq size now) :=
  ⟨h.estimate, h.variance, h.multiplier⟩

/-- What is being timed does not matter to the timeout. -/
theorem retransmitTimeout_sentSeq (seq : UInt32) (size now : ℕ) :
    (r.sentSeq seq size now).retransmitTimeout arithmetic = r.retransmitTimeout arithmetic :=
  rfl

/-- The timeout of an estimator that holds no sample. -/
def initialTimeout (arithmetic : RttArithmetic) : ℤ :=
  arithmetic.timeout 1 arithmetic.initialEstimatedRtt 0

theorem Unsampled.retransmitTimeout (h : Unsampled arithmetic r) :
    r.retransmitTimeout arithmetic = initialTimeout arithmetic := by
  rw [RttMeanDeviation.retransmitTimeout, h.estimate, h.variance, h.multiplier]
  rfl

end RttMeanDeviation

end Statim
