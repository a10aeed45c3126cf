import Provisioning.Collaborator.Error
import Provisioning.Decimal.Binary64
import Provisioning.Decimal.Places

/-!
# Attempts

A call to another system that cannot be reached is tried again, up to a number of attempts, with a
delay that grows from one attempt to the next up to a limit.
-/

namespace Provisioning

/-! ## Delays -/

/-- The nanoseconds of a second. -/
def nanosPerSecond : Nat := 1000000000

/-- A time to wait, to the nanosecond. -/
structure Delay where
  /-- The time in nanoseconds. -/
  nanoseconds : Nat
  /-- The whole seconds fit 64 bits. -/
  bounded : nanoseconds / nanosPerSecond < twoTo 64
deriving DecidableEq, Repr

namespace Delay

/-- A number of milliseconds. -/
def ofMilliseconds (ms : UInt64) : Delay where
  nanoseconds := ms.toNat * 1000000
  bounded := by
    have few : ms.toNat < 2 ^ 64 := ms.toNat_lt
    change ms.toNat * 1000000 / 1000000000 < 2 ^ 64
    omega

/-- The delay in seconds. -/
def seconds (d : Delay) : Float :=
  Float.ofNat (d.nanoseconds / nanosPerSecond)
    + Float.ofNat (d.nanoseconds % nanosPerSecond) / 1000000000

end Delay

/-- How often a call is tried, and how long to wait in between. -/
structure RetryConfig where
  /-- The number of attempts; zero counts as one. -/
  maxAttempts : Nat := 3
  /-- The delay before the second attempt. -/
  baseDelay : Delay := .ofMilliseconds 200
  /-- The factor by which delays grow. -/
  factor : Binary64 := .ofFloat 2
  /-- The longest delay. -/
  maxDelay : Delay := .ofMilliseconds 5000
deriving DecidableEq, Repr

/-- A call that changes the world, whether it succeeds or not. -/
abbrev Call (σ α : Type) := σ → Except CollaboratorError α × σ

namespace RetryConfig

/-- A single attempt. -/
def noRetry : RetryConfig := { maxAttempts := 1 }

/-- A product of powers of a number, by repeated squaring. -/
def powerFrom (result base : Float) (n : Nat) : Float :=
  let result := if n % 2 = 1 then result * base else result
  if h : n / 2 = 0 then
    result
  else
    powerFrom result (base * base) (n / 2)
termination_by n
decreasing_by omega

/-- The largest exponent of a delay. -/
def maxExponent : Nat := twoTo 31 - 1

/-- The smaller one of two numbers; a not-a-number does not count. -/
def smaller (x y : Float) : Float := if x.isNaN then y else if y.isNaN || x < y then x else y

/-- A number of seconds in nanoseconds, to the nearest one and a half to the even one. There is none
for a negative number, nor for one that is too large. -/
def nanoseconds? (x : Float) : Option Nat :=
  let b := Binary64.ofFloat x
  if !b.isFinite || x < 0 then
    none
  else
    let n := Decimal.roundQuotient (b.units * nanosPerSecond) (twoTo 1074)
    if n / nanosPerSecond < twoTo 64 then some n else none

/-- The delay after an attempt, counted from zero, in nanoseconds, if it can be computed. -/
def delay? (config : RetryConfig) (attempt : Nat) : Option Nat :=
  let growth := powerFrom 1 config.factor.toFloat (min attempt maxExponent)
  nanoseconds? (smaller (config.baseDelay.seconds * growth) config.maxDelay.seconds)

/-! ## Attempts -/

/-- What is told between two attempts. -/
structure Notice where
  /-- The attempt that failed, counted from one. -/
  attempt : Nat
  /-- The number of attempts there may be. -/
  maxAttempts : Nat
  /-- Why it failed. -/
  error : CollaboratorError
  /-- The delay before the next one, in nanoseconds. -/
  delay : Nat
deriving DecidableEq, Repr

/-- What comes of attempts. -/
structure Attempts (σ α : Type) where
  /-- The outcome of the last call; none when a delay could not be computed. -/
  result : Option (Except CollaboratorError α)
  /-- What was told between attempts. -/
  notices : List Notice
  /-- The world afterwards. -/
  world : σ

/-- The number of attempts there may be. -/
def attempts (config : RetryConfig) : Nat := max 1 config.maxAttempts

/-- Calls, and calls again while there are attempts left and the error makes it worth while. -/
def tryFrom {σ α : Type} (config : RetryConfig) (call : Call σ α) (world : σ) (attempt : Nat) :
    Nat → Attempts σ α
  | 0 =>
    let (result, world) := call world
    { result := some result, notices := [], world }
  | left + 1 =>
    match call world with
    | (.ok a, world) => { result := some (.ok a), notices := [], world }
    | (.error e, world) =>
      if !e.isRetryable then
        { result := some (.error e), notices := [], world }
      else
        match config.delay? attempt with
        | none => { result := none, notices := [], world }
        | some delay =>
          let notice : Notice :=
            { attempt := attempt + 1, maxAttempts := config.attempts, error := e, delay }
          let later := tryFrom config call world (attempt + 1) left
          { later with notices := notice :: later.notices }

/-- Calls up to the number of attempts. -/
def run {σ α : Type} (config : RetryConfig) (call : Call σ α) (world : σ) : Attempts σ α :=
  config.tryFrom call world 0 (config.attempts - 1)

end RetryConfig

end Provisioning
