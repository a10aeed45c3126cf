import Mathlib.Data.ENat.Lattice
import Provisioning.Proofs.Collaborator.Delays

/-!
# How often a call is tried

A call that is tried starts each time where it ended the time before. So its outcomes form a
sequence, whatever it keeps between two attempts, and trying it goes through the sequence up to the
first outcome that leaves no reason to call again, or up to the number of attempts. A counter of 32
bits is enough to count the attempts (`RetryConfig.run_bounded`).
-/

namespace Provisioning

variable {σ α : Type}

/-! ## Outcomes -/

namespace Call

/-- The world after a number of calls. -/
def worldAfter (call : Call σ α) (world : σ) (n : ℕ) : σ := (fun w => (call w).2)^[n] world

/-- The outcome of a call, counted from zero. -/
def outcome (call : Call σ α) (world : σ) (n : ℕ) : Except CollaboratorError α :=
  (call (call.worldAfter world n)).1

/-- The call with a record of its outcomes. -/
def recorded (call : Call σ α) : Call (σ × List (Except CollaboratorError α)) α := fun w =>
  ((call w.1).1, (call w.1).2, w.2 ++ [(call w.1).1])

variable (call : Call σ α) (world : σ)

theorem at_worldAfter (n : ℕ) :
    call (call.worldAfter world n) = (call.outcome world n, call.worldAfter world (n + 1)) := by
  rw [outcome, worldAfter, worldAfter, Function.iterate_succ_apply']

theorem worldAfter_recorded (n : ℕ) :
    call.recorded.worldAfter (world, []) n
      = (call.worldAfter world n, (List.range n).map (call.outcome world)) := by
  induction n with
  | zero => rfl
  | succ n ih =>
    rw [worldAfter, Function.iterate_succ_apply', ← worldAfter, ih, recorded, at_worldAfter call,
      List.range_succ, List.map_append]
    rfl

theorem outcome_recorded : call.recorded.outcome (world, []) = call.outcome world := by
  funext n
  rw [outcome, worldAfter_recorded]
  rfl

end Call

/-- The outcome leaves no reason to call again: a success, or an error of another kind than that the
system cannot be reached. -/
def Settles : Except CollaboratorError α → Prop
  | .ok _ => True
  | .error e => e.category ≠ .network

theorem not_settles_iff {outcome : Except CollaboratorError α} :
    ¬ Settles outcome ↔ ∃ e, outcome = .error e ∧ e.category = .network := by
  cases outcome <;> simp [Settles]

theorem CollaboratorError.isRetryable_iff {e : CollaboratorError} :
    e.isRetryable = true ↔ e.category = .network := by
  unfold isRetryable
  cases e.category <;> simp [CollaboratorErrorCategory.isRetryable]

/-- The number of the first outcome that leaves no reason to call again, counted from one. -/
noncomputable def firstSettled (outcomes : ℕ → Except CollaboratorError α) : ℕ∞ :=
  ⨅ (n : ℕ) (_ : Settles (outcomes n)), (n : ℕ∞) + 1

section

variable {outcomes : ℕ → Except CollaboratorError α} {n : ℕ}
  (before : ∀ i < n, ¬ Settles (outcomes i))

include before

theorem le_firstSettled : (n : ℕ∞) + 1 ≤ firstSettled outcomes := by
  refine le_iInf₂ fun i there => ?_
  have later : n ≤ i := not_lt.mp fun earlier => before i earlier there
  exact_mod_cast Nat.succ_le_succ later

theorem firstSettled_eq (settles : Settles (outcomes n)) : firstSettled outcomes = n + 1 :=
  le_antisymm (iInf₂_le n settles) (le_firstSettled before)

end

namespace RetryConfig

variable (config : RetryConfig) (call : Call σ α) (world : σ)

/-! ## Attempts -/

/-- What is told between a call, counted from zero, and the next one. -/
structure Tells (n : ℕ) (notice : Notice) : Prop where
  /-- The number of the attempt, counted from one. -/
  attempt : notice.attempt = n + 1
  /-- The number of attempts there may be. -/
  maxAttempts : notice.maxAttempts = config.attempts
  /-- The error is the outcome of the call. -/
  error : call.outcome world n = .error notice.error
  /-- The delay is the one after the attempt. -/
  delay : config.delay? n = some notice.delay

/-- After a number of calls, some more of them fail to reach the system, and one is the last. -/
structure Repeats (n failures : ℕ) (r : Attempts σ α) : Prop where
  /-- All of them but the last one have failed to reach the system. -/
  unsettled : ∀ i, n ≤ i → i < n + failures → ¬ Settles (call.outcome world i)
  /-- The outcome is that of the last one. -/
  result : r.result = some (call.outcome world (n + failures))
  /-- Each of them but the last one is told of. -/
  notices : List.Forall₂ (config.Tells call world) (List.range' n failures) r.notices
  /-- Nothing is called after it. -/
  world : r.world = call.worldAfter world (n + failures + 1)

variable {config call world} {n left : ℕ}

theorem repeats_zero {r : Attempts σ α} : config.Repeats call world n 0 r ↔
    r = { result := some (call.outcome world n), notices := []
          world := call.worldAfter world (n + 1) } := by
  constructor
  · rintro ⟨-, result, notices, after⟩
    obtain ⟨_, _, _⟩ := r
    cases notices
    exact Attempts.mk.injEq .. ▸ ⟨result, rfl, after⟩
  · rintro rfl
    exact ⟨fun i late early => absurd early (not_lt.mpr late), rfl, .nil, rfl⟩

theorem repeats_succ {failures : ℕ} {r : Attempts σ α} :
    config.Repeats call world n (failures + 1) r ↔
      ¬ Settles (call.outcome world n) ∧ ∃ notice notices, r.notices = notice :: notices ∧
        config.Tells call world n notice ∧
        config.Repeats call world (n + 1) failures { r with notices } := by
  have moved : n + (failures + 1) = n + 1 + failures := by omega
  constructor
  · rintro ⟨unsettled, result, notices, after⟩
    rw [moved] at unsettled result after
    rw [List.range'_succ] at notices
    obtain ⟨notice, later, tells, others, same⟩ := List.forall₂_cons_left_iff.mp notices
    exact ⟨unsettled n le_rfl (by omega), notice, later, same, tells,
      fun i late early => unsettled i (by omega) early, result, others, after⟩
  · rintro ⟨first, notice, notices, same, tells, unsettled, result, others, after⟩
    rw [← moved] at unsettled result after
    refine ⟨fun i late early => ?_, result, ?_, after⟩
    · rcases Nat.eq_or_lt_of_le late with rfl | late
      · exact first
      · exact unsettled i late early
    · rw [same]
      exact .cons tells others

section

variable (attempt : ℕ)

theorem tryFrom_of_settles (settles : Settles (call.outcome world n)) :
    config.tryFrom call (call.worldAfter world n) attempt left
      = { result := some (call.outcome world n), notices := []
          world := call.worldAfter world (n + 1) } := by
  cases left with
  | zero => rw [tryFrom, call.at_worldAfter]
  | succ left =>
    rw [tryFrom, call.at_worldAfter]
    cases hc : call.outcome world n with
    | ok a => rfl
    | error e =>
      rw [hc] at settles
      have final : e.isRetryable = false :=
        Bool.eq_false_iff.mpr fun retryable => settles (e.isRetryable_iff.mp retryable)
      simp [final]

theorem tryFrom_of_network {e : CollaboratorError} {delay : ℕ}
    (failed : call.outcome world n = .error e) (network : e.category = .network)
    (computed : config.delay? attempt = some delay) :
    config.tryFrom call (call.worldAfter world n) attempt (left + 1)
      = let later := config.tryFrom call (call.worldAfter world (n + 1)) (attempt + 1) left
        { later with
          notices := { attempt := attempt + 1, maxAttempts := config.attempts, error := e, delay }
            :: later.notices } := by
  rw [tryFrom, call.at_worldAfter, failed]
  simp [e.isRetryable_iff.mpr network, computed]

end

variable (config call world) in
/-- A call is repeated as long as it fails to reach the system and there are attempts left. -/
theorem tryFrom_repeats (n left : ℕ) (delays : ∀ i < n + left, (config.delay? i).isSome = true) :
    ∃ failures ≤ left, (failures = left ∨ Settles (call.outcome world (n + failures))) ∧
      config.Repeats call world n failures
        (config.tryFrom call (call.worldAfter world n) n left) := by
  induction left generalizing n with
  | zero =>
    rw [tryFrom, call.at_worldAfter]
    exact ⟨0, le_rfl, .inl rfl, repeats_zero.mpr rfl⟩
  | succ left ih =>
    by_cases settles : Settles (call.outcome world n)
    · rw [tryFrom_of_settles n settles]
      exact ⟨0, Nat.zero_le _, .inr settles, repeats_zero.mpr rfl⟩
    · obtain ⟨e, failed, network⟩ := not_settles_iff.mp settles
      obtain ⟨delay, computed⟩ := Option.isSome_iff_exists.mp (delays n (by omega))
      obtain ⟨failures, few, ends, later⟩ := ih (n + 1) fun i early => delays i (by omega)
      have moved : n + 1 + failures = n + (failures + 1) := by omega
      rw [moved] at ends
      refine ⟨failures + 1, Nat.succ_le_succ few, ends.imp_left (congrArg (· + 1)), ?_⟩
      rw [tryFrom_of_network n failed network computed]
      exact repeats_succ.mpr ⟨settles, _, _, rfl, ⟨rfl, rfl, failed, computed⟩, later⟩

/-! ## Counting attempts -/

/-- What is seen of attempts from outside. -/
inductive AttemptEvent (α : Type) where
  /-- There was a call. -/
  | called (outcome : Except CollaboratorError α)
  /-- What was told. -/
  | told (notice : Notice)

/-- Why attempts break off without an outcome. -/
inductive Breakdown where
  /-- The counter has no more numbers. -/
  | overflow
  /-- A delay cannot be computed. -/
  | delay

/-- Attempts from the first call to the outcome. -/
structure Course (σ α : Type) where
  /-- What is seen of them, in order. -/
  events : List (AttemptEvent α)
  /-- The outcome of the last call. -/
  result : Except CollaboratorError α
  /-- The world afterwards. -/
  world : σ

/-- The next number of 32 bits, if there is one. -/
def next? (n : UInt32) : Option { m : UInt32 // m.toNat = n.toNat + 1 } :=
  if h : n.toNat + 1 < UInt32.size then
    some ⟨UInt32.ofNatLT (n.toNat + 1) h, UInt32.toNat_ofNatLT ..⟩
  else
    none

/-- Calls with a counter of 32 bits for the attempts before, as long as there is an attempt below the
limit and the error makes it worth while. -/
def countFrom (delay? : ℕ → Option ℕ) (call : Call σ α) (limit : UInt32) (world : σ)
    (attempt : UInt32) : Except Breakdown (Course σ α) :=
  match call world with
  | (.ok a, world) => .ok { events := [.called (.ok a)], result := .ok a, world }
  | (.error e, world) =>
    let last : Course σ α := { events := [.called (.error e)], result := .error e, world }
    if !e.isRetryable then
      .ok last
    else
      match next? attempt with
      | none => .error .overflow
      | some ⟨next, _⟩ =>
        if limit ≤ next then
          .ok last
        else
          match delay? attempt.toNat with
          | none => .error .delay
          | some delay =>
            let notice : Notice :=
              { attempt := next.toNat, maxAttempts := limit.toNat, error := e, delay }
            (countFrom delay? call limit world next).map fun later =>
              { later with events := .called (.error e) :: .told notice :: later.events }
termination_by limit.toNat - attempt.toNat
decreasing_by
  have below : ¬ limit ≤ next := ‹_›
  rw [UInt32.le_iff_toNat_le] at below
  omega

/-- The attempts of a configuration, counted with 32 bits. -/
def count (config : RetryConfig) (call : Call σ α) (limit : UInt32) (world : σ) :
    Except Breakdown (Course σ α) :=
  countFrom config.delay? call (max 1 limit) world 0

section

variable {delay? : ℕ → Option ℕ} {limit attempt : UInt32}

theorem toNat_max (n m : UInt32) : (max n m).toNat = max n.toNat m.toNat := by
  show (if n ≤ m then m else n).toNat = _
  rw [max_def]
  simp only [UInt32.le_iff_toNat_le]
  split <;> rfl

theorem next?_of_lt (h : attempt < limit) :
    ∃ next, next? attempt = some next := by
  have small : attempt.toNat + 1 < UInt32.size :=
    Nat.lt_of_le_of_lt (UInt32.lt_iff_toNat_lt.mp h) limit.toNat_lt_size
  exact ⟨_, dif_pos small⟩

/-- The last call below the limit, or an earlier one that leaves no reason to go on. -/
theorem countFrom_last (below : attempt < limit)
    (last : Settles (call.outcome world n) ∨ limit.toNat = attempt.toNat + 1) :
    countFrom delay? call limit (call.worldAfter world n) attempt
      = .ok { events := [.called (call.outcome world n)], result := call.outcome world n
              world := call.worldAfter world (n + 1) } := by
  rw [countFrom, call.at_worldAfter]
  cases hc : call.outcome world n with
  | ok a => rfl
  | error e =>
    dsimp only
    by_cases retryable : e.isRetryable = true
    · obtain ⟨next, hn⟩ := next?_of_lt below
      rw [hc] at last
      have reached : limit ≤ next.1 := by
        rw [UInt32.le_iff_toNat_le, next.2]
        rcases last with settles | final
        · exact absurd (e.isRetryable_iff.mp retryable) settles
        · exact final.le
      simp [retryable, hn, reached]
    · simp [retryable]

/-- A call that fails to reach the system is told of, and the counter goes on. -/
theorem countFrom_next {notice : Notice} (tells : config.Tells call world n notice)
    (network : notice.error.category = .network) (counts : attempt.toNat = n)
    (limited : limit.toNat = config.attempts) (below : n + 1 < limit.toNat) :
    ∃ next : UInt32, next.toNat = n + 1 ∧
      countFrom config.delay? call limit (call.worldAfter world n) attempt
        = (countFrom config.delay? call limit (call.worldAfter world (n + 1)) next).map fun later =>
            { later with
              events := .called (call.outcome world n) :: .told notice :: later.events } := by
  subst counts
  obtain ⟨next, hn⟩ := next?_of_lt (UInt32.lt_iff_toNat_lt.mpr (Nat.lt_of_succ_lt below))
  have under : ¬ limit ≤ next.1 := by
    rw [UInt32.le_iff_toNat_le, next.2]
    omega
  obtain ⟨number, most, error, _⟩ := notice
  obtain ⟨rfl, rfl, failed, computed⟩ := tells
  refine ⟨next.1, next.2, ?_⟩
  rw [countFrom, call.at_worldAfter, failed]
  simp [error.isRetryable_iff.mpr network, hn, under, computed, next.2, limited]

/-- Attempts that are counted with 32 bits are the same. -/
theorem Repeats.counted {failures : ℕ} {r : Attempts σ α}
    (repeats : config.Repeats call world n failures r) (counts : attempt.toNat = n)
    (limited : limit.toNat = config.attempts) (below : n + failures < limit.toNat)
    (ends : limit.toNat = n + failures + 1 ∨ Settles (call.outcome world (n + failures))) :
    countFrom config.delay? call limit (call.worldAfter world n) attempt
      = .ok
        { events := .called (call.outcome world n) ::
            r.notices.flatMap fun notice =>
              [.told notice, .called (call.outcome world notice.attempt)]
          result := call.outcome world (n + failures)
          world := call.worldAfter world (n + failures + 1) } := by
  induction failures generalizing n r attempt with
  | zero =>
    obtain rfl := repeats_zero.mp repeats
    have under : attempt < limit := UInt32.lt_iff_toNat_lt.mpr (counts ▸ below)
    exact countFrom_last under (ends.symm.imp_right fun h => counts ▸ h)
  | succ failures ih =>
    obtain ⟨unsettled, notice, notices, told, tells, later⟩ := repeats_succ.mp repeats
    have network : notice.error.category = .network := by
      rw [tells.error] at unsettled
      exact not_not.mp unsettled
    have moved : n + (failures + 1) = n + 1 + failures := by omega
    rw [moved] at below ends ⊢
    obtain ⟨next, counted, step⟩ := countFrom_next tells network counts limited (by omega)
    rw [step, ih later counted below ends, told]
    simp [tells.attempt, Except.map]

end

/-! ## Whole runs -/

/-- The number of calls of a whole run. -/
theorem Repeats.number {retries : ℕ} {r : Attempts σ α}
    (repeats : config.Repeats call world 0 retries r) (few : retries < config.attempts)
    (ends : config.attempts = retries + 1 ∨ Settles (call.outcome world retries)) :
    ((retries + 1 : ℕ) : ℕ∞)
      = min (firstSettled (call.outcome world)) (config.attempts : ℕ∞) := by
  have before (i : ℕ) (early : i < retries) : ¬ Settles (call.outcome world i) :=
    repeats.unsettled i (Nat.zero_le i) (by omega)
  rcases ends with most | settles
  · rw [most, min_eq_right]
    exact_mod_cast le_firstSettled before
  · rw [firstSettled_eq before settles, min_eq_left]
    · exact_mod_cast rfl
    · exact_mod_cast few

section

variable (config) (call : Call σ α) (world : σ)
  (delays : ∀ n, n + 1 < config.attempts → (config.delay? n).isSome = true)

include delays

/-- The first call is repeated as long as it fails to reach the system and there are attempts left. -/
theorem run_repeats :
    ∃ failures < config.attempts,
      (config.attempts = failures + 1 ∨ Settles (call.outcome world failures)) ∧
      config.Repeats call world 0 failures (config.run call world) := by
  have some_attempt : 0 < config.attempts := Nat.lt_of_lt_of_le Nat.one_pos (Nat.le_max_left 1 _)
  obtain ⟨failures, few, ends, repeats⟩ := tryFrom_repeats config call world 0
    (config.attempts - 1) fun i early => delays i (by omega)
  rw [Nat.zero_add] at ends
  exact ⟨failures, by omega, ends.imp_left (by omega), repeats⟩

/-- A call is tried until an outcome leaves no reason to call again, and as often as a configuration
says at most, but once at least. What comes of it is the outcome of the last call, and between two
calls the number of the failed attempt is told once. A counter of 32 bits does not overflow. -/
theorem run_bounded :
    ∃ retries : ℕ,
      ((retries + 1 : ℕ) : ℕ∞)
          = min (firstSettled (call.outcome world)) (max 1 config.maxAttempts : ℕ) ∧
        (config.run call.recorded (world, [])).world
          = (call.worldAfter world (retries + 1),
            (List.range (retries + 1)).map (call.outcome world)) ∧
        (config.run call world).result = some (call.outcome world retries) ∧
        (config.run call world).world = call.worldAfter world (retries + 1) ∧
        List.Forall₂ (config.Tells call world) (List.range retries) (config.run call world).notices ∧
        ∀ limit : UInt32, limit.toNat = config.maxAttempts →
          config.count call limit world = .ok
            { events := .called (call.outcome world 0) ::
                (config.run call world).notices.flatMap fun notice =>
                  [.told notice, .called (call.outcome world notice.attempt)]
              result := call.outcome world retries
              world := call.worldAfter world (retries + 1) } := by
  obtain ⟨retries, few, ends, repeats⟩ := run_repeats config call world delays
  obtain ⟨retries', few', ends', recorded⟩ := run_repeats config call.recorded (world, []) delays
  have number := repeats.number few ends
  -- The record is of no account to the outcomes, and so to their number.
  obtain rfl : retries' = retries := by
    have same := recorded.number few' ends'
    rw [call.outcome_recorded, ← number, Nat.cast_inj] at same
    omega
  refine ⟨retries', number, ?_, ?_, ?_, ?_, fun limit limited => ?_⟩
  · rw [recorded.world, call.worldAfter_recorded, Nat.zero_add]
  · rw [repeats.result, Nat.zero_add]
  · rw [repeats.world, Nat.zero_add]
  · rw [List.range_eq_range']
    exact repeats.notices
  · have counted : (max 1 limit).toNat = config.attempts := by
      rw [toNat_max, limited]
      rfl
    have started : (0 : UInt32).toNat = 0 := rfl
    have course := repeats.counted started counted (by omega) (by simpa [counted] using ends)
    rwa [Nat.zero_add] at course

end

/-- A system that cannot be reached for two calls. -/
def late : Call ℕ ℕ := fun n => (if n < 2 then .error (.network "timeout") else .ok 42, n + 1)

/-- The third attempt succeeds, and there may be three. -/
theorem run_bounded_thirdTime :
    (∀ n, n + 1 < attempts {} → (delay? {} n).isSome = true) ∧
      (run {} late.recorded (0, [])).world
        = (3, [.error (.network "timeout"), .error (.network "timeout"), .ok 42]) ∧
      (run {} late 0).result = some (.ok 42) ∧
      (run {} late 0).notices.map (·.attempt) = [1, 2] ∧
      ∃ course, count {} late 3 0 = .ok course ∧ course.world = 3 := by
  have delays (n : ℕ) (_ : n + 1 < attempts {}) : (delay? {} n).isSome = true :=
    delay?_isSome (by decide +kernel) (by decide +kernel) n
  obtain ⟨retries, number, record, result, -, notices, counted⟩ := run_bounded {} late 0 delays
  have third : firstSettled (late.outcome 0) = (2 : ℕ) + 1 := by
    refine firstSettled_eq (fun i early => ?_) trivial
    interval_cases i <;> simp [Call.outcome, Call.worldAfter, late, Settles,
      CollaboratorError.category]
  obtain rfl : retries = 2 := by
    rw [third] at number
    have three : ((retries + 1 : ℕ) : ℕ∞) = (3 : ℕ) := number
    rw [Nat.cast_inj] at three
    omega
  refine ⟨delays, record, result, ?_, _, counted 3 rfl, rfl⟩
  obtain ⟨first, others, one, more, all⟩ := List.forall₂_cons_left_iff.mp notices
  obtain ⟨second, rest, two, done, rfl⟩ := List.forall₂_cons_left_iff.mp more
  obtain rfl := List.forall₂_nil_left_iff.mp done
  rw [all]
  simp [one.attempt, two.attempt]

end RetryConfig

end Provisioning
