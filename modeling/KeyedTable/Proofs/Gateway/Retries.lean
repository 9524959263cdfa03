import Mathlib.Data.ENat.Lattice
import KeyedTable.RetryPolicy

namespace KeyedTable

variable {σ α : Type}

def Outcome.isThrottled : Outcome α → Bool
  | .failed error => error.isThrottling
  | _ => false

theorem Outcome.exists_of_isThrottled {outcome : Outcome α} (h : outcome.isThrottled) :
    ∃ detail, outcome = .failed (.throttled detail) := by
  cases outcome with
  | failed error =>
    cases error with
    | throttled detail => exact ⟨detail, rfl⟩
    | _ => cases h
  | _ => cases h

namespace Action

def after (action : Action σ α) : Nat → σ → σ
  | 0, s => s
  | n + 1, s => action.after n (action s).store

def attempt (action : Action σ α) (n : Nat) (s : σ) : Ran σ α := action (action.after n s)

noncomputable def leadingThrottled (action : Action σ α) (s : σ) : ℕ∞ :=
  ⨅ (n : ℕ) (_ : (action.attempt n s).outcome.isThrottled = false), (n : ℕ∞)

def counted (action : Action σ α) : Action (σ × Nat) α := fun s =>
  let ran := action s.1
  ⟨ran.outcome, (ran.store, s.2 + 1), ran.events⟩

variable (action : Action σ α) (s : σ)

theorem le_leadingThrottled_iff {n : Nat} : (n : ℕ∞) ≤ action.leadingThrottled s ↔
    ∀ i < n, (action.attempt i s).outcome.isThrottled := by
  rw [leadingThrottled, le_iInf₂_iff]
  constructor
  · intro h i hi
    cases hi' : (action.attempt i s).outcome.isThrottled with
    | true => rfl
    | false => exact absurd (Nat.cast_le.mp (h i hi')) (Nat.not_le_of_lt hi)
  · intro h i hi
    rw [Nat.cast_le]
    by_contra hlt
    simp [h i (Nat.lt_of_not_le hlt)] at hi

theorem leadingThrottled_le {n : Nat} (h : (action.attempt n s).outcome.isThrottled = false) :
    action.leadingThrottled s ≤ n :=
  iInf₂_le n h

theorem isThrottled_of_lt {n : Nat} (h : (n : ℕ∞) < action.leadingThrottled s) :
    (action.attempt n s).outcome.isThrottled := by
  have hle : ((n + 1 : ℕ) : ℕ∞) ≤ action.leadingThrottled s := Order.add_one_le_of_lt h
  exact (action.le_leadingThrottled_iff s).mp hle n (Nat.lt_succ_self n)

theorem isThrottled_of_eq {n : Nat} (h : action.leadingThrottled s = n) :
    (action.attempt n s).outcome.isThrottled = false := by
  cases hthrottled : (action.attempt n s).outcome.isThrottled with
  | false => rfl
  | true =>
    have hmore : ((n + 1 : ℕ) : ℕ∞) ≤ action.leadingThrottled s := by
      refine (action.le_leadingThrottled_iff s).mpr fun i hi => ?_
      obtain hi | rfl := Nat.lt_succ_iff_lt_or_eq.mp hi
      · exact (action.le_leadingThrottled_iff s).mp h.ge i hi
      · exact hthrottled
    rw [h, Nat.cast_le] at hmore
    exact absurd hmore (Nat.not_succ_le_self n)

theorem after_counted (n count : Nat) :
    action.counted.after n (s, count) = (action.after n s, count + n) := by
  induction n generalizing s count with
  | zero => rfl
  | succ n ih => exact (ih _ _).trans (by rw [Nat.add_assoc, Nat.add_comm 1]; rfl)

theorem outcome_attempt_counted (n count : Nat) :
    (action.counted.attempt n (s, count)).outcome = (action.attempt n s).outcome := by
  rw [attempt, after_counted]
  rfl

theorem leadingThrottled_counted (count : Nat) :
    action.counted.leadingThrottled (s, count) = action.leadingThrottled s := by
  simp only [leadingThrottled, outcome_attempt_counted]

end Action

namespace RetryPolicy

variable (policy : RetryPolicy)

def retried (attempt : Ran σ α) (detail : String) (number : Nat) : List Event :=
  attempt.events ++
    [.logged (.retrying (.throttled detail) policy.delay number policy.maxRetries),
      .waited policy.delay]

/-- What comes of an action of which so many attempts are made again. -/
structure Retries (action : Action σ α) (s : σ) (used n : Nat) (ran : Ran σ α) : Prop where
  outcome : ran.outcome = (action.attempt n s).outcome
  store : ran.store = action.after (n + 1) s
  events : ∃ details : Nat → String,
    (∀ i < n, (action.attempt i s).outcome = .failed (.throttled (details i))) ∧
      ran.events = (List.range n).flatMap (fun i =>
        policy.retried (action.attempt i s) (details i) (used + i + 1)) ++
        (action.attempt n s).events

variable {policy} {action : Action σ α} {s : σ} {used n : Nat} {ran : Ran σ α}

theorem Retries.none (policy : RetryPolicy) (action : Action σ α) (s : σ) (used : Nat) :
    policy.Retries action s used 0 (action s) where
  outcome := rfl
  store := rfl
  events := ⟨fun _ => "", fun _ h => absurd h (Nat.not_lt_zero _), rfl⟩

theorem Retries.again {detail : String}
    (hthrottled : (action s).outcome = .failed (.throttled detail))
    (h : policy.Retries action (action s).store (used + 1) n ran) :
    policy.Retries action s used (n + 1)
      { ran with events := policy.retried (action s) detail (used + 1) ++ ran.events } where
  outcome := h.outcome
  store := h.store
  events := by
    obtain ⟨details, hdetails, hevents⟩ := h.events
    refine ⟨fun | 0 => detail | i + 1 => details i, fun i hi => ?_, ?_⟩
    · cases i with
      | zero => exact hthrottled
      | succ i => exact hdetails i (Nat.lt_of_succ_lt_succ hi)
    · rw [hevents, List.range_succ_eq_map, List.flatMap_cons, List.flatMap_map, List.append_assoc]
      simp only [Nat.succ_eq_add_one, Nat.add_assoc, Nat.add_comm 1]
      rfl

theorem exists_retries (policy : RetryPolicy) (action : Action σ α) (left used : Nat) (s : σ) :
    ∃ n ≤ left, (n < left → (action.attempt n s).outcome.isThrottled = false) ∧
      policy.Retries action s used n (policy.attempts action left used s) := by
  induction left generalizing used s with
  | zero =>
    exact ⟨0, Nat.le_refl 0, fun h => absurd h (Nat.lt_irrefl 0), .none policy action s used⟩
  | succ left ih =>
    cases hfirst : (action s).outcome.isThrottled with
    | true =>
      obtain ⟨detail, hdetail⟩ := Outcome.exists_of_isThrottled hfirst
      obtain ⟨n, hn, hlast, hretries⟩ := ih (used + 1) (action s).store
      refine ⟨n + 1, Nat.succ_le_succ hn, fun h => hlast (Nat.lt_of_succ_lt_succ h), ?_⟩
      have hran := hretries.again hdetail
      rw [retried, List.append_assoc] at hran
      simp only [attempts, hdetail]
      exact hran
    | false =>
      refine ⟨0, Nat.zero_le _, fun _ => hfirst, ?_⟩
      have hsettled : ∀ detail, (action s).outcome ≠ .failed (.throttled detail) := by
        intro detail hdetail
        rw [hdetail] at hfirst
        cases hfirst
      have hran : policy.attempts action (left + 1) used s = action s := by
        simp only [attempts]
      rw [hran]
      exact .none policy action s used

theorem Retries.eq_min {left : Nat} (h : policy.Retries action s used n ran) (hn : n ≤ left)
    (hlast : n < left → (action.attempt n s).outcome.isThrottled = false) :
    (n : ℕ∞) = min (action.leadingThrottled s) left := by
  have hle : (n : ℕ∞) ≤ action.leadingThrottled s := by
    obtain ⟨details, hdetails, -⟩ := h.events
    refine (action.le_leadingThrottled_iff s).mpr fun i hi => ?_
    rw [hdetails i hi]
    rfl
  refine le_antisymm (le_min hle (Nat.cast_le.mpr hn)) ?_
  by_cases hless : n < left
  · exact min_le_of_left_le (action.leadingThrottled_le s (hlast hless))
  · exact min_le_of_right_le (Nat.cast_le.mpr (Nat.le_of_not_lt hless))

/-- If `t` attempts are throttled before one is not, just one more attempt is made than the smaller
of `t` and the most retries there are. Nothing but throttling is a reason for another attempt, each
comes after one wait, and the last one tells the outcome. -/
theorem retries_exact (policy : RetryPolicy) (action : Action σ α) (s : σ) :
    ∃ n : ℕ, (n : ℕ∞) = min (action.leadingThrottled s) policy.maxRetries ∧
      n ≤ policy.maxRetries ∧
      (policy.run action.counted (s, 0)).store.2 = n + 1 ∧
      policy.Retries action s 0 n (policy.run action s) ∧
      (action.leadingThrottled s ≤ policy.maxRetries →
        (action.attempt n s).outcome.isThrottled = false) ∧
      (policy.maxRetries < action.leadingThrottled s →
        n = policy.maxRetries ∧ (action.attempt n s).outcome.isThrottled) := by
  obtain ⟨n, hn, hlast, hretries⟩ := exists_retries policy action policy.maxRetries 0 s
  obtain ⟨count, hcount, hlast', hcounted⟩ :=
    exists_retries policy action.counted policy.maxRetries 0 (s, 0)
  have hmin := hretries.eq_min hn hlast
  have hsame : count = n := by
    have := hcounted.eq_min hcount hlast'
    rw [action.leadingThrottled_counted, ← hmin] at this
    exact Nat.cast_inj.mp this
  refine ⟨n, hmin, hn, ?_, hretries, fun hle => ?_, fun hlt => ?_⟩
  · rw [run, hcounted.store, action.after_counted, hsame, Nat.zero_add]
  · rw [min_eq_left hle] at hmin
    exact action.isThrottled_of_eq s hmin.symm
  · rw [min_eq_right hlt.le] at hmin
    exact ⟨Nat.cast_inj.mp hmin, action.isThrottled_of_lt s (hmin ▸ hlt)⟩

end RetryPolicy

end KeyedTable
