import Mathlib.Logic.Function.Iterate
import KeyedTable.Proofs.CommandLine.Asking

namespace KeyedTable

namespace Gateway

variable {σ : Type} (g : Gateway σ)

def turn (here : σ × List String) : σ × List String :=
  let held := (g.obey (Text.trim (here.2.headD "")) here.1).hold here.2.tail
  (held.value, held.unread)

def standing (n : Nat) (s : σ) (lines : List String) : σ × List String := g.turn^[n] (s, lines)

def exits (n : Nat) (s : σ) (lines : List String) : Prop :=
  ((g.commands n s).hold lines).value.1 = .exited

variable {g} {s : σ} {lines : List String} {n : Nat}

theorem standing_succ (n : Nat) (s : σ) (lines : List String) :
    g.standing (n + 1) s lines =
      g.standing n (g.turn (s, lines)).1 (g.turn (s, lines)).2 := by
  rw [standing, standing, Function.iterate_succ_apply, Prod.eta]

theorem commands_of_exit (h : Text.trim (lines.headD "") = "exit") (n : Nat) (s : σ) :
    (g.commands (n + 1) s).hold lines = ⟨(.exited, s), lines.tail, [.text commandQuestion]⟩ ∧
      (g.commands (n + 1) s).prompts lines = 1 := by
  simp only [commands, Dialogue.hold, Dialogue.prompts, if_pos h, Nat.zero_add, and_self]

theorem commands_of_other (h : Text.trim (lines.headD "") ≠ "exit") (n : Nat) (s : σ) :
    let obeyed := g.obey (Text.trim (lines.headD "")) s
    let next := g.turn (s, lines)
    (g.commands (n + 1) s).hold lines =
      { (g.commands n next.1).hold next.2 with
        outputs := .text commandQuestion :: ((obeyed.hold lines.tail).outputs ++
          ((g.commands n next.1).hold next.2).outputs) } ∧
      (g.commands (n + 1) s).prompts lines =
        obeyed.prompts lines.tail + (g.commands n next.1).prompts next.2 + 1 := by
  simp only [commands, Dialogue.hold, Dialogue.prompts, if_neg h, Dialogue.hold_bind,
    Dialogue.prompts_bind, turn, and_self]

theorem exits_iff (n : Nat) (s : σ) (lines : List String) :
    g.exits n s lines ↔ ∃ k < n, Text.trim ((g.standing k s lines).2.headD "") = "exit" := by
  induction n generalizing s lines with
  | zero => simp [exits, commands]
  | succ n ih =>
    by_cases h : Text.trim (lines.headD "") = "exit"
    · have hexits : g.exits (n + 1) s lines := by
        rw [exits, (commands_of_exit h n s).1]
      exact iff_of_true hexits ⟨0, Nat.succ_pos n, h⟩
    · rw [exits, (commands_of_other h n s).1]
      refine (ih _ _).trans ⟨?_, ?_⟩
      · rintro ⟨k, hk, hexit⟩
        exact ⟨k + 1, Nat.succ_lt_succ hk, by rw [standing_succ]; exact hexit⟩
      · rintro ⟨k, hk, hexit⟩
        cases k with
        | zero => exact absurd hexit h
        | succ k =>
          rw [standing_succ] at hexit
          exact ⟨k, Nat.lt_of_succ_lt_succ hk, hexit⟩

theorem length_standing (n : Nat) (s : σ) (lines : List String) :
    (g.standing n s lines).2.length ≤ lines.length - n := by
  induction n generalizing s lines with
  | zero => exact Nat.le_refl _
  | succ n ih =>
    have hturn : (g.turn (s, lines)).2.length ≤ lines.length - 1 := by
      rw [turn, Dialogue.unread_eq_drop, List.length_drop, List.length_tail]
      exact Nat.sub_le _ _
    have := ih (g.turn (s, lines)).1 (g.turn (s, lines)).2
    rw [standing_succ]
    omega

theorem standing_of_exit {k : Nat}
    (h : Text.trim ((g.standing k s lines).2.headD "") = "exit") :
    k < lines.length ∧ ∃ line rest, (g.standing k s lines).2 = line :: rest ∧
      Text.trim line = "exit" := by
  cases hleft : (g.standing k s lines).2 with
  | nil =>
    rw [hleft] at h
    exact absurd h (by decide)
  | cons line rest =>
    have hlength := g.length_standing k s lines
    rw [hleft, List.length_cons] at hlength
    rw [hleft] at h
    exact ⟨by omega, line, rest, rfl, h⟩

theorem Dwindles.prompts_obey (h : g.Dwindles) (name : String) (s : σ) (lines : List String) :
    (g.obey name s).prompts lines + g.store.horizon ((g.obey name s).hold lines).value ≤
      5 + g.store.horizon s := by
  unfold obey
  split
  · simp [Dialogue.prompts, Dialogue.hold]
  next command hcommand =>
    have hprompts := (h.asks_command hcommand s lines).prompts
    rw [Dialogue.prompts_bind, Dialogue.hold_bind]
    cases hvalue : ((command s).hold lines).value with
    | mk result t =>
      rw [hvalue] at hprompts
      cases result <;> simpa [Dialogue.prompts, Dialogue.hold] using hprompts

theorem Dwindles.prompts_commands (h : g.Dwindles) (n : Nat) (s : σ) (lines : List String) :
    (g.commands n s).prompts lines ≤ 6 * n + g.store.horizon s := by
  induction n generalizing s lines with
  | zero => exact Nat.zero_le _
  | succ n ih =>
    by_cases hexit : Text.trim (lines.headD "") = "exit"
    · rw [(commands_of_exit hexit n s).2]
      omega
    · have hobey := h.prompts_obey (Text.trim (lines.headD "")) s lines.tail
      have hrest := ih (g.turn (s, lines)).1 (g.turn (s, lines)).2
      have hturn : (g.turn (s, lines)).1 =
          ((g.obey (Text.trim (lines.headD "")) s).hold lines.tail).value := by
        rw [turn]
      rw [(commands_of_other hexit n s).2]
      rw [hturn] at hrest ⊢
      omega

theorem le_prompts_of_not_exits (h : ¬ g.exits n s lines) :
    ((g.commands n s).hold lines).value.1 = .open ∧ n ≤ (g.commands n s).prompts lines := by
  induction n generalizing s lines with
  | zero => exact ⟨rfl, Nat.le_refl _⟩
  | succ n ih =>
    by_cases hexit : Text.trim (lines.headD "") = "exit"
    · exact absurd ((exits_iff _ _ _).mpr ⟨0, Nat.succ_pos n, hexit⟩) h
    · rw [exits, (commands_of_other hexit n s).1] at h
      obtain ⟨hopen, hle⟩ := ih h
      rw [(commands_of_other hexit n s).1, (commands_of_other hexit n s).2]
      exact ⟨hopen, by omega⟩

def unknownCommand : String := "Unknown command. Please try again.\n"

theorem commands_without_lines (g : Gateway σ) (n : Nat) (s : σ) :
    (g.commands n s).hold [] =
      ⟨(.open, s), [],
        (List.replicate n [.text commandQuestion, .text unknownCommand]).flatten⟩ := by
  induction n with
  | zero => rfl
  | succ n ih =>
    have hexit : Text.trim (([] : List String).headD "") ≠ "exit" := by decide
    have hunknown : g.obey (Text.trim (([] : List String).headD "")) s =
      .tell (.text unknownCommand) (.done s) := rfl
    have hturn : g.turn (s, []) = (s, []) := by
      rw [turn, hunknown]
      rfl
    rw [(commands_of_other hexit n s).1, hturn, hunknown, ih]
    rfl

theorem exists_exits_iff :
    (∃ n, g.exits n s lines) ↔
      ∃ k < lines.length, ∃ line rest, (g.standing k s lines).2 = line :: rest ∧
        Text.trim line = "exit" := by
  constructor
  · rintro ⟨n, hn⟩
    obtain ⟨k, -, hk⟩ := (exits_iff n s lines).mp hn
    exact ⟨k, standing_of_exit hk⟩
  · rintro ⟨k, hk, line, rest, hleft, hline⟩
    exact ⟨_, (exits_iff _ _ _).mpr ⟨k, hk, by rw [hleft]; exact hline⟩⟩

theorem exits_of_exists {m : Nat} (hm : lines.length ≤ m) (h : ∃ n, g.exits n s lines) :
    g.exits m s lines := by
  obtain ⟨k, hk, line, rest, hleft, hline⟩ := exists_exits_iff.mp h
  exact (exits_iff _ _ _).mpr ⟨k, Nat.lt_of_lt_of_le hk hm, by rw [hleft]; exact hline⟩

/-- When and how the command line ends on a store that has only so much to say. -/
structure EndsAtExit (g : Gateway σ) (s : σ) (lines : List String) : Prop where
  command : ∀ name command, g.command? name = some command → ∀ s lines,
    ((command s).hold lines).value.1 ≠ .error .unfinished ∧
      (command s).prompts lines ≤ 5 + g.store.horizon s
  ends_iff : (∃ n, g.exits n s lines) ↔
    ∃ k < lines.length, ∃ line rest, (g.standing k s lines).2 = line :: rest ∧
      Text.trim line = "exit"
  converse : (∃ n, g.exits n s lines) ↔ (g.converse lines s).value.1 = .exited
  prompts : (∃ n, g.exits n s lines) → g.exits lines.length s lines ∧
    (g.commands lines.length s).prompts lines ≤ 6 * lines.length + g.store.horizon s
  endless : ¬ (∃ n, g.exits n s lines) →
    (∀ n, ((g.commands n s).hold lines).value.1 = .open ∧ n ≤ (g.commands n s).prompts lines) ∧
      ∃ t, g.standing lines.length s lines = (t, []) ∧ ∀ n, (g.commands n t).hold [] =
        ⟨(.open, t), [], (List.replicate n [.text commandQuestion, .text unknownCommand]).flatten⟩

end Gateway

/-- On a store that has only so much to say, the command line ends if and only if `exit` is read
where a command is asked for, and then it has asked no more than six times per line and once for
every answer of the store. Otherwise it goes on asking when the lines have ended, although every
single command has come to its end. -/
theorem ends_iff_exit {σ : Type} {g : Gateway σ} (h : g.Dwindles) (s : σ) (lines : List String) :
    g.EndsAtExit s lines where
  command name command hcommand s lines := by
    obtain ⟨hends, hprompts⟩ := h.asks_command hcommand s lines
    exact ⟨hends, by omega⟩
  ends_iff := Gateway.exists_exits_iff
  converse := ⟨Gateway.exits_of_exists (Nat.le_succ _), fun hn => ⟨lines.length + 1, hn⟩⟩
  prompts hexits := ⟨Gateway.exits_of_exists (Nat.le_refl _) hexits, h.prompts_commands _ _ _⟩
  endless hnever := by
    refine ⟨fun n => Gateway.le_prompts_of_not_exits fun hn => hnever ⟨n, hn⟩,
      (g.standing lines.length s lines).1, ?_, fun n => g.commands_without_lines n _⟩
    have hlength := Gateway.length_standing (g := g) lines.length s lines
    rw [Nat.sub_self] at hlength
    exact Prod.ext rfl (List.eq_nil_of_length_eq_zero (Nat.le_zero.mp hlength))

theorem ends_iff_exit_after_get :
    let g := Gateway.wire ⟨"orders", ⟨"user", none⟩, .empty⟩ .standard
    let lines := ["get", "exit", " exit "]
    g.Dwindles ∧ g.EndsAtExit ⟨[], []⟩ lines ∧ g.exits 3 ⟨[], []⟩ lines ∧
      (g.commands 3 ⟨[], []⟩).prompts lines = 3 := by
  intro g lines
  have hdwindles : g.Dwindles := Gateway.dwindles_wire _ _
  have h := ends_iff_exit hdwindles ⟨[], []⟩ lines
  have hleft : (g.standing 1 ⟨[], []⟩ lines).2 = [" exit "] := by decide +kernel
  have hexits := h.ends_iff.mpr ⟨1, by decide, " exit ", [], hleft, by decide +kernel⟩
  exact ⟨hdwindles, h, (h.prompts hexits).1, by decide +kernel⟩

/-- Neither where a command is asked for nor within a command is the end of the lines noticed. -/
theorem endless_without_exit :
    let g := Gateway.wire ⟨"orders", ⟨"user", none⟩, .empty⟩ .standard
    (¬ ∃ n, g.exits n ⟨[], []⟩ []) ∧ ¬ ∃ n, g.exits n ⟨[], []⟩ ["put"] := by
  intro g
  constructor
  · intro hexits
    obtain ⟨k, hk, -⟩ := Gateway.exists_exits_iff.mp hexits
    exact absurd hk (Nat.not_lt_zero k)
  · intro hexits
    obtain ⟨k, hk, line, rest, hleft, hline⟩ := Gateway.exists_exits_iff.mp hexits
    obtain rfl : k = 0 := Nat.lt_one_iff.mp hk
    cases hleft
    exact absurd hline (by decide +kernel)

end KeyedTable
