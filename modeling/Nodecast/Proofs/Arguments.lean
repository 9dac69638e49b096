import Mathlib.Algebra.Group.Nat.Defs
import Nodecast.Cli.Arguments

/-!
# Numbers among the arguments

Every number that is accepted is one that the daemon can hold, and at least one worker is asked for.
-/

namespace Nodecast

/-- The numbers of the settings are below their bounds, and there is a worker. -/
structure Settings.InRange (s : Settings) : Prop where
  workers : 1 ≤ s.workers ∧ s.workers < 2 ^ 16
  queueCapacity : s.queueCapacity < 2 ^ 64
  keepAliveSecs : s.keepAliveSecs < 2 ^ 64
  retryBaseMillis : s.retryBaseMillis < 2 ^ 64
  retryMaxSecs : s.retryMaxSecs < 2 ^ 64
  metricsIntervalSecs : s.metricsIntervalSecs < 2 ^ 64

namespace Cli

variable {bound n : Nat} {text value : String} {s : Settings} {p p' : Progress} {o : Switch}
  {args : List String}

theorem lt_of_readNumber (h : readNumber bound text = .ok n) : n < bound := by
  unfold readNumber at h
  extract_lets digits value at h
  split at h
  · contradiction
  · next hbad =>
    simp only [Bool.or_eq_true, decide_eq_true_eq, not_or] at hbad
    have hvalue := Except.ok.inj h
    exact hvalue ▸ Nat.lt_of_not_le hbad.2

theorem readWorkers_range (h : readWorkers text = .ok n) : 1 ≤ n ∧ n < 2 ^ 16 := by
  unfold readWorkers at h
  cases hn : readNumber (Nat.pow 2 16) text with
  | error e =>
    rw [hn] at h
    contradiction
  | ok n' =>
    rw [hn] at h
    change (if n' = 0 then Except.error Stop.badValue else .ok n') = .ok n at h
    split at h
    · contradiction
    · next hne =>
      cases h
      exact ⟨Nat.one_le_iff_ne_zero.2 hne, lt_of_readNumber hn⟩

theorem bind_eq_ok {α β : Type} {x : Except Stop α} {f : α → Except Stop β} {b : β}
    (h : (x >>= f) = .ok b) : ∃ a, x = .ok a ∧ f a = .ok b := by
  cases x with
  | error e => contradiction
  | ok a => exact ⟨a, rfl, h⟩

theorem inRange_set (hp : p.settings.InRange) (h : p.set o value = .ok s) : s.InRange := by
  cases o with
  | workers =>
    obtain ⟨n, hn, h⟩ := bind_eq_ok h
    cases h
    exact { hp with workers := readWorkers_range hn }
  | queueCapacity =>
    obtain ⟨n, hn, h⟩ := bind_eq_ok h
    cases h
    exact { hp with queueCapacity := lt_of_readNumber hn }
  | keepAlive =>
    obtain ⟨n, hn, h⟩ := bind_eq_ok h
    cases h
    exact { hp with keepAliveSecs := lt_of_readNumber hn }
  | retryBase =>
    obtain ⟨n, hn, h⟩ := bind_eq_ok h
    cases h
    exact { hp with retryBaseMillis := lt_of_readNumber hn }
  | retryMax =>
    obtain ⟨n, hn, h⟩ := bind_eq_ok h
    cases h
    exact { hp with retryMaxSecs := lt_of_readNumber hn }
  | metricsInterval =>
    obtain ⟨n, hn, h⟩ := bind_eq_ok h
    cases h
    exact { hp with metricsIntervalSecs := lt_of_readNumber hn }
  | basePath =>
    cases h
    exact { hp with }
  | kubeconfig | listenAddress | resources | metricsFile =>
    obtain ⟨_, -, h⟩ := bind_eq_ok h
    cases h
    exact { hp with }

theorem inRange_give (hp : p.settings.InRange) (h : p.give o value = .ok p') :
    p'.settings.InRange := by
  unfold Progress.give at h
  split at h
  · contradiction
  · obtain ⟨s, hs, h⟩ := bind_eq_ok h
    cases h
    exact inRange_set hp hs

theorem inRange_settle (hp : p.settings.InRange) (h : p.settle = .ok p') :
    p'.settings.InRange := by
  unfold Progress.settle at h
  split at h
  · cases h
    exact hp
  · contradiction
  · exact inRange_give hp h

theorem inRange_read (hp : p.settings.InRange) (h : p.read args = .ok s) : s.InRange := by
  have hend : ∀ {p : Progress}, p.settings.InRange → p.settle.map Progress.settings = .ok s →
      s.InRange := by
    intro p hp h
    cases hsettle : p.settle with
    | error e =>
      rw [hsettle] at h
      contradiction
    | ok p' =>
      rw [hsettle] at h
      cases h
      exact inRange_settle hp hsettle
  have hhelp : ∀ p : Progress, p.help ≠ .ok s := by
    intro p h
    obtain ⟨_, -, h⟩ := bind_eq_ok h
    contradiction
  fun_induction Progress.read p args with
  | case1 p => exact hend hp h
  | case2 p => exact hend hp h
  | case3 => contradiction
  | case4 => exact absurd h (hhelp _)
  | case5 => contradiction
  | case6 => contradiction
  | case7 p arg rest _ _ name value _ _ _ o _ ihgiven ihpending =>
    -- A new option settles the one before it, and its own value comes now or later.
    obtain ⟨p1, hsettle, h⟩ := bind_eq_ok h
    have hp1 := inRange_settle hp hsettle
    cases value with
    | some v =>
      obtain ⟨p2, hgive, h⟩ := bind_eq_ok h
      exact ihgiven p2 (inRange_give hp1 hgive) h
    | none => exact ihpending p1 hp1 h
  | case8 => exact absurd h (hhelp _)
  | case9 => contradiction
  | case10 p arg rest _ _ _ _ o _ ih => exact ih hp h
  | case11 => contradiction

theorem inRange_default : ({} : Settings).InRange := by
  constructor <;> decide

theorem inRange_parse (h : parse args = .ok s) : s.InRange := by
  unfold parse at h
  split at h
  · contradiction
  · exact inRange_read inRange_default h
  · contradiction
  · contradiction
  · split at h <;> contradiction

end Cli

end Nodecast
