import Mathlib.Algebra.Group.Nat.Defs
import Nodecast.Backoff

/-!
# Delays in nanoseconds

Durations of seconds and nanoseconds compare and multiply like the numbers of their nanoseconds, up
to the longest of them. So the delay after a failure is a power of two times the base, cut off at
the maximum.
-/

namespace Nodecast

/-! ## Durations as numbers -/

namespace Duration

variable {a b d e : Duration} {n : Nat}

/-- The nanoseconds are less than a second, and the seconds have 64 bits. -/
structure Valid (d : Duration) : Prop where
  secs : d.secs < secsBound
  nanos : d.nanos < nanosPerSec

theorem nanosPerSec_pos : 0 < nanosPerSec := by decide

theorem total_div (h : d.Valid) : d.total / nanosPerSec = d.secs := by
  unfold total
  rw [Nat.add_comm, Nat.add_mul_div_right _ _ nanosPerSec_pos, Nat.div_eq_of_lt h.nanos,
    Nat.zero_add]

theorem Valid.total_lt (h : d.Valid) : d.total < secsBound * nanosPerSec := by
  rw [← Nat.div_lt_iff_lt_mul nanosPerSec_pos, total_div h]
  exact h.secs

theorem le_iff_total (ha : a.Valid) (hb : b.Valid) : a.le b = true ↔ a.total ≤ b.total := by
  have hna := ha.nanos
  have hnb := hb.nanos
  simp only [le, total, nanosPerSec, Bool.or_eq_true, Bool.and_eq_true, decide_eq_true_eq] at *
  omega

theorem total_min (ha : a.Valid) (hb : b.Valid) :
    (a.min b).total = Nat.min a.total b.total := by
  unfold Duration.min
  by_cases h : a.le b = true
  · rw [if_pos h]
    exact (Nat.min_eq_left ((le_iff_total ha hb).1 h)).symm
  · rw [if_neg h]
    rw [le_iff_total ha hb, Nat.not_le] at h
    exact (Nat.min_eq_right (Nat.le_of_lt h)).symm

theorem Valid.min (ha : a.Valid) (hb : b.Valid) : (a.min b).Valid := by
  unfold Duration.min
  split
  · exact ha
  · exact hb

/-! ## Multiples -/

theorem total_mul_div (d : Duration) (n : Nat) :
    d.total * n / nanosPerSec = d.secs * n + d.nanos * n / nanosPerSec := by
  have hsplit : d.total * n = d.nanos * n + d.secs * n * nanosPerSec := by
    rw [total, Nat.add_mul, Nat.mul_right_comm, Nat.add_comm]
  rw [hsplit, Nat.add_mul_div_right _ _ nanosPerSec_pos, Nat.add_comm]

theorem total_mul_mod (d : Duration) (n : Nat) :
    d.total * n % nanosPerSec = d.nanos * n % nanosPerSec := by
  rw [total, Nat.add_mul, Nat.mul_right_comm, Nat.add_comm, Nat.add_mul_mod_self_right]

theorem times?_eq_some (h : d.times? n = some e) : e.Valid ∧ e.total = d.total * n := by
  unfold times? at h
  simp only at h
  split at h
  · next hfits =>
    cases h
    refine ⟨⟨hfits, Nat.mod_lt _ nanosPerSec_pos⟩, ?_⟩
    rw [total, ← total_mul_div, ← total_mul_mod, Nat.mul_comm (_ / _)]
    exact Nat.div_add_mod _ _
  · cases h

theorem times?_eq_none (h : d.times? n = none) : secsBound * nanosPerSec ≤ d.total * n := by
  unfold times? at h
  simp only at h
  split at h
  · cases h
  · next hlong =>
    rw [← total_mul_div, Nat.not_lt] at hlong
    exact (Nat.le_div_iff_mul_le nanosPerSec_pos).1 hlong

end Duration

/-! ## The delay -/

namespace Backoff

variable {b : Backoff} {f g : Nat}

/-- How often the base is doubled after so many failures. -/
def doublings (failures : Nat) : Nat := min (Max.max failures 1 - 1) lastDoubling

structure Valid (b : Backoff) : Prop where
  base : b.base.Valid
  max : b.max.Valid

theorem doublings_eq (f : Nat) : Nat.min (f - 1) lastDoubling = doublings f := by
  unfold doublings
  congr 1
  omega

theorem doublings_mono (h : f ≤ g) : doublings f ≤ doublings g := by
  unfold doublings lastDoubling
  omega

theorem doublings_succ (h1 : 1 ≤ f) (h32 : f < 32) : doublings (f + 1) = doublings f + 1 := by
  unfold doublings lastDoubling
  omega

/-- A product that does not fit is longer than the maximum, so the maximum stands in for it. -/
theorem Valid.delay (h : b.Valid) (f : Nat) :
    (b.delay f).Valid ∧ (b.delay f).total = min b.max.total (b.base.total * 2 ^ doublings f) := by
  unfold Backoff.delay
  rw [doublings_eq]
  split
  · next d hd =>
    obtain ⟨hvalid, htotal⟩ := Duration.times?_eq_some hd
    refine ⟨hvalid.min h.max, ?_⟩
    rw [Duration.total_min hvalid h.max, htotal]
    exact Nat.min_comm _ _
  · next hnone =>
    have hlong := Duration.times?_eq_none hnone
    have hmax := h.max.total_lt
    exact ⟨h.max, (Nat.min_eq_left (Nat.le_of_lt (Nat.lt_of_lt_of_le hmax hlong))).symm⟩

theorem Valid.delay_mono (h : b.Valid) (hfg : f ≤ g) : (b.delay f).total ≤ (b.delay g).total := by
  rw [(h.delay f).2, (h.delay g).2]
  have hpow : 2 ^ doublings f ≤ 2 ^ doublings g :=
    Nat.pow_le_pow_right (by decide) (doublings_mono hfg)
  have hmul := Nat.mul_le_mul_left b.base.total hpow
  omega

theorem Valid.delay_succ (h : b.Valid) (h1 : 1 ≤ f) (h32 : f < 32) :
    (b.delay (f + 1)).total = min b.max.total (2 * (b.delay f).total) := by
  rw [(h.delay f).2, (h.delay (f + 1)).2, doublings_succ h1 h32, Nat.pow_succ, ← Nat.mul_assoc]
  omega

/-- The delay is the base doubled with each failure from the second to the 32nd, or the maximum if
that is shorter, to the nanosecond and also where the product does not fit a duration. So it never
exceeds the maximum, never gets shorter, and doubles until it reaches the maximum. -/
theorem delay_exact (h : b.Valid) :
    (∀ f, (b.delay f).Valid ∧
      (b.delay f).total = min b.max.total (b.base.total * 2 ^ min (Max.max f 1 - 1) 31)) ∧
    (∀ f, (b.delay f).total ≤ b.max.total) ∧
    (∀ f g, f ≤ g → (b.delay f).total ≤ (b.delay g).total) ∧
    (∀ f, 1 ≤ f → f < 32 → (b.delay (f + 1)).total = min b.max.total (2 * (b.delay f).total)) := by
  refine ⟨h.delay, fun f => ?_, fun f g => h.delay_mono, fun f => h.delay_succ⟩
  rw [(h.delay f).2]
  exact Nat.min_le_left _ _

/-- The second delay would take 2 ^ 64 seconds, one more than there are. -/
theorem delay_exact_overflow :
    Valid ⟨⟨2 ^ 63, 0⟩, ⟨2 ^ 64 - 1, 999999999⟩⟩ ∧
      (delay ⟨⟨2 ^ 63, 0⟩, ⟨2 ^ 64 - 1, 999999999⟩⟩ 1).total = 2 ^ 63 * 10 ^ 9 ∧
      (delay ⟨⟨2 ^ 63, 0⟩, ⟨2 ^ 64 - 1, 999999999⟩⟩ 2).total = 2 ^ 64 * 10 ^ 9 - 1 := by
  have hvalid : Valid ⟨⟨2 ^ 63, 0⟩, ⟨2 ^ 64 - 1, 999999999⟩⟩ :=
    ⟨⟨by decide, by decide⟩, ⟨by decide, by decide⟩⟩
  obtain ⟨hexact, -, -, -⟩ := delay_exact hvalid
  refine ⟨hvalid, ?_, ?_⟩
  · rw [(hexact 1).2]
    decide
  · rw [(hexact 2).2]
    decide

end Backoff

end Nodecast
