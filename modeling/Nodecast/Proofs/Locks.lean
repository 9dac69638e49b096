import Nodecast.KeyedLock

/-!
# Keyed locks exclude

All calls for a key that are not over share one lock, and at most one of them has it.
-/

namespace Nodecast.KeyedLock

variable {l : KeyedLock} {key k : Key} {t ticket : Nat}

/-- The caller waits for the lock of the key, or has it. -/
def Asks (l : KeyedLock) (t : Nat) (k : Key) : Prop := ∃ c, l.calls.get? t = some c ∧ c.key = k

/-- The lock of the key is handed to the caller. -/
def Holds (l : KeyedLock) (t : Nat) (k : Key) : Prop :=
  ∃ c, l.calls.get? t = some c ∧ c.key = k ∧ c.stage ≠ .waiting

/-- What a caller has of a lock is not taken away. -/
def Keeps (l l' : KeyedLock) (t : Nat) : Prop :=
  ∀ k, (l.Asks t k → l'.Asks t k) ∧ (l.Holds t k → l'.Holds t k)

structure Valid (l : KeyedLock) : Prop where
  called : ∀ {t c}, l.calls.get? t = some c → t < l.nextTicket
  /-- Newcomers are sent to the lock that the calls for their key share. -/
  shared : ∀ {t c}, l.calls.get? t = some c → l.entries.get? c.key = some c.lock
  made : ∀ {k n}, l.entries.get? k = some n → n < l.nextLock
  apart : ∀ {k k' n}, l.entries.get? k = some n → l.entries.get? k' = some n → k = k'
  single : ∀ {t t' c c'}, l.calls.get? t = some c → l.calls.get? t' = some c' →
    c.lock = c'.lock → c.stage ≠ .waiting → c'.stage ≠ .waiting → t = t'

theorem Holds.asks (h : l.Holds t k) : l.Asks t k := by
  obtain ⟨c, hc, hk, -⟩ := h
  exact ⟨c, hc, hk⟩

theorem Asks.lt (h : l.Asks t k) (v : l.Valid) : t < l.nextTicket := by
  obtain ⟨c, hc, -⟩ := h
  exact v.called hc

theorem Valid.holds_unique (v : l.Valid) {t t' : Nat} (h : l.Holds t k) (h' : l.Holds t' k) :
    t = t' := by
  obtain ⟨c, hc, hk, hs⟩ := h
  obtain ⟨c', hc', hk', hs'⟩ := h'
  have he := v.shared hc
  rw [hk, ← hk', v.shared hc'] at he
  exact v.single hc hc' (Option.some.inj he).symm hs hs'

theorem valid_empty : ({} : KeyedLock).Valid := by
  constructor <;> intros <;> contradiction

/-! ## Who refers to a lock -/

theorem isLive_iff {n : Nat} : l.isLive n = true ↔ ∃ t c, l.calls.get? t = some c ∧ c.lock = n := by
  simp only [isLive, List.any_eq_true, decide_eq_true_eq, Table.mem_values_iff]
  constructor
  · rintro ⟨c, ⟨t, hc⟩, hn⟩
    exact ⟨t, c, hc, hn⟩
  · rintro ⟨t, c, hc, hn⟩
    exact ⟨c, ⟨t, hc⟩, hn⟩

theorem isTaken_iff {n : Nat} :
    l.isTaken n = true ↔ ∃ t c, l.calls.get? t = some c ∧ c.lock = n ∧ c.stage ≠ .waiting := by
  simp only [isTaken, List.any_eq_true, Bool.and_eq_true, decide_eq_true_eq, Table.mem_values_iff]
  constructor
  · rintro ⟨c, ⟨t, hc⟩, hn⟩
    exact ⟨t, c, hc, hn⟩
  · rintro ⟨t, c, hc, hn⟩
    exact ⟨c, ⟨t, hc⟩, hn⟩

/-! ## Calls that change and calls that go -/

theorem Valid.withCalls (v : l.Valid) {calls : Table Nat Call}
    (hcalls : ∀ {t c'}, calls.get? t = some c' →
      ∃ c, l.calls.get? t = some c ∧ c'.key = c.key ∧ c'.lock = c.lock)
    (hsingle : ∀ {t t' c c'}, calls.get? t = some c → calls.get? t' = some c' →
      c.lock = c'.lock → c.stage ≠ .waiting → c'.stage ≠ .waiting → t = t') :
    Valid { l with calls } where
  called := by
    intro t c' h
    obtain ⟨c, hc, -⟩ := hcalls h
    exact v.called hc
  shared := by
    intro t c' h
    obtain ⟨c, hc, hk, hn⟩ := hcalls h
    rw [hk, hn]
    exact v.shared hc
  made := v.made
  apart := v.apart
  single := hsingle

theorem Valid.erase (v : l.Valid) (t : Nat) : Valid { l with calls := l.calls.erase t } := by
  have hsub : ∀ {t' c}, (l.calls.erase t).get? t' = some c → l.calls.get? t' = some c := by
    intro t' c h
    rw [Table.get?_erase] at h
    split at h
    · contradiction
    · exact h
  apply v.withCalls
  · intro t' c h
    exact ⟨c, hsub h, rfl, rfl⟩
  · intro t1 t2 c1 c2 h1 h2
    exact v.single (hsub h1) (hsub h2)

theorem keeps_erase {t t' : Nat} (h : t' ≠ t) :
    Keeps l { l with calls := l.calls.erase t } t' := by
  intro k
  simp only [Asks, Holds, Table.get?_erase_of_ne _ h]
  exact ⟨id, id⟩

/-! ## Handing over -/

theorem handOver_cases (l : KeyedLock) (n : Nat) :
    l.handOver n = l ∨ ∃ t c, l.calls.get? t = some c ∧ c.lock = n ∧ c.stage = .waiting ∧
      l.handOver n = { l with calls := l.calls.insert t { c with stage := .granted } } := by
  unfold handOver
  split
  · next t c hf =>
    right
    have hm := Table.mem_entries_iff.1 (List.mem_of_find?_eq_some hf)
    have hp := List.find?_some hf
    simp only [Bool.and_eq_true, decide_eq_true_eq] at hp
    exact ⟨t, c, hm, hp.1, hp.2, rfl⟩
  · exact Or.inl rfl

theorem entries_handOver (l : KeyedLock) (n : Nat) : (l.handOver n).entries = l.entries := by
  obtain he | ⟨_, _, _, _, _, he⟩ := l.handOver_cases n <;> rw [he]

theorem nextLock_handOver (l : KeyedLock) (n : Nat) : (l.handOver n).nextLock = l.nextLock := by
  obtain he | ⟨_, _, _, _, _, he⟩ := l.handOver_cases n <;> rw [he]

theorem get?_restage {t t' : Nat} {c c' : Call} {s : Stage} (hc : l.calls.get? t = some c)
    (h : (l.calls.insert t { c with stage := s }).get? t' = some c') :
    ∃ d, l.calls.get? t' = some d ∧ c'.key = d.key ∧ c'.lock = d.lock ∧
      (c'.stage = d.stage ∨ t' = t ∧ c'.stage = s) := by
  rw [Table.get?_insert] at h
  split at h
  · next e =>
    cases h
    exact ⟨c, e ▸ hc, rfl, rfl, Or.inr ⟨e, rfl⟩⟩
  · exact ⟨c', h, rfl, rfl, Or.inl rfl⟩

theorem Valid.handOver (v : l.Valid) {n : Nat} (hfree : l.isTaken n = false) :
    (l.handOver n).Valid := by
  obtain he | ⟨t, c, hc, hn, -, he⟩ := l.handOver_cases n
  · rwa [he]
  · rw [he]
    have hno : ∀ {t' d}, l.calls.get? t' = some d → d.lock = n → d.stage = .waiting := by
      intro t' d hd hdn
      by_cases hs : d.stage = .waiting
      · exact hs
      · have : l.isTaken n = true := isTaken_iff.2 ⟨t', d, hd, hdn, hs⟩
        simp [this] at hfree
    apply v.withCalls
    · intro t' c' h
      obtain ⟨d, hd, hk, hl, -⟩ := get?_restage hc h
      exact ⟨d, hd, hk, hl⟩
    · intro t1 t2 c1 c2 h1 h2 hl hs1 hs2
      obtain ⟨d1, hd1, -, hl1, hst1⟩ := get?_restage hc h1
      obtain ⟨d2, hd2, -, hl2, hst2⟩ := get?_restage hc h2
      rcases hst1 with hst1 | ⟨rfl, -⟩
      · rcases hst2 with hst2 | ⟨rfl, -⟩
        · exact v.single hd1 hd2 (by rw [← hl1, ← hl2, hl]) (hst1 ▸ hs1) (hst2 ▸ hs2)
        · -- The second call has just got the lock, so the first cannot have had it.
          rw [hc, Option.some.injEq] at hd2
          subst hd2
          exact absurd (hno hd1 (by rw [← hl1, hl, hl2, hn])) (hst1 ▸ hs1)
      · rcases hst2 with hst2 | ⟨rfl, -⟩
        · rw [hc, Option.some.injEq] at hd1
          subst hd1
          exact absurd (hno hd2 (by rw [← hl2, ← hl, hl1, hn])) (hst2 ▸ hs2)
        · rfl

theorem keeps_handOver (n : Nat) (t : Nat) : Keeps l (l.handOver n) t := by
  obtain he | ⟨t', c, hc, -, -, he⟩ := l.handOver_cases n
  · rw [he]
    exact fun _ => ⟨id, id⟩
  · rw [he]
    intro k
    by_cases e : t = t'
    · subst e
      simp only [Asks, Holds, hc, Table.get?_insert_self, Option.some.injEq, exists_eq_left']
      exact ⟨id, fun h => ⟨h.1, by decide⟩⟩
    · simp only [Asks, Holds, Table.get?_insert_of_ne _ _ e]
      exact ⟨id, id⟩

/-! ## A new call -/

theorem lockFor_calls (l : KeyedLock) (key : Key) :
    (l.lockFor key).2.calls = l.calls ∧ (l.lockFor key).2.nextTicket = l.nextTicket := by
  unfold lockFor
  split <;> exact ⟨rfl, rfl⟩

theorem lockFor_listed (l : KeyedLock) (key : Key) :
    (l.lockFor key).2.entries.get? key = some (l.lockFor key).1 := by
  unfold lockFor
  split
  · next n h =>
    rw [Option.filter_eq_some_iff] at h
    exact h.1
  · exact Table.get?_insert_self _ _ _

theorem Valid.renew (v : l.Valid) (hno : ∀ {t c}, l.calls.get? t = some c → c.key ≠ key) :
    Valid { l with entries := l.entries.insert key l.nextLock, nextLock := l.nextLock + 1 } := by
  refine ⟨v.called, ?_, ?_, ?_, v.single⟩
  · intro t c hc
    rw [Table.get?_insert_of_ne _ _ (hno hc)]
    exact v.shared hc
  · intro k n hn
    rw [Table.get?_insert] at hn
    split at hn
    · cases hn
      exact Nat.lt_succ_self _
    · exact Nat.lt_succ_of_lt (v.made hn)
  · intro k k' n hn hn'
    rw [Table.get?_insert] at hn hn'
    split at hn <;> split at hn'
    · simp [*]
    · cases hn
      exact absurd (v.made hn') (Nat.lt_irrefl _)
    · cases hn'
      exact absurd (v.made hn) (Nat.lt_irrefl _)
    · exact v.apart hn hn'

theorem Valid.lockFor (v : l.Valid) (key : Key) : (l.lockFor key).2.Valid := by
  unfold KeyedLock.lockFor
  split
  · exact v
  · next h =>
    -- Nobody refers to the lock that the entry of the key has now, if there is one.
    apply v.renew
    intro t c hc hk
    have hs := v.shared hc
    rw [hk] at hs
    rw [hs, Option.filter_eq_none_iff] at h
    exact h _ rfl (isLive_iff.2 ⟨t, c, hc, rfl⟩)

/-- A call joins the line for a lock. -/
def enter (l : KeyedLock) (key : Key) (n : Nat) : Nat × KeyedLock :=
  (l.nextTicket,
    { l with
      calls := l.calls.insert l.nextTicket ⟨key, n, if l.isTaken n then .waiting else .granted⟩
      nextTicket := l.nextTicket + 1 })

theorem request_eq (l : KeyedLock) (key : Key) :
    l.request key = (l.lockFor key).2.enter key (l.lockFor key).1 := rfl

theorem get?_enter (l : KeyedLock) (key : Key) (n t : Nat) :
    (l.enter key n).2.calls.get? t =
      if t = l.nextTicket then
        some ⟨key, n, if l.isTaken n then .waiting else .granted⟩
      else l.calls.get? t := Table.get?_insert _ _ _ _

theorem Valid.enter (v : l.Valid) {n : Nat} (hn : l.entries.get? key = some n) :
    (l.enter key n).2.Valid := by
  refine ⟨?_, ?_, v.made, v.apart, ?_⟩
  · intro t c h
    rw [get?_enter] at h
    show t < l.nextTicket + 1
    split at h
    · omega
    · have := v.called h
      omega
  · intro t c h
    rw [get?_enter] at h
    show l.entries.get? c.key = some c.lock
    split at h
    · cases h
      exact hn
    · exact v.shared h
  · intro t t' c c' h h' hl hs hs'
    -- The new call is granted only when no other call has the lock.
    have hnew : ∀ {t d}, l.calls.get? t = some d → d.stage ≠ .waiting → d.lock = n →
        l.isTaken n = true := by
      intro t d hd hds hdl
      exact isTaken_iff.2 ⟨t, d, hd, hdl, hds⟩
    rw [get?_enter] at h h'
    split at h <;> split at h'
    · simp [*]
    · cases h
      simp only [hnew h' hs' hl.symm, if_true, ne_eq, not_true_eq_false] at hs
    · cases h'
      simp only [hnew h hs hl, if_true, ne_eq, not_true_eq_false] at hs'
    · exact v.single h h' hl hs hs'

theorem request_ticket (l : KeyedLock) (key : Key) : (l.request key).1 = l.nextTicket := by
  rw [request_eq, enter, (l.lockFor_calls key).2]

theorem get?_request (l : KeyedLock) (key : Key) (t : Nat) :
    (l.request key).2.calls.get? t =
      if t = l.nextTicket then
        some ⟨key, (l.lockFor key).1,
          if (l.lockFor key).2.isTaken (l.lockFor key).1 then .waiting else .granted⟩
      else l.calls.get? t := by
  rw [request_eq, get?_enter, (l.lockFor_calls key).1, (l.lockFor_calls key).2]

theorem Valid.request (v : l.Valid) (key : Key) : (l.request key).2.Valid :=
  (v.lockFor key).enter (l.lockFor_listed key)

theorem asks_request (l : KeyedLock) (key : Key) :
    (l.request key).2.Asks (l.request key).1 key := by
  rw [request_ticket]
  exact ⟨_, by rw [get?_request, if_pos rfl], rfl⟩

theorem Valid.keeps_request (v : l.Valid) (key : Key) (t : Nat) : Keeps l (l.request key).2 t := by
  intro k
  have hold : ∀ {c}, l.calls.get? t = some c → (l.request key).2.calls.get? t = some c := by
    intro c h
    rw [get?_request, if_neg (Nat.ne_of_lt (v.called h)), h]
  constructor
  · rintro ⟨c, hc, hk⟩
    exact ⟨c, hold hc, hk⟩
  · rintro ⟨c, hc, hk⟩
    exact ⟨c, hold hc, hk⟩

/-! ## Going on with the lock -/

theorem take_cases (l : KeyedLock) (t : Nat) :
    l.take t = l ∨ ∃ c, l.calls.get? t = some c ∧ c.stage = .granted ∧
      l.take t = { l with calls := l.calls.insert t { c with stage := .held } } := by
  unfold take
  split
  · next c hc =>
    split
    · next hs => exact Or.inr ⟨c, hc, hs, rfl⟩
    · exact Or.inl rfl
  · exact Or.inl rfl

theorem Valid.take (v : l.Valid) (t : Nat) : (l.take t).Valid := by
  obtain he | ⟨c, hc, hs, he⟩ := l.take_cases t
  · rwa [he]
  · rw [he]
    apply v.withCalls
    · intro t' c' h
      obtain ⟨d, hd, hk, hl, -⟩ := get?_restage hc h
      exact ⟨d, hd, hk, hl⟩
    · intro t1 t2 c1 c2 h1 h2 hl hs1 hs2
      obtain ⟨d1, hd1, -, hl1, hst1⟩ := get?_restage hc h1
      obtain ⟨d2, hd2, -, hl2, hst2⟩ := get?_restage hc h2
      have had : ∀ {t' : Nat} {d : Call}, l.calls.get? t' = some d → ∀ c' : Call,
          c'.stage ≠ .waiting → (c'.stage = d.stage ∨ t' = t ∧ c'.stage = .held) →
          d.stage ≠ .waiting := by
        rintro t' d hd c' hc' (e | ⟨rfl, -⟩)
        · rwa [← e]
        · rw [hc, Option.some.injEq] at hd
          rw [← hd, hs]
          decide
      exact v.single hd1 hd2 (by rw [← hl1, ← hl2, hl]) (had hd1 c1 hs1 hst1)
        (had hd2 c2 hs2 hst2)

theorem keeps_take (t t' : Nat) : Keeps l (l.take t) t' := by
  obtain he | ⟨c, hc, -, he⟩ := l.take_cases t
  · rw [he]
    exact fun _ => ⟨id, id⟩
  · rw [he]
    intro k
    by_cases e : t' = t
    · subst e
      simp only [Asks, Holds, hc, Table.get?_insert_self, Option.some.injEq, exists_eq_left']
      exact ⟨id, fun h => ⟨h.1, by decide⟩⟩
    · simp only [Asks, Holds, Table.get?_insert_of_ne _ _ e]
      exact ⟨id, id⟩

theorem holds_take (h : l.stage? t = some .granted) (ha : l.Asks t k) : (l.take t).Holds t k := by
  obtain ⟨c, hc, hk⟩ := ha
  simp only [stage?, hc, Option.map_some, Option.some.injEq] at h
  refine (keeps_take t t k).2 ⟨c, hc, hk, ?_⟩
  rw [h]
  decide

/-! ## Giving the lock back -/

theorem Valid.not_taken_erase (v : l.Valid) {c : Call} (hc : l.calls.get? t = some c)
    (hs : c.stage ≠ .waiting) : isTaken { l with calls := l.calls.erase t } c.lock = false := by
  rw [Bool.eq_false_iff]
  intro h
  obtain ⟨t', d, hd, hl, hds⟩ := isTaken_iff.1 h
  simp only [Table.get?_erase] at hd
  split at hd
  · contradiction
  · next hne => exact hne (v.single hd hc hl hds hs)

theorem Valid.forget (v : l.Valid) (hno : ∀ {t c}, l.calls.get? t = some c → c.key ≠ key) :
    Valid { l with entries := l.entries.erase key } := by
  have hsub : ∀ {k n}, (l.entries.erase key).get? k = some n → l.entries.get? k = some n := by
    intro k n hn
    rw [Table.get?_erase] at hn
    split at hn
    · contradiction
    · exact hn
  refine ⟨v.called, ?_, fun hn => v.made (hsub hn), fun hn hn' => v.apart (hsub hn) (hsub hn'),
    v.single⟩
  intro t c hc
  rw [Table.get?_erase_of_ne _ (hno hc)]
  exact v.shared hc

theorem Valid.release (v : l.Valid) (h : l.Holds t k) : (l.release t).Valid := by
  obtain ⟨c, hc, -, hs⟩ := h
  have w := (v.erase t).handOver (v.not_taken_erase hc hs)
  simp only [KeyedLock.release, hc]
  split
  · exact w
  · next hdead =>
    apply w.forget
    intro t' d hd e
    apply hdead
    refine isLive_iff.2 ⟨t', d, hd, ?_⟩
    have h1 := w.shared hd
    rw [entries_handOver, e, v.shared hc] at h1
    exact (Option.some.inj h1).symm

theorem keeps_release {t t' : Nat} (h : t' ≠ t) : Keeps l (l.release t) t' := by
  unfold release
  split
  · exact fun _ => ⟨id, id⟩
  · next c hc =>
    have hk : Keeps l (handOver { l with calls := l.calls.erase t } c.lock) t' := by
      intro k
      have h1 := keeps_erase (l := l) h k
      have h2 := keeps_handOver (l := { l with calls := l.calls.erase t }) c.lock t' k
      exact ⟨fun a => h2.1 (h1.1 a), fun a => h2.2 (h1.2 a)⟩
    dsimp only
    split
    · exact hk
    · exact hk

end Nodecast.KeyedLock
