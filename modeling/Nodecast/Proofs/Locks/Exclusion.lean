import Nodecast.Proofs.Locks.Callers

/-!
# Guards exclude each other

However the callers are interleaved, there is one guard for a key at most, all calls for a key wait
for the same lock, and they get it in the order in which they joined the line.
-/

namespace Nodecast.KeyedLock.Crowd

variable {c c' : Crowd} {a : Action} {b : Aside} {d : Call} {i n s t : Nat} {key k : Key}

/-- The guard of the key is live. -/
def Guards (c : Crowd) (t : Nat) (k : Key) : Prop :=
  ∃ d, c.line.calls.get? t = some d ∧ d.key = k ∧ d.stage = .held

/-- The call is in line and has not returned. -/
def Waits (c : Crowd) (t : Nat) (k : Key) : Prop :=
  ∃ d, c.line.calls.get? t = some d ∧ d.key = k ∧ d.stage ≠ .held

/-- A guard or a call for the key refers to the lock, be the call in line or on its way there. -/
def Uses (c : Crowd) (k : Key) (n : Nat) : Prop :=
  (∃ t d, c.line.calls.get? t = some d ∧ d.key = k ∧ d.lock = n) ∨
    ∃ i b, c.aside.get? i = some b ∧ b.key = k ∧ b.lock = n ∧
      (b.phase = .found ∨ b.phase = .ready)

/-- The key that a step is for. -/
def about? (c : Crowd) : Action → Option Key
  | .find key => some key
  | .goOn i | .retire i => (c.aside.get? i).map Aside.key
  | .take t | .unlock t | .abandon t => (c.line.calls.get? t).map Call.key

theorem Guards.holds (h : c.Guards t k) : c.line.Holds t k := by
  obtain ⟨d, hd, hk, hs⟩ := h
  exact ⟨d, hd, hk, by rw [hs]; decide⟩

theorem Waits.asks (h : c.Waits t k) : c.line.Asks t k := by
  obtain ⟨d, hd, hk, -⟩ := h
  exact ⟨d, hd, hk⟩

/-! ## What a step does to the line -/

theorem step_line (hs : c.step a = some c') :
    c'.line.calls = c.line.calls ∨
    (∃ i b, c.aside.get? i = some b ∧ a = .goOn i ∧ c'.line = (c.line.enter b.key b.lock).2) ∨
    (∃ t, a = .take t ∧ c.line.stage? t = some .granted ∧ c'.line = c.line.take t) ∨
    ∃ t d, (a = .unlock t ∨ a = .abandon t) ∧ c.line.calls.get? t = some d ∧
      c'.line = c.line.abandon t := by
  cases a with
  | find key =>
    cases hs
    refine Or.inl ?_
    unfold find
    split
    · split <;> rfl
    · rfl
  | goOn i =>
    obtain ⟨b, hb, rfl⟩ := Option.map_eq_some_iff.1 hs
    have hsweep : (c.sweep b.key).line.calls = c.line.calls := by
      unfold sweep
      split
      · split <;> rfl
      · rfl
    unfold goOn
    cases b.phase with
    | ready => exact Or.inr (Or.inl ⟨i, b, hb, rfl, rfl⟩)
    | sweeping => exact Or.inl hsweep
    | _ => exact Or.inl rfl
  | take t =>
    obtain ⟨hg, hs⟩ := Option.ite_none_right_eq_some.1 hs
    cases hs
    exact Or.inr (Or.inr (Or.inl ⟨t, rfl, hg, rfl⟩))
  | unlock t =>
    obtain ⟨d, hd, rfl⟩ := Option.map_eq_some_iff.1 hs
    exact Or.inr (Or.inr (Or.inr ⟨t, d, Or.inl rfl, (Option.filter_eq_some_iff.1 hd).1, rfl⟩))
  | abandon t =>
    obtain ⟨d, hd, rfl⟩ := Option.map_eq_some_iff.1 hs
    exact Or.inr (Or.inr (Or.inr ⟨t, d, Or.inr rfl, (Option.filter_eq_some_iff.1 hd).1, rfl⟩))
  | retire i =>
    obtain ⟨b, -, rfl⟩ := Option.map_eq_some_iff.1 hs
    exact Or.inl rfl

theorem held_of_handOver {l : KeyedLock} (hd : (l.handOver n).calls.get? t = some d)
    (hs : d.stage = .held) : l.calls.get? t = some d := by
  obtain he | ⟨u, e, -, -, -, he⟩ := l.handOver_cases n
  · rwa [he] at hd
  · rw [he, Table.get?_insert] at hd
    split at hd
    · cases hd
      contradiction
    · exact hd

theorem held_of_abandon {l : KeyedLock} (hd : (l.abandon s).calls.get? t = some d)
    (hs : d.stage = .held) : l.calls.get? t = some d := by
  have hleft : ∀ {d}, (l.calls.erase s).get? t = some d → l.calls.get? t = some d := by
    intro d hd
    rw [Table.get?_erase] at hd
    split at hd
    · contradiction
    · exact hd
  cases hc : l.calls.get? s with
  | none => rwa [abandon_of_none hc] at hd
  | some e =>
    by_cases he : e.stage = .waiting
    · rw [abandon_of_waiting hc he] at hd
      exact hleft hd
    · rw [abandon_of_holds hc he] at hd
      exact hleft (held_of_handOver hd hs)

theorem guards_step (hs : c.step a = some c') (h : c'.Guards t k) :
    c.Guards t k ∨ a = .take t ∧ c.line.stage? t = some .granted ∧ c.line.Asks t k := by
  obtain ⟨d, hd, hk, hheld⟩ := h
  obtain he | ⟨i, b, -, -, he⟩ | ⟨s, rfl, hg, he⟩ | ⟨s, e, -, -, he⟩ := step_line hs
  · rw [he] at hd
    exact Or.inl ⟨d, hd, hk, hheld⟩
  · rw [he, get?_enter] at hd
    split at hd
    · cases hd
      dsimp only at hheld
      split at hheld <;> contradiction
    · exact Or.inl ⟨d, hd, hk, hheld⟩
  · rw [he] at hd
    obtain he' | ⟨e, hc, hgranted, he'⟩ := c.line.take_cases s
    · rw [he'] at hd
      exact Or.inl ⟨d, hd, hk, hheld⟩
    · rw [he', Table.get?_insert] at hd
      split at hd
      · next hts =>
        cases hd
        subst hts
        exact Or.inr ⟨rfl, hg, e, hc, hk⟩
      · exact Or.inl ⟨d, hd, hk, hheld⟩
  · rw [he] at hd
    exact Or.inl ⟨d, held_of_abandon hd hheld, hk, hheld⟩

theorem Valid.undisturbed (v : c.Valid) (hs : c.step a = some c')
    (hd : c.line.calls.get? t = some d) (ha : c.about? a ≠ some d.key) :
    c'.line.calls.get? t = some d := by
  obtain he | ⟨i, b, -, -, he⟩ | ⟨s, rfl, -, he⟩ | ⟨s, e, ha', he', he⟩ := step_line hs
  · rw [he, hd]
  · rw [he, get?_enter, if_neg (Nat.ne_of_lt (v.line.valid.called hd)), hd]
  · have hne : t ≠ s := by
      rintro rfl
      exact ha (by rw [about?, hd]; rfl)
    obtain he' | ⟨_, _, _, he'⟩ := c.line.take_cases s
    · rw [he, he', hd]
    · rw [he, he']
      exact (Table.get?_insert_of_ne _ _ hne).trans hd
  · have hne : d.key ≠ e.key := by
      intro h
      rcases ha' with rfl | rfl <;> exact ha (by rw [about?, he', h]; rfl)
    rw [he]
    exact v.line.valid.get?_abandon he' hd hne

/-! ## What holds of every crowd -/

theorem Valid.uses (v : c.Valid) (h : c.Uses k n) : c.line.entries.get? k = some n := by
  obtain ⟨t, d, hd, rfl, rfl⟩ | ⟨i, b, hb, rfl, rfl, hp⟩ := h
  · exact v.line.valid.shared hd
  · apply v.shared hb
    rcases hp with hp | hp <;> rw [hp] <;> decide

theorem Valid.next (v : c.Valid) (h : c.Waits s k) (hfree : ∀ t, ¬ c.Guards t k) :
    ∃ t c', c.Waits t k ∧ (∀ r, r < t → ¬ c.Waits r k) ∧ c.step (.take t) = some c' ∧
      c'.Guards t k := by
  obtain ⟨t, ht⟩ := v.line.exists_holds h.asks
  obtain ⟨-, hfirst⟩ := v.line.holds_iff.1 ht
  obtain ⟨d, hd, hk, hstage⟩ := ht
  have hgranted : d.stage = .granted := by
    cases hs : d.stage with
    | waiting => exact absurd hs hstage
    | granted => rfl
    | held => exact absurd ⟨d, hd, hk, hs⟩ (hfree t)
  have hstage? : c.line.stage? t = some .granted := by
    rw [stage?, hd, Option.map_some, hgranted]
  refine ⟨t, _, ⟨d, hd, hk, by rw [hgranted]; decide⟩, fun r hr hw => hfirst r hr hw.asks,
    if_pos hstage?, ?_⟩
  refine ⟨{ d with stage := .held }, ?_, hk, rfl⟩
  show (c.line.take t).calls.get? t = _
  simp only [KeyedLock.take, hd, hgranted, if_true]
  exact Table.get?_insert_self _ _ _

/-- One guard for a key at most is live. The entry of a key is the lock that all guards and calls
for the key share, and no other key has it. While there is no guard, the call that joined the line
first can take the lock, and no other call can. A call waits only for an earlier one for its own
key, and steps for other keys leave it as it is. -/
theorem Reachable.excludes (hr : c.Reachable) :
    (∀ s t k, c.Guards s k → c.Guards t k → s = t) ∧
    (∀ k n, c.Uses k n → c.line.entries.get? k = some n) ∧
    (∀ k k' n, c.Uses k n → c.Uses k' n → k = k') ∧
    (∀ s k, c.Waits s k → (∀ t, ¬ c.Guards t k) →
      ∃ t c', c.Waits t k ∧ (∀ r, r < t → ¬ c.Waits r k) ∧ c.step (.take t) = some c' ∧
        c'.Guards t k) ∧
    (∀ a c' t k, c.step a = some c' → c'.Guards t k → ¬ c.Guards t k →
      a = .take t ∧ (∀ r, ¬ c.Guards r k) ∧ ∀ r, r < t → ¬ c.Waits r k) ∧
    (∀ t d, c.line.calls.get? t = some d → d.stage = .waiting →
      ∃ s, s < t ∧ c.line.Holds s d.key) ∧
    (∀ a c' t d, c.step a = some c' → c.line.calls.get? t = some d → c.about? a ≠ some d.key →
      c'.line.calls.get? t = some d) := by
  have v := hr.valid
  refine ⟨?_, fun k n => v.uses, ?_, fun s k => v.next, ?_, ?_, fun a c' t d => v.undisturbed⟩
  · intro s t k hs ht
    exact v.line.valid.holds_unique hs.holds ht.holds
  · intro k k' n hk hk'
    exact v.line.valid.apart (v.uses hk) (v.uses hk')
  · intro a c' t k hs hnew hold
    obtain ⟨ha, hg, d, hd, hk⟩ := (guards_step hs hnew).resolve_left hold
    have hdg : d.stage = .granted := by
      rw [stage?, hd, Option.map_some, Option.some.injEq] at hg
      exact hg
    have hholds : c.line.Holds t k := ⟨d, hd, hk, by rw [hdg]; decide⟩
    refine ⟨ha, fun r hr => ?_, fun r hrt hw => (v.line.holds_iff.1 hholds).2 r hrt hw.asks⟩
    rw [v.line.valid.holds_unique hr.holds hholds] at hr
    exact hold hr
  · intro t d hd hw
    obtain ⟨s, hs, ha⟩ := (v.line.waits hd).1 hw
    obtain ⟨r, hr⟩ := v.line.exists_holds ha
    refine ⟨r, ?_, hr⟩
    rcases Nat.lt_or_ge r t with hlt | hle
    · exact hlt
    · exact absurd ha ((v.line.holds_iff.1 hr).2 s (by omega))

def webKey : Key := ⟨"default", "web"⟩

/-- The guard is dropped while a second call waits, and that call is given up when the lock has just
been handed to it. The entry goes, and two more calls find another lock while the first caller still
refers to the old one. -/
def renewal : List Action :=
  [.find webKey, .goOn 0, .goOn 0, .take 0, .find webKey, .goOn 1, .goOn 1, .unlock 0, .abandon 1,
    .goOn 2, .goOn 3, .goOn 3, .goOn 2, .goOn 2, .find webKey, .goOn 4, .goOn 4, .find webKey,
    .goOn 5, .goOn 5]

theorem excludes_renewal :
    ∃ c, ({} : Crowd).run renewal = some c ∧ c.aside.get? 2 = some ⟨webKey, 0, .parting⟩ ∧
      c.line.entries.get? webKey = some 1 ∧
      ∃ c', c.step (.take 2) = some c' ∧ ∀ t, c'.Guards t webKey → t = 2 := by
  have hrun : ∃ c c', ({} : Crowd).run renewal = some c ∧ c.step (.take 2) = some c' ∧
      c.aside.get? 2 = some ⟨webKey, 0, .parting⟩ ∧
      c.line.calls.get? 3 = some ⟨webKey, 1, .waiting⟩ ∧
      c'.line.calls.get? 2 = some ⟨webKey, 1, .held⟩ ∧
      ({} : Crowd).run (renewal ++ [.take 2]) = some c' :=
    ⟨_, _, rfl, rfl, rfl, rfl, rfl, rfl⟩
  obtain ⟨c, c', hc, hstep, haside, hwait, hheld, hc'⟩ := hrun
  have hr : c.Reachable := ⟨_, hc⟩
  have hr' : c'.Reachable := ⟨_, hc'⟩
  obtain ⟨-, hshared, -⟩ := hr.excludes
  obtain ⟨hone, -⟩ := hr'.excludes
  refine ⟨c, hc, haside, hshared webKey 1 (Or.inl ⟨3, _, hwait, rfl, rfl⟩), c', hstep, ?_⟩
  intro t ht
  exact hone t 2 webKey ht ⟨_, hheld, rfl, rfl⟩

end Nodecast.KeyedLock.Crowd
