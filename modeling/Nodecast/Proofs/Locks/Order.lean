import Nodecast.Proofs.Locks

/-!
# Calls wait in line

The first call for a key has its lock, and all later ones wait. So who has a lock follows from the
order in which the callers came.
-/

namespace Nodecast.KeyedLock

variable {l : KeyedLock} {key k : Key} {s t : Nat} {c d : Call}

structure Orderly (l : KeyedLock) : Prop where
  valid : l.Valid
  sorted : l.calls.keys.Pairwise (· < ·)
  waits : ∀ {t c}, l.calls.get? t = some c → (c.stage = .waiting ↔ ∃ s, s < t ∧ l.Asks s c.key)

theorem orderly_empty : ({} : KeyedLock).Orderly := ⟨valid_empty, .nil, fun h => nomatch h⟩

theorem Valid.lock_eq_iff (v : l.Valid) (hc : l.calls.get? t = some c)
    (hd : l.calls.get? s = some d) : c.lock = d.lock ↔ c.key = d.key := by
  have hc' := v.shared hc
  have hd' := v.shared hd
  constructor
  · intro e
    rw [e] at hc'
    exact v.apart hc' hd'
  · intro e
    rw [e, hd'] at hc'
    exact (Option.some.inj hc').symm

/-! ## Who is first -/

theorem exists_first (h : l.Asks t k) : ∃ s, l.Asks s k ∧ ∀ r, r < s → ¬l.Asks r k := by
  induction t using Nat.strongRecOn with
  | ind t ih =>
    by_cases hearlier : ∃ s, s < t ∧ l.Asks s k
    · obtain ⟨s, hs, ha⟩ := hearlier
      exact ih s hs ha
    · exact ⟨t, h, fun r hr ha => hearlier ⟨r, hr, ha⟩⟩

namespace Orderly

theorem holds_iff (o : l.Orderly) : l.Holds t k ↔ l.Asks t k ∧ ∀ r, r < t → ¬l.Asks r k := by
  constructor
  · rintro ⟨c, hc, rfl, hs⟩
    exact ⟨⟨c, hc, rfl⟩, fun r hr ha => hs ((o.waits hc).2 ⟨r, hr, ha⟩)⟩
  · rintro ⟨⟨c, hc, rfl⟩, hfirst⟩
    refine ⟨c, hc, rfl, fun hs => ?_⟩
    obtain ⟨r, hr, ha⟩ := (o.waits hc).1 hs
    exact hfirst r hr ha

theorem exists_holds (o : l.Orderly) (h : l.Asks t k) : ∃ s, l.Holds s k := by
  obtain ⟨s, hs, hfirst⟩ := exists_first h
  exact ⟨s, o.holds_iff.2 ⟨hs, hfirst⟩⟩

end Orderly

/-! ## A new call -/

theorem asks_congr {l l' : KeyedLock} (h : l'.calls = l.calls) : l'.Asks t k ↔ l.Asks t k := by
  unfold Asks
  rw [h]

theorem asks_lockFor : (l.lockFor key).2.Asks t k ↔ l.Asks t k :=
  asks_congr (l.lockFor_calls key).1

theorem Orderly.of_calls {l' : KeyedLock} (o : l.Orderly) (v : l'.Valid)
    (h : l'.calls = l.calls) : l'.Orderly where
  valid := v
  sorted := h ▸ o.sorted
  waits := by
    intro t c hc
    rw [h] at hc
    simp only [asks_congr h]
    exact o.waits hc

theorem isTaken_of_listed (o : l.Orderly) {n : Nat} (hn : l.entries.get? key = some n) :
    l.isTaken n = true ↔ ∃ s, l.Asks s key := by
  constructor
  · intro h
    obtain ⟨s, c, hc, hl, -⟩ := isTaken_iff.1 h
    have hs := o.valid.shared hc
    rw [hl] at hs
    exact ⟨s, c, hc, o.valid.apart hs hn⟩
  · rintro ⟨s, ha⟩
    obtain ⟨r, c, hc, rfl, hstage⟩ := o.exists_holds ha
    rw [o.valid.shared hc] at hn
    exact isTaken_iff.2 ⟨r, c, hc, Option.some.inj hn, hstage⟩

theorem asks_enter {n : Nat} :
    (l.enter key n).2.Asks t k ↔ if t = l.nextTicket then key = k else l.Asks t k := by
  unfold Asks
  rw [get?_enter]
  split <;> simp

theorem asks_request_iff :
    (l.request key).2.Asks t k ↔ if t = l.nextTicket then key = k else l.Asks t k := by
  rw [request_eq, asks_enter, (l.lockFor_calls key).2, asks_lockFor]

theorem keys_enter (v : l.Valid) (key : Key) (n : Nat) :
    (l.enter key n).2.calls.keys = l.calls.keys ++ [l.nextTicket] := by
  have hnew : l.nextTicket ∉ l.calls.keys := by
    rw [Table.mem_keys_iff]
    rintro ⟨c, hc⟩
    exact Nat.lt_irrefl _ (v.called hc)
  show (l.calls.insert l.nextTicket _).keys = _
  rw [Table.keys_insert, if_neg hnew]

theorem Orderly.enter (o : l.Orderly) {n : Nat} (hn : l.entries.get? key = some n) :
    (l.enter key n).2.Orderly where
  valid := o.valid.enter hn
  sorted := by
    rw [keys_enter o.valid]
    refine List.pairwise_append.2 ⟨o.sorted, List.pairwise_singleton _ _, ?_⟩
    intro a ha b hb
    obtain ⟨c, hc⟩ := (Table.mem_keys_iff _ _).1 ha
    rw [List.mem_singleton] at hb
    rw [hb]
    exact o.valid.called hc
  waits := by
    intro t c h
    have hbefore : ∀ {s}, s < t → t ≤ l.nextTicket →
        ((l.enter key n).2.Asks s c.key ↔ l.Asks s c.key) := by
      intro s hs ht
      rw [asks_enter, if_neg (Nat.ne_of_lt (Nat.lt_of_lt_of_le hs ht))]
    rw [get?_enter] at h
    split at h
    · next ht =>
      -- The new call waits exactly if the lock is handed out, so if somebody came before.
      subst ht
      cases h
      have htaken := isTaken_of_listed o hn
      cases hi : l.isTaken n with
      | true =>
        obtain ⟨s, ha⟩ := htaken.1 hi
        have hs := ha.lt o.valid
        exact ⟨fun _ => ⟨s, hs, (hbefore hs (Nat.le_refl _)).2 ha⟩, fun _ => rfl⟩
      | false =>
        refine ⟨fun h => by simp at h, ?_⟩
        rintro ⟨s, hs, ha⟩
        rw [htaken.2 ⟨s, (hbefore hs (Nat.le_refl _)).1 ha⟩] at hi
        contradiction
    · rw [o.waits h]
      have hlt := Nat.le_of_lt (o.valid.called h)
      exact exists_congr fun s => and_congr_right fun hs => (hbefore hs hlt).symm

theorem Orderly.request (o : l.Orderly) (key : Key) : (l.request key).2.Orderly :=
  (o.of_calls (o.valid.lockFor key) (l.lockFor_calls key).1).enter (l.lockFor_listed key)

/-! ## Going on with the lock -/

theorem asks_restage {stage : Stage} (hc : l.calls.get? t = some c) :
    Asks { l with calls := l.calls.insert t { c with stage } } s k ↔ l.Asks s k := by
  unfold Asks
  rw [Table.get?_insert]
  split
  · next h =>
    rw [h, hc]
    simp
  · rfl

theorem Orderly.take (o : l.Orderly) (t : Nat) : (l.take t).Orderly := by
  have v := o.valid.take t
  obtain he | ⟨c, hc, hs, he⟩ := l.take_cases t
  · rwa [he]
  · rw [he] at v ⊢
    refine ⟨v, ?_, ?_⟩
    · rw [Table.keys_insert, if_pos ((Table.mem_keys_iff _ _).2 ⟨c, hc⟩)]
      exact o.sorted
    · intro s d hd
      simp only [asks_restage hc]
      obtain ⟨d0, hd0, hk, -, hstage⟩ := get?_restage hc hd
      rw [hk, ← o.waits hd0]
      rcases hstage with hstage | ⟨rfl, hstage⟩
      · rw [hstage]
      · rw [hc, Option.some.injEq] at hd0
        rw [hstage, ← hd0, hs]
        decide

/-! ## Giving the lock back -/

theorem handOver_first (h : l.calls.keys.Pairwise (· < ·)) (n : Nat) :
    (l.handOver n = l ∧ ∀ s d, l.calls.get? s = some d → d.lock = n → d.stage ≠ .waiting) ∨
    ∃ t c, l.calls.get? t = some c ∧ c.lock = n ∧
      (∀ s d, s < t → l.calls.get? s = some d → d.lock = n → d.stage ≠ .waiting) ∧
      l.handOver n = { l with calls := l.calls.insert t { c with stage := .granted } } := by
  unfold handOver
  split
  · next t c hf =>
    right
    obtain ⟨hp, before, after, he, hbefore⟩ := List.find?_eq_some_iff_append.1 hf
    simp only [Bool.and_eq_true, decide_eq_true_eq] at hp
    refine ⟨t, c, Table.mem_entries_iff.1 (List.mem_of_find?_eq_some hf), hp.1, ?_, rfl⟩
    intro s d hs hd hl hw
    rw [Table.keys, he, List.map_append, List.map_cons, List.pairwise_append,
      List.pairwise_cons] at h
    have hmem := Table.mem_entries_iff.2 hd
    rw [he, List.mem_append, List.mem_cons] at hmem
    rcases hmem with hmem | hmem | hmem
    · simpa [hl, hw] using hbefore _ hmem
    · cases hmem
      exact Nat.lt_irrefl _ hs
    · have hlater := h.2.1.1 s (List.mem_map.2 ⟨_, hmem, rfl⟩)
      omega
  · next hf =>
    refine Or.inl ⟨rfl, fun s d hd hl hw => ?_⟩
    simpa [hl, hw] using List.find?_eq_none.1 hf _ (Table.mem_entries_iff.2 hd)

theorem asks_erase :
    Asks { l with calls := l.calls.erase t } s k ↔ s ≠ t ∧ l.Asks s k := by
  unfold Asks
  rw [Table.get?_erase]
  split <;> simp [*]

theorem sorted_erase (h : l.calls.keys.Pairwise (· < ·)) :
    (l.calls.erase t).keys.Pairwise (· < ·) :=
  h.sublist (List.filter_sublist.map _)

theorem release_calls (hc : l.calls.get? t = some c) :
    (l.release t).calls = (handOver { l with calls := l.calls.erase t } c.lock).calls := by
  simp only [KeyedLock.release, hc]
  split <;> rfl

theorem asks_handOver {n : Nat} : (l.handOver n).Asks s k ↔ l.Asks s k := by
  obtain he | ⟨t, c, hc, -, -, he⟩ := l.handOver_cases n
  · rw [he]
  · rw [he, asks_restage hc]

theorem asks_release : (l.release t).Asks s k ↔ s ≠ t ∧ l.Asks s k := by
  cases hc : l.calls.get? t with
  | none =>
    have he : l.release t = l := by simp only [KeyedLock.release, hc]
    rw [he]
    refine ⟨fun h => ⟨?_, h⟩, And.right⟩
    rintro rfl
    obtain ⟨c, hc', -⟩ := h
    rw [hc] at hc'
    contradiction
  | some c => rw [asks_congr (release_calls hc), asks_handOver, asks_erase]

theorem sorted_handOver (h : l.calls.keys.Pairwise (· < ·)) (n : Nat) :
    (l.handOver n).calls.keys.Pairwise (· < ·) := by
  obtain he | ⟨t, c, hc, -, -, he⟩ := l.handOver_cases n
  · rwa [he]
  · rw [he, Table.keys_insert, if_pos ((Table.mem_keys_iff _ _).2 ⟨c, hc⟩)]
    exact h

namespace Orderly

theorem others_wait (o : l.Orderly) (h : l.Holds t k) (hne : s ≠ t)
    (hd : l.calls.get? s = some d) (hk : d.key = k) : d.stage = .waiting := by
  by_cases hs : d.stage = .waiting
  · exact hs
  · exact absurd (o.valid.holds_unique ⟨d, hd, hk, hs⟩ h) hne

theorem get?_release (o : l.Orderly) (h : l.Holds t k)
    (hd : (l.release t).calls.get? s = some d) : ∃ d0, l.calls.get? s = some d0 ∧
      d.key = d0.key ∧ (d.stage = .waiting ↔
        d0.stage = .waiting ∧ ¬(d0.key = k ∧ ∀ r, r < s → r ≠ t → ¬l.Asks r k)) := by
  have hwait : ∀ {r e}, r ≠ t → l.calls.get? r = some e → e.key = k → e.stage = .waiting :=
    fun hr he => o.others_wait h hr he
  obtain ⟨c, hc, rfl, -⟩ := h
  rw [release_calls hc] at hd
  have hold : ∀ {r e}, (l.calls.erase t).get? r = some e → r ≠ t ∧ l.calls.get? r = some e := by
    intro r e he
    rw [Table.get?_erase] at he
    split at he
    · contradiction
    · next hne => exact ⟨hne, he⟩
  have hlock : ∀ {r e}, l.calls.get? r = some e → (e.lock = c.lock ↔ e.key = c.key) :=
    fun he => o.valid.lock_eq_iff he hc
  rcases handOver_first (l := { l with calls := l.calls.erase t }) (sorted_erase o.sorted) c.lock
    with ⟨he, hnone⟩ | ⟨u, cu, hu, hul, hfirst, he⟩
  · rw [he] at hd
    obtain ⟨hne, hd'⟩ := hold hd
    refine ⟨d, hd', rfl, (and_iff_left ?_).symm⟩
    rintro ⟨hk, -⟩
    exact hnone s d hd ((hlock hd').2 hk) (hwait hne hd' hk)
  · rw [he] at hd
    obtain ⟨hut, hu'⟩ := hold hu
    obtain ⟨d0, hd0, hk, -, hstage⟩ := get?_restage hu hd
    obtain ⟨hne, hd0'⟩ := hold hd0
    refine ⟨d0, hd0', hk, ?_⟩
    by_cases hsu : s = u
    · subst hsu
      rw [Table.get?_insert_self] at hd
      cases hd
      rw [hu', Option.some.injEq] at hd0'
      subst hd0'
      refine iff_of_false (by simp) fun hw => hw.2 ⟨(hlock hu').1 hul, ?_⟩
      rintro r hr hrt ⟨e, he, hek⟩
      exact hfirst r e hr (by rw [Table.get?_erase_of_ne _ hrt, he]) ((hlock he).2 hek)
        (hwait hrt he hek)
    · rw [hstage.resolve_right fun h => hsu h.1]
      refine (and_iff_left ?_).symm
      rintro ⟨hk, hno⟩
      rcases Nat.lt_or_gt_of_ne hsu with hlt | hlt
      · exact hfirst s d0 hlt hd0 ((hlock hd0').2 hk) (hwait hne hd0' hk)
      · exact hno u hlt hut ⟨cu, hu', (hlock hu').1 hul⟩

theorem release (o : l.Orderly) (h : l.Holds t k) : (l.release t).Orderly := by
  have v := o.valid.release h
  have hkeys : (l.release t).calls.keys.Pairwise (· < ·) := by
    obtain ⟨c, hc, -⟩ := h
    rw [release_calls hc]
    exact sorted_handOver (l := { l with calls := _ }) (sorted_erase o.sorted) c.lock
  refine ⟨v, hkeys, ?_⟩
  intro s d hd
  obtain ⟨d0, hd0, hk, hstage⟩ := o.get?_release h hd
  rw [hstage, hk, o.waits hd0]
  simp only [asks_release]
  constructor
  · rintro ⟨⟨r, hr, ha⟩, hno⟩
    by_cases hkey : d0.key = k
    · rw [hkey]
      have hex : ∃ q, q < s ∧ q ≠ t ∧ l.Asks q k := by
        refine Classical.byContradiction fun hnone => hno ⟨hkey, ?_⟩
        exact fun q hq hqt haq => hnone ⟨q, hq, hqt, haq⟩
      exact hex
    · refine ⟨r, hr, ?_, ha⟩
      rintro rfl
      obtain ⟨e, he, hek⟩ := ha
      obtain ⟨e', he', hek', -⟩ := h
      rw [he, Option.some.injEq] at he'
      exact hkey (by rw [← hek, he', hek'])
  · rintro ⟨r, hr, hrt, ha⟩
    refine ⟨⟨r, hr, ha⟩, ?_⟩
    rintro ⟨hkey, hno⟩
    exact hno r hr hrt (hkey ▸ ha)

end Orderly

/-! ## Leaving the line -/

theorem abandon_of_waiting (hc : l.calls.get? t = some c) (hs : c.stage = .waiting) :
    l.abandon t = { l with calls := l.calls.erase t } := by
  simp only [abandon, hc, hs, if_true]

theorem abandon_of_holds (hc : l.calls.get? t = some c) (hs : c.stage ≠ .waiting) :
    l.abandon t = handOver { l with calls := l.calls.erase t } c.lock := by
  simp only [abandon, hc, hs, if_false]

theorem abandon_of_none (hc : l.calls.get? t = none) : l.abandon t = l := by
  simp only [abandon, hc]

theorem entries_abandon (l : KeyedLock) (t : Nat) : (l.abandon t).entries = l.entries := by
  unfold abandon
  split
  · rfl
  · dsimp only
    split
    · rfl
    · exact entries_handOver _ _

theorem nextLock_abandon (l : KeyedLock) (t : Nat) : (l.abandon t).nextLock = l.nextLock := by
  unfold abandon
  split
  · rfl
  · dsimp only
    split
    · rfl
    · exact nextLock_handOver _ _

theorem Orderly.abandon (o : l.Orderly) (t : Nat) : (l.abandon t).Orderly := by
  cases hc : l.calls.get? t with
  | none => rwa [abandon_of_none hc]
  | some c =>
    by_cases hs : c.stage = .waiting
    · rw [abandon_of_waiting hc hs]
      refine ⟨o.valid.erase t, sorted_erase o.sorted, fun {s d} hd => ?_⟩
      rw [Table.get?_erase] at hd
      split at hd
      · contradiction
      · simp only [asks_erase, o.waits hd]
        constructor
        · rintro ⟨r, hr, ha⟩
          by_cases hrt : r = t
          · -- Who left was waiting for somebody who came still earlier.
            obtain ⟨e, he, hk⟩ := ha
            rw [hrt, hc, Option.some.injEq] at he
            obtain ⟨q, hq, haq⟩ := (o.waits hc).1 hs
            rw [he, hk] at haq
            exact ⟨q, by omega, by omega, haq⟩
          · exact ⟨r, hr, hrt, ha⟩
        · rintro ⟨r, hr, -, ha⟩
          exact ⟨r, hr, ha⟩
    · have v := (o.valid.erase t).handOver (o.valid.not_taken_erase hc hs)
      rw [abandon_of_holds hc hs]
      exact (o.release ⟨c, hc, rfl, hs⟩).of_calls v (release_calls hc).symm

theorem Valid.get?_abandon (v : l.Valid) (hc : l.calls.get? t = some c)
    (hd : l.calls.get? s = some d) (hne : d.key ≠ c.key) :
    (l.abandon t).calls.get? s = some d := by
  have hst : s ≠ t := by
    rintro rfl
    rw [hc, Option.some.injEq] at hd
    exact hne (by rw [hd])
  have hleft : (l.calls.erase t).get? s = some d := by rw [Table.get?_erase_of_ne _ hst, hd]
  by_cases hs : c.stage = .waiting
  · rw [abandon_of_waiting hc hs]
    exact hleft
  · rw [abandon_of_holds hc hs]
    obtain he | ⟨u, e, hu, hlock, -, he⟩ :=
      handOver_cases { l with calls := l.calls.erase t } c.lock
    · rw [he]
      exact hleft
    · have hsu : s ≠ u := by
        rintro rfl
        rw [show (l.calls.erase t).get? s = some e from hu, Option.some.injEq] at hleft
        exact hne ((v.lock_eq_iff hd hc).1 (by rw [← hleft, hlock]))
      rw [he]
      exact (Table.get?_insert_of_ne _ _ hsu).trans hleft

/-! ## What callers do -/

inductive Evolves (l : KeyedLock) : KeyedLock → Prop where
  | refl : Evolves l l
  | request {l' : KeyedLock} (key : Key) : Evolves l l' → Evolves l (l'.request key).2
  | take {l' : KeyedLock} (t : Nat) : Evolves l l' → Evolves l (l'.take t)
  | release {l' : KeyedLock} {t : Nat} {k : Key} : Evolves l l' → l'.Holds t k →
      Evolves l (l'.release t)

theorem Evolves.orderly {l' : KeyedLock} (h : l.Evolves l') (o : l.Orderly) : l'.Orderly := by
  induction h with
  | refl => exact o
  | request key _ ih => exact ih.request key
  | take t _ ih => exact ih.take t
  | release _ hh ih => exact ih.release hh

/-- The call was made and is over. -/
def Gone (l : KeyedLock) (t : Nat) : Prop := t < l.nextTicket ∧ ∀ k, ¬l.Asks t k

theorem nextTicket_request : (l.request key).2.nextTicket = l.nextTicket + 1 :=
  congrArg (· + 1) (l.lockFor_calls key).2

theorem nextTicket_take : (l.take t).nextTicket = l.nextTicket := by
  obtain he | ⟨c, -, -, he⟩ := l.take_cases t <;> rw [he]

theorem nextTicket_handOver {n : Nat} : (l.handOver n).nextTicket = l.nextTicket := by
  obtain he | ⟨t, c, -, -, -, he⟩ := l.handOver_cases n <;> rw [he]

theorem nextTicket_release : (l.release t).nextTicket = l.nextTicket := by
  unfold KeyedLock.release
  split
  · rfl
  · dsimp only
    split <;> exact nextTicket_handOver

theorem asks_take : (l.take t).Asks s k ↔ l.Asks s k := by
  obtain he | ⟨c, hc, -, he⟩ := l.take_cases t
  · rw [he]
  · rw [he, asks_restage hc]

theorem Evolves.gone {l' : KeyedLock} (h : l.Evolves l') (hg : l.Gone t) : l'.Gone t := by
  induction h with
  | refl => exact hg
  | @request l' key _ ih =>
    refine ⟨by rw [nextTicket_request]; exact Nat.lt_succ_of_lt ih.1, fun k => ?_⟩
    rw [asks_request_iff, if_neg (Nat.ne_of_lt ih.1)]
    exact ih.2 k
  | take s _ ih =>
    refine ⟨by rw [nextTicket_take]; exact ih.1, fun k => ?_⟩
    rw [asks_take]
    exact ih.2 k
  | release _ _ ih =>
    refine ⟨by rw [nextTicket_release]; exact ih.1, fun k ha => ?_⟩
    exact ih.2 k (asks_release.1 ha).2

theorem gone_release (h : l.Asks t k) (v : l.Valid) : (l.release t).Gone t := by
  refine ⟨by rw [nextTicket_release]; exact h.lt v, fun k' ha => ?_⟩
  exact (asks_release.1 ha).1 rfl

/-! ## What a call looks like -/

/-- The key of a call, and whether its caller has gone on with the guard. -/
def spot? (l : KeyedLock) (t : Nat) : Option (Key × Bool) :=
  (l.calls.get? t).map fun c => (c.key, decide (c.stage = .held))

theorem asks_iff_spot : l.Asks t k ↔ ∃ held, l.spot? t = some (k, held) := by
  unfold Asks spot?
  simp only [Option.map_eq_some_iff, Prod.mk.injEq]
  constructor
  · rintro ⟨c, hc, hk⟩
    exact ⟨_, c, hc, hk, rfl⟩
  · rintro ⟨held, c, hc, hk, -⟩
    exact ⟨c, hc, hk⟩

theorem Orderly.granted_iff (o : l.Orderly) : l.stage? t = some .granted ↔
    ∃ k, l.spot? t = some (k, false) ∧ ∀ s, s < t → ¬l.Asks s k := by
  unfold stage? spot?
  simp only [Option.map_eq_some_iff, Prod.mk.injEq, decide_eq_false_iff_not]
  constructor
  · rintro ⟨c, hc, hs⟩
    refine ⟨c.key, ⟨c, hc, rfl, by simp [hs]⟩, fun r hr ha => ?_⟩
    have hw := (o.waits hc).2 ⟨r, hr, ha⟩
    rw [hs] at hw
    contradiction
  · rintro ⟨k, ⟨c, hc, rfl, hheld⟩, hfirst⟩
    have hw : c.stage ≠ .waiting := fun hw => by
      obtain ⟨r, hr, ha⟩ := (o.waits hc).1 hw
      exact hfirst r hr ha
    refine ⟨c, hc, ?_⟩
    cases hs : c.stage with
    | waiting => exact absurd hs hw
    | granted => rfl
    | held => exact absurd hs hheld

theorem spot?_request : (l.request key).2.spot? t =
    if t = l.nextTicket then some (key, false) else l.spot? t := by
  unfold spot?
  rw [get?_request]
  split
  · cases (l.lockFor key).2.isTaken (l.lockFor key).1 <;> rfl
  · rfl

theorem spot?_take (h : l.stage? t = some .granted) : (l.take t).spot? s =
    if s = t then (l.spot? t).map fun p => (p.1, true) else l.spot? s := by
  obtain ⟨c, hc, hs⟩ := Option.map_eq_some_iff.1 h
  have he : l.take t = { l with calls := l.calls.insert t { c with stage := .held } } := by
    simp only [KeyedLock.take, hc, hs, if_true]
  unfold spot?
  rw [he, Table.get?_insert]
  split
  · rw [hc]
    rfl
  · rfl

theorem spot?_take_of_ne (h : s ≠ t) : (l.take t).spot? s = l.spot? s := by
  unfold spot?
  obtain he | ⟨c, hc, -, he⟩ := l.take_cases t
  · rw [he]
  · rw [he, Table.get?_insert, if_neg h]

theorem spot?_handOver {n : Nat} : (l.handOver n).spot? s = l.spot? s := by
  unfold spot?
  obtain he | ⟨t, c, hc, -, hw, he⟩ := l.handOver_cases n
  · rw [he]
  · rw [he, Table.get?_insert]
    split
    · next hs =>
      rw [hs, hc, Option.map_some, Option.map_some, hw]
      rfl
    · rfl

theorem spot?_release : (l.release t).spot? s = if s = t then none else l.spot? s := by
  cases hc : l.calls.get? t with
  | none =>
    have he : l.release t = l := by simp only [KeyedLock.release, hc]
    rw [he]
    split
    · next hs => rw [spot?, hs, hc, Option.map_none]
    · rfl
  | some c =>
    have he : (l.release t).spot? s =
        (handOver { l with calls := l.calls.erase t } c.lock).spot? s := by
      rw [spot?, release_calls hc, spot?]
    rw [he, spot?_handOver, spot?, Table.get?_erase]
    split <;> rfl

end Nodecast.KeyedLock
