import Mathlib.Data.List.Dedup
import Nodecast.Proofs.Locks.Operations

/-!
# Keys that are forgotten

The entry of a key goes with the last guard for the key. It stays behind only when the last call for
the key is given up after the lock was handed to it.
-/

namespace Nodecast.KeyedLock

variable {l : KeyedLock} {left : List Key} {key k : Key} {s t n : Nat} {c : Call}

/-! ## Who asks after a call was given up -/

theorem asks_abandon : (l.abandon t).Asks s k ↔ s ≠ t ∧ l.Asks s k := by
  cases hc : l.calls.get? t with
  | none =>
    rw [abandon_of_none hc]
    refine ⟨fun h => ⟨?_, h⟩, And.right⟩
    rintro rfl
    obtain ⟨d, hd, -⟩ := h
    rw [hc] at hd
    contradiction
  | some c =>
    by_cases hs : c.stage = .waiting
    · rw [abandon_of_waiting hc hs, asks_erase]
    · rw [abandon_of_holds hc hs, asks_handOver, asks_erase]

theorem Valid.isLive_of_listed (v : l.Valid) (hn : l.entries.get? key = some n) :
    l.isLive n = true ↔ ∃ s, l.Asks s key := by
  rw [isLive_iff]
  constructor
  · rintro ⟨s, d, hd, rfl⟩
    exact ⟨s, d, hd, v.apart (v.shared hd) hn⟩
  · rintro ⟨s, d, hd, rfl⟩
    refine ⟨s, d, hd, ?_⟩
    rw [v.shared hd] at hn
    exact Option.some.inj hn

theorem Orderly.isLive_abandon (o : l.Orderly) (hc : l.calls.get? t = some c) :
    (l.abandon t).isLive c.lock = true ↔ ∃ s, s ≠ t ∧ l.Asks s c.key := by
  have hn : (l.abandon t).entries.get? c.key = some c.lock := by
    rw [entries_abandon]
    exact o.valid.shared hc
  rw [(o.abandon t).valid.isLive_of_listed hn]
  simp only [asks_abandon]

/-! ## Keys that have an entry -/

theorem mem_keys_lockFor :
    k ∈ (l.lockFor key).2.entries.keys ↔ k = key ∨ k ∈ l.entries.keys := by
  unfold lockFor
  split
  · next n hn =>
    have hkey : key ∈ l.entries.keys :=
      (Table.mem_keys_iff _ _).2 ⟨n, (Option.filter_eq_some_iff.1 hn).1⟩
    refine ⟨.inr, ?_⟩
    rintro (rfl | h)
    · exact hkey
    · exact h
  · simp only [Table.mem_keys_iff, Table.get?_insert]
    split <;> simp [*]

theorem mem_keys_request :
    k ∈ (l.request key).2.entries.keys ↔ k = key ∨ k ∈ l.entries.keys := mem_keys_lockFor

theorem mem_keys_erase {entries : Table Key Nat} :
    k ∈ (entries.erase key).keys ↔ k ≠ key ∧ k ∈ entries.keys := by
  simp only [Table.mem_keys_iff, Table.get?_erase]
  split <;> simp [*]

theorem Orderly.mem_keys_release (o : l.Orderly) (hc : l.calls.get? t = some c)
    (hs : c.stage ≠ .waiting) : k ∈ (l.release t).entries.keys ↔
      k ∈ l.entries.keys ∧ (k = c.key → ∃ s, s ≠ t ∧ l.Asks s c.key) := by
  rw [release_eq hc hs, ← o.isLive_abandon hc]
  split
  · next hlive => simp [entries_abandon, hlive]
  · next hdead =>
    rw [mem_keys_erase]
    simp [hdead, and_comm]

/-! ## Keys that are asked for -/

/-- Keys that somebody waits for or has locked. -/
def asked (l : KeyedLock) : List Key := (l.calls.values.map Call.key).dedup

theorem mem_asked : k ∈ l.asked ↔ ∃ t, l.Asks t k := by
  simp only [asked, List.mem_dedup, List.mem_map, Table.mem_values_iff, Asks]
  constructor
  · rintro ⟨c, ⟨t, hc⟩, hk⟩
    exact ⟨t, c, hc, hk⟩
  · rintro ⟨t, c, hc, hk⟩
    exact ⟨c, ⟨t, hc⟩, hk⟩

theorem Valid.asked_request (v : l.Valid) :
    (∃ t, (l.request key).2.Asks t k) ↔ k = key ∨ ∃ t, l.Asks t k := by
  constructor
  · rintro ⟨t, ha⟩
    rw [asks_request_iff] at ha
    split at ha
    · exact .inl ha.symm
    · exact .inr ⟨t, ha⟩
  · rintro (rfl | ⟨t, ha⟩)
    · exact ⟨_, l.asks_request k⟩
    · exact ⟨t, ((v.keeps_request key t) k).1 ha⟩

theorem asked_by_others (ha : l.Asks t key) :
    (∃ s, s ≠ t ∧ l.Asks s k) ↔
      (∃ s, l.Asks s k) ∧ (k = key → ∃ s, s ≠ t ∧ l.Asks s key) := by
  constructor
  · rintro ⟨s, hne, hs⟩
    refine ⟨⟨s, hs⟩, ?_⟩
    rintro rfl
    exact ⟨s, hne, hs⟩
  · rintro ⟨⟨s, hs⟩, hothers⟩
    by_cases hk : k = key
    · exact hk ▸ hothers hk
    · refine ⟨s, ?_, hs⟩
      rintro rfl
      obtain ⟨c, hc, rfl⟩ := ha
      obtain ⟨d, hd, rfl⟩ := hs
      rw [hc, Option.some.injEq] at hd
      exact hk (congrArg Call.key hd.symm)

/-- A keyed lock in use, with the keys that were left behind. -/
inductive Used : KeyedLock → List Key → Prop where
  | empty : Used {} []
  | request {l : KeyedLock} {left : List Key} (key : Key) : Used l left →
      Used (l.request key).2 (left.filter (· ≠ key))
  | take {l : KeyedLock} {left : List Key} (t : Nat) : Used l left → Used (l.take t) left
  | release {l : KeyedLock} {left : List Key} {t : Nat} : Used l left →
      l.stage? t = some .held → Used (l.release t) left
  /-- A call is given up, and others ask for its key. -/
  | withdraw {l : KeyedLock} {left : List Key} {t s : Nat} {key : Key} : Used l left →
      l.stage? t ≠ some .held → l.Asks t key → s ≠ t → l.Asks s key → Used (l.abandon t) left
  /-- A call is given up that has the lock, and nobody else asks for its key. -/
  | forsake {l : KeyedLock} {left : List Key} {t : Nat} {key : Key} : Used l left →
      l.stage? t = some .granted → l.Asks t key → (∀ s, l.Asks s key → s = t) →
      Used (l.abandon t) (key :: left)

theorem Used.abandon (h : Used l left) (o : l.Orderly) (hs : l.stage? t ≠ some .held) :
    ∃ left', Used (l.abandon t) left' := by
  cases hc : l.calls.get? t with
  | none =>
    rw [abandon_of_none hc]
    exact ⟨left, h⟩
  | some c =>
    have ha : l.Asks t c.key := ⟨c, hc, rfl⟩
    by_cases hothers : ∃ s, s ≠ t ∧ l.Asks s c.key
    · obtain ⟨s, hne, hs'⟩ := hothers
      exact ⟨left, h.withdraw hs ha hne hs'⟩
    · have halone : ∀ s, l.Asks s c.key → s = t :=
        fun s hs => Decidable.by_contra fun hne => hothers ⟨s, hne, hs⟩
      refine ⟨c.key :: left, h.forsake ?_ ha halone⟩
      cases hstage : c.stage with
      | waiting =>
        obtain ⟨s, hlt, hs'⟩ := (o.waits hc).1 hstage
        exact absurd (halone s hs') (Nat.ne_of_lt hlt)
      | granted => rw [stage?, hc, Option.map_some, hstage]
      | held => exact absurd (by rw [stage?, hc, Option.map_some, hstage]) hs

/-- The keys with an entry are those that are asked for and those that were left behind. -/
structure Tracks (l : KeyedLock) (left : List Key) : Prop where
  orderly : l.Orderly
  nodup : left.Nodup
  apart : ∀ {k t}, k ∈ left → ¬l.Asks t k
  entries : ∀ {k}, k ∈ l.entries.keys ↔ (∃ t, l.Asks t k) ∨ k ∈ left

theorem tracks_empty : Tracks {} [] where
  orderly := orderly_empty
  nodup := .nil
  apart := nofun
  entries := ⟨nofun, by rintro (⟨t, c, hc, -⟩ | h) <;> contradiction⟩

namespace Tracks

theorem request (h : l.Tracks left) (key : Key) :
    (l.request key).2.Tracks (left.filter (· ≠ key)) where
  orderly := h.orderly.request key
  nodup := h.nodup.filter _
  apart := by
    intro k t hk ha
    obtain ⟨hk, hne⟩ := List.mem_filter.1 hk
    rw [asks_request_iff] at ha
    split at ha
    · simp [ha] at hne
    · exact h.apart hk ha
  entries := by
    intro k
    rw [mem_keys_request, h.entries, List.mem_filter, h.orderly.valid.asked_request]
    by_cases hk : k = key <;> simp [hk]

theorem take (h : l.Tracks left) (t : Nat) : (l.take t).Tracks left where
  orderly := h.orderly.take t
  nodup := h.nodup
  apart := fun hk ha => h.apart hk (asks_take.1 ha)
  entries := by
    intro k
    simp only [entries_take, asks_take]
    exact h.entries

theorem release (h : l.Tracks left) (hs : l.stage? t = some .held) : (l.release t).Tracks left := by
  obtain ⟨c, hc, hheld⟩ := Option.map_eq_some_iff.1 hs
  have hno : c.stage ≠ .waiting := by simp [hheld]
  refine ⟨h.orderly.release ⟨c, hc, rfl, hno⟩, h.nodup,
    fun hk ha => h.apart hk (asks_release.1 ha).2, fun {k} => ?_⟩
  have hasks : l.Asks t c.key := ⟨c, hc, rfl⟩
  have hleft : k ∈ left → k = c.key → ∃ s, s ≠ t ∧ l.Asks s c.key :=
    fun hk e => absurd hasks (h.apart (e ▸ hk))
  rw [h.orderly.mem_keys_release hc hno, h.entries]
  simp only [asks_release]
  rw [asked_by_others (k := k) hasks, or_and_right]
  exact or_congr_right (and_iff_left_of_imp hleft)

theorem withdraw (h : l.Tracks left) (ha : l.Asks t key) (hne : s ≠ t) (hs : l.Asks s key) :
    (l.abandon t).Tracks left where
  orderly := h.orderly.abandon t
  nodup := h.nodup
  apart := fun hk ha => h.apart hk (asks_abandon.1 ha).2
  entries := by
    intro k
    rw [entries_abandon, h.entries]
    simp only [asks_abandon]
    rw [asked_by_others ha]
    exact or_congr_left (and_iff_left fun _ => ⟨s, hne, hs⟩).symm

theorem forsake (h : l.Tracks left) (ha : l.Asks t key) (halone : ∀ s, l.Asks s key → s = t) :
    (l.abandon t).Tracks (key :: left) where
  orderly := h.orderly.abandon t
  nodup := List.nodup_cons.2 ⟨fun hk => h.apart hk ha, h.nodup⟩
  apart := by
    intro k s hk hs
    obtain ⟨hne, hs⟩ := asks_abandon.1 hs
    rcases List.mem_cons.1 hk with rfl | hk
    · exact hne (halone s hs)
    · exact h.apart hk hs
  entries := by
    intro k
    have hnone : ¬∃ s, s ≠ t ∧ l.Asks s key := fun ⟨s, hne, hs⟩ => hne (halone s hs)
    rw [entries_abandon, h.entries, List.mem_cons]
    simp only [asks_abandon]
    rw [asked_by_others ha]
    by_cases hk : k = key
    · subst hk
      have hasked : ∃ t, l.Asks t k := ⟨t, ha⟩
      simp [hnone, hasked]
    · simp [hk]

end Tracks

theorem Used.tracks (h : Used l left) : l.Tracks left := by
  induction h with
  | empty => exact tracks_empty
  | request key _ ih => exact ih.request key
  | take t _ ih => exact ih.take t
  | release _ hs ih => exact ih.release hs
  | withdraw _ _ ha hne hs ih => exact ih.withdraw ha hne hs
  | forsake _ _ ha halone ih => exact ih.forsake ha halone

theorem Operated.used (h : l.Operated) : ∃ left, Used l left := by
  induction h with
  | empty => exact ⟨[], .empty⟩
  | request key _ ih =>
    obtain ⟨left, ih⟩ := ih
    exact ⟨_, ih.request key⟩
  | take t _ ih =>
    obtain ⟨left, ih⟩ := ih
    exact ⟨left, ih.take t⟩
  | release _ hs ih =>
    obtain ⟨left, ih⟩ := ih
    exact ⟨left, ih.release hs⟩
  | abandon _ hs ih =>
    obtain ⟨left, ih⟩ := ih
    exact ih.abandon ih.tracks.orderly hs

/-- However keyed locks are used, there are as many entries as keys that are asked for, and one more
for each key whose last call was given up with the lock in hand and that nobody has asked for
since. -/
theorem Used.size_eq (h : Used l left) : l.size = l.asked.length + left.length ∧
    (∀ k ∈ left, ∀ t, ¬l.Asks t k) ∧ (l.isEmpty = true ↔ l.asked = [] ∧ left = []) := by
  have T := h.tracks
  have hapart : (l.asked ++ left).Nodup := by
    refine List.nodup_append'.2 ⟨List.nodup_dedup _, T.nodup, ?_⟩
    intro k hk hleft
    obtain ⟨t, ha⟩ := mem_asked.1 hk
    exact T.apart hleft ha
  have hperm : l.entries.keys.Perm (l.asked ++ left) := by
    refine (List.perm_ext_iff_of_nodup l.entries.keys_nodup hapart).2 fun k => ?_
    rw [T.entries, List.mem_append, mem_asked]
  have hsize : l.size = l.asked.length + left.length := by
    have hlength := hperm.length_eq
    rwa [Table.keys, List.length_map, List.length_append] at hlength
  have hempty : l.isEmpty = true ↔ l.size = 0 := List.isEmpty_iff.trans List.length_eq_zero_iff.symm
  refine ⟨hsize, fun k hk t => T.apart hk, ?_⟩
  rw [hempty, hsize, Nat.add_eq_zero_iff, List.length_eq_zero_iff, List.length_eq_zero_iff]

/-- The first guard is dropped, and the call behind it is given up before it goes on. -/
theorem size_eq_forsaken : ∃ l, Used l [Crowd.webKey] ∧ l.asked = [] ∧ l.size = 1 := by
  have hused : Used ((request (take (request {} Crowd.webKey).2 0) Crowd.webKey).2.release 0) [] :=
    .release (.request _ (.take 0 (.request _ .empty))) (by decide)
  refine ⟨_, hused.forsake (t := 1) (by decide) ⟨_, rfl, rfl⟩ fun s ⟨c, hc, _⟩ => ?_, ?_, ?_⟩
  · have hs := (Table.mem_keys_iff _ _).2 ⟨c, hc⟩
    exact List.mem_singleton.1 hs
  · decide
  · decide

end Nodecast.KeyedLock
