import Nodecast.Proofs.Locks.Exclusion

/-!
# Operations as runs of steps

Requesting a lock, giving it back and giving up are the steps of one caller with nobody between
them. So whatever holds of every crowd holds of every keyed lock that is used through them.
-/

namespace Nodecast.KeyedLock

variable {l l' : KeyedLock} {c c' : Crowd} {d : Call} {key : Key} {i n t : Nat}

/-- A keyed lock that is used through its operations. -/
inductive Operated : KeyedLock → Prop where
  | empty : Operated {}
  | request {l : KeyedLock} (key : Key) : Operated l → Operated (l.request key).2
  | take {l : KeyedLock} (t : Nat) : Operated l → Operated (l.take t)
  | release {l : KeyedLock} {t : Nat} : Operated l → l.stage? t = some .held →
      Operated (l.release t)
  | abandon {l : KeyedLock} {t : Nat} : Operated l → l.stage? t ≠ some .held →
      Operated (l.abandon t)

/-! ## The order of the entries -/

/-- Both have the same locks for all keys, whatever the order in which they came. -/
def Agrees (l l' : KeyedLock) : Prop :=
  ∃ entries, l' = { l with entries } ∧ ∀ k, entries.get? k = l.entries.get? k

variable {l'' : KeyedLock}

theorem agrees_refl (l : KeyedLock) : l.Agrees l := ⟨l.entries, rfl, fun _ => rfl⟩

theorem Agrees.trans (h : l.Agrees l') (h' : l'.Agrees l'') : l.Agrees l'' := by
  obtain ⟨e, rfl, he⟩ := h
  obtain ⟨e', rfl, he'⟩ := h'
  exact ⟨e', rfl, fun k => (he' k).trans (he k)⟩

theorem handOver_with (l : KeyedLock) (entries : Table Key Nat) (n : Nat) :
    handOver { l with entries } n = { l.handOver n with entries } := by
  cases hf : l.calls.entries.find? fun p => p.2.lock = n && p.2.stage = .waiting with
  | none => simp only [handOver, hf]
  | some p => simp only [handOver, hf]

theorem abandon_with (l : KeyedLock) (entries : Table Key Nat) (t : Nat) :
    abandon { l with entries } t = { l.abandon t with entries } := by
  cases hc : l.calls.get? t with
  | none => simp only [abandon, hc]
  | some d =>
    by_cases hs : d.stage = .waiting
    · simp only [abandon, hc, hs, if_true]
    · simp only [abandon, hc, hs, if_false]
      exact handOver_with { l with calls := l.calls.erase t } entries d.lock

theorem take_with (l : KeyedLock) (entries : Table Key Nat) (t : Nat) :
    take { l with entries } t = { l.take t with entries } := by
  cases hc : l.calls.get? t with
  | none => simp only [take, hc]
  | some d =>
    by_cases hs : d.stage = .granted
    · simp only [take, hc, hs, if_true]
    · simp only [take, hc, hs, if_false]

theorem entries_take (l : KeyedLock) (t : Nat) : (l.take t).entries = l.entries := by
  obtain he | ⟨_, _, _, he⟩ := l.take_cases t <;> rw [he]

theorem Agrees.abandon (h : l.Agrees l') (t : Nat) : (l.abandon t).Agrees (l'.abandon t) := by
  obtain ⟨e, rfl, he⟩ := h
  exact ⟨e, abandon_with l e t, fun k => by rw [he, entries_abandon]⟩

theorem Agrees.take (h : l.Agrees l') (t : Nat) : (l.take t).Agrees (l'.take t) := by
  obtain ⟨e, rfl, he⟩ := h
  exact ⟨e, take_with l e t, fun k => by rw [he, entries_take]⟩

theorem release_eq (hd : l.calls.get? t = some d) (hs : d.stage ≠ .waiting) :
    l.release t = if (l.abandon t).isLive d.lock then l.abandon t
      else { l.abandon t with entries := l.entries.erase d.key } := by
  have he := entries_abandon l t
  rw [abandon_of_holds hd hs] at he ⊢
  simp only [release, hd, he]

theorem Agrees.release (h : l.Agrees l') (hd : l.calls.get? t = some d)
    (hs : d.stage ≠ .waiting) : (l.release t).Agrees (l'.release t) := by
  obtain ⟨e, rfl, he⟩ := h
  have hwith := abandon_with l e t
  have hlive : (KeyedLock.abandon { l with entries := e } t).isLive d.lock =
      (l.abandon t).isLive d.lock := by
    rw [hwith]
    rfl
  rw [release_eq hd hs, release_eq (l := { l with entries := e }) hd hs, hlive]
  split
  · exact ⟨e, hwith, fun k => by rw [he, entries_abandon]⟩
  · refine ⟨e.erase d.key, by rw [hwith], fun k => ?_⟩
    show _ = (l.entries.erase d.key).get? k
    rw [Table.get?_erase, Table.get?_erase, he]

theorem lockFor_of_live (hn : l.entries.get? key = some n) (hl : l.isLive n = true) :
    l.lockFor key = (n, l) := by
  simp only [lockFor, hn, Option.filter_some, hl, if_true]

theorem lockFor_of_dead (h : ∀ n, l.entries.get? key = some n → l.isLive n = false) :
    l.lockFor key = (l.nextLock,
      { l with entries := l.entries.insert key l.nextLock, nextLock := l.nextLock + 1 }) := by
  have hnone : (l.entries.get? key).filter l.isLive = none := by
    rw [Option.filter_eq_none_iff]
    intro n hn
    rw [h n hn]
    decide
  simp only [lockFor, hnone]

theorem agrees_request (l : KeyedLock) {entries : Table Key Nat}
    (hother : ∀ k, k ≠ key → entries.get? k = l.entries.get? k)
    (hsame : entries.get? key = l.entries.get? key ∨
      entries.get? key = none ∧ ∀ n, l.entries.get? key = some n → l.isLive n = false) :
    (l.request key).2.Agrees (request { l with entries } key).2 := by
  rw [request_eq, request_eq]
  by_cases hlive : ∃ n, l.entries.get? key = some n ∧ l.isLive n = true
  · obtain ⟨n, hn, hl⟩ := hlive
    have hn' : entries.get? key = some n := by
      rcases hsame with h | ⟨-, h⟩
      · rw [h, hn]
      · rw [h n hn] at hl
        contradiction
    rw [lockFor_of_live hn hl, lockFor_of_live (l := { l with entries }) hn' hl]
    refine ⟨entries, rfl, fun k => ?_⟩
    by_cases hk : k = key
    · rw [hk, hn', ← hn]
      rfl
    · exact hother k hk
  · have hdead : ∀ n, l.entries.get? key = some n → l.isLive n = false := by
      intro n hn
      rw [← Bool.not_eq_true]
      exact fun hl => hlive ⟨n, hn, hl⟩
    have hdead' : ∀ n, entries.get? key = some n → l.isLive n = false := by
      intro n hn
      rcases hsame with h | ⟨h, -⟩
      · exact hdead n (h ▸ hn)
      · rw [h] at hn
        contradiction
    rw [lockFor_of_dead hdead, lockFor_of_dead (l := { l with entries }) hdead']
    refine ⟨entries.insert key l.nextLock, rfl, fun k => ?_⟩
    show _ = (l.entries.insert key l.nextLock).get? k
    rw [Table.get?_insert, Table.get?_insert]
    split
    · rfl
    · next hk => exact hother k hk

/-! ## One caller aside -/

namespace Crowd

variable {line : KeyedLock} {b : Aside} {m : Nat}

def alone (line : KeyedLock) (m : Nat) (b : Aside) : Crowd :=
  { line, aside := (∅ : Table Nat Aside).insert m b, nextAside := m + 1 }

def settled (line : KeyedLock) (m : Nat) : Crowd := { line, nextAside := m }

theorem move_alone (phase : Phase) :
    (alone line m b).move m b phase = alone line m { b with phase } := by
  have haside : ((∅ : Table Nat Aside).insert m b).insert m { b with phase } =
      (∅ : Table Nat Aside).insert m { b with phase } := by
    simp [Table.insert, EmptyCollection.emptyCollection, Table.empty, Table.put]
  unfold move alone
  rw [haside]

theorem gone_alone : (alone line m b).gone m = settled line (m + 1) := by
  have haside : ((∅ : Table Nat Aside).insert m b).erase m = ∅ := by
    simp [Table.insert, Table.erase, EmptyCollection.emptyCollection, Table.empty, Table.put]
  unfold gone alone settled
  rw [haside]

theorem step_alone : (alone line m b).step (.goOn m) = some ((alone line m b).goOn m b) := by
  simp [step, alone]

theorem strong_settled : (settled line m).strong n = 0 ↔ line.isLive n = false := by
  have hnone : ∀ f : Aside → Nat, (∅ : Table Nat Aside).weigh f = 0 := fun _ => rfl
  unfold strong isLive settled
  rw [hnone, Nat.add_zero, Table.weigh_eq_zero]
  simp only [List.any_eq_false, decide_eq_true_eq]
  refine forall₂_congr fun d _ => ?_
  split <;> simp [*]

theorem strong_alone : (alone line m b).strong b.lock =
    (settled line m).strong b.lock + b.phase.refs := by
  have hone : ∀ f : Aside → Nat, ((∅ : Table Nat Aside).insert m b).weigh f = f b := by
    intro f
    simp [Table.weigh, Table.total, Table.values, Table.insert, EmptyCollection.emptyCollection,
      Table.empty, Table.put]
  have hnone : ∀ f : Aside → Nat, (∅ : Table Nat Aside).weigh f = 0 := fun _ => rfl
  unfold strong alone settled
  rw [hone, hnone, if_pos rfl]
  rfl

/-! ## The steps of one operation -/

theorem Reachable.run {as : List Action} (hr : c.Reachable) (h : c.run as = some c') :
    c'.Reachable := by
  obtain ⟨before, hbefore⟩ := hr
  have happend : ∀ {c0 : Crowd} (as' : List Action), c0.run as' = some c →
      c0.run (as' ++ as) = some c' := by
    intro c0 as' h0
    induction as' generalizing c0 with
    | nil =>
      cases h0
      exact h
    | cons a rest ih =>
      obtain ⟨c1, h1, hrest⟩ := Option.bind_eq_some_iff.1 h0
      rw [List.cons_append, Crowd.run, h1]
      exact ih hrest
  exact ⟨before ++ as, happend before hbefore⟩

theorem Reachable.step (hr : c.Reachable) {a : Action} (h : c.step a = some c') :
    c'.Reachable := by
  have hrun : c.run [a] = some c' := by
    rw [Crowd.run, h]
    rfl
  exact hr.run hrun

theorem Reachable.goOn (hr : (alone line m b).Reachable) :
    ((alone line m b).goOn m b).Reachable := hr.step step_alone

theorem Reachable.joined (hr : (alone line m ⟨key, n, .found⟩).Reachable) :
    (settled (line.enter key n).2 (m + 1)).Reachable := by
  have hready : ((alone line m ⟨key, n, .found⟩).move m ⟨key, n, .found⟩ .ready).Reachable :=
    hr.goOn
  rw [move_alone] at hready
  have hjoined : (alone line m ⟨key, n, .ready⟩).join m ⟨key, n, .ready⟩ =
      settled (line.enter key n).2 (m + 1) := by
    unfold join
    rw [gone_alone]
    rfl
  exact hjoined ▸ hready.goOn

theorem Reachable.parted (hr : (alone line m ⟨key, n, .parting⟩).Reachable) :
    (settled line (m + 1)).Reachable := by
  have h : ((alone line m ⟨key, n, .parting⟩).gone m).Reachable := hr.goOn
  rwa [gone_alone] at h

theorem Reachable.retired (hr : (alone line m ⟨key, n, .retired⟩).Reachable) :
    (settled line (m + 1)).Reachable := by
  have h : ((alone line m ⟨key, n, .retired⟩).move m ⟨key, n, .retired⟩ .parting).Reachable :=
    hr.goOn
  rw [move_alone] at h
  exact h.parted

theorem Reachable.swept (hr : (alone line m ⟨key, n, .unlocked⟩).Reachable)
    (hn : line.entries.get? key = some n) :
    (settled (if line.isLive n then line else { line with entries := line.entries.erase key })
      (m + 1)).Reachable := by
  have hleaving : ((alone line m ⟨key, n, .unlocked⟩).move m ⟨key, n, .unlocked⟩
      .leaving).Reachable := hr.goOn
  rw [move_alone] at hleaving
  have hlooked : ((alone line m ⟨key, n, .leaving⟩).move m ⟨key, n, .leaving⟩
      (if (alone line m ⟨key, n, .leaving⟩).strong n = 1 then .sweeping else .parting)).Reachable :=
    hleaving.goOn
  rw [move_alone] at hlooked
  have hcount : ∀ phase, (alone line m ⟨key, n, phase⟩).strong n =
      (settled line m).strong n + phase.refs := fun phase => strong_alone
  have hlive : (settled line m).strong n = 0 ↔ line.isLive n = false := strong_settled
  have hleft := hcount .leaving
  rw [show Phase.leaving.refs = 1 from rfl] at hleft
  cases hl : line.isLive n with
  | true =>
    have hothers : (settled line m).strong n ≠ 0 := fun h0 => by
      rw [hlive.1 h0] at hl
      contradiction
    rw [if_neg (by omega)] at hlooked
    exact hlooked.parted
  | false =>
    have hnone := hlive.2 hl
    have hlast : (alone line m ⟨key, n, .sweeping⟩).strong n ≤ 1 := by
      rw [hcount, hnone]
      decide
    have hsweep : (alone line m ⟨key, n, .sweeping⟩).sweep key =
        alone { line with entries := line.entries.erase key } m ⟨key, n, .sweeping⟩ := by
      unfold sweep
      rw [show (alone line m ⟨key, n, .sweeping⟩).line.entries.get? key = some n from hn]
      exact if_pos hlast
    rw [if_pos (by omega)] at hlooked
    have hswept : (((alone line m ⟨key, n, .sweeping⟩).sweep key).move m ⟨key, n, .sweeping⟩
        .parting).Reachable := hlooked.goOn
    rw [hsweep, move_alone] at hswept
    exact hswept.parted

/-! ## Whole operations -/

theorem Reachable.request_new (hr : (settled line m).Reachable)
    (hn : line.entries.get? key = none) : (settled (line.request key).2 (m + 1)).Reachable := by
  let fresh : KeyedLock :=
    { line with
      entries := line.entries.insert key line.nextLock, nextLock := line.nextLock + 1 }
  have hfind : (settled line m).find key = alone fresh m ⟨key, line.nextLock, .found⟩ := by
    unfold find
    rw [show (settled line m).line.entries.get? key = none from hn]
    rfl
  have hrequest : line.request key = fresh.enter key line.nextLock := by
    rw [request_eq, lockFor_of_dead fun n h => by rw [hn] at h; contradiction]
  have hfound : ((settled line m).find key).Reachable := hr.step (a := .find key) rfl
  rw [hfind] at hfound
  rw [hrequest]
  exact hfound.joined

theorem Reachable.request (hr : (settled line m).Reachable) (key : Key) :
    ∃ line' m', (settled line' m').Reachable ∧ (line.request key).2.Agrees line' := by
  cases hn : line.entries.get? key with
  | none => exact ⟨_, m + 1, hr.request_new hn, agrees_refl _⟩
  | some n =>
    have hfound : ((settled line m).find key).Reachable := hr.step (a := .find key) rfl
    have hlive : (settled line m).strong n = 0 ↔ line.isLive n = false := strong_settled
    unfold find at hfound
    rw [show (settled line m).line.entries.get? key = some n from hn] at hfound
    dsimp only at hfound
    split at hfound
    · next hdead =>
      -- The search is repeated without the dead entry.
      have hnew := hfound.request_new (Table.get?_erase_self _ _)
      refine ⟨_, m + 1, hnew, agrees_request line (fun k hk => Table.get?_erase_of_ne _ hk)
        (Or.inr ⟨Table.get?_erase_self _ _, fun n' h' => ?_⟩)⟩
      rw [hn, Option.some.injEq] at h'
      rw [← h']
      exact hlive.1 hdead
    · next hused =>
      have hl : line.isLive n = true := by
        rw [← Bool.not_eq_false]
        exact fun h => hused (hlive.2 h)
      have hjoined := hfound.joined
      refine ⟨_, m + 1, hjoined, ?_⟩
      rw [request_eq, lockFor_of_live hn hl]
      exact agrees_refl _

theorem step_unlock (hd : c.line.calls.get? t = some d) (hs : d.stage = .held) :
    c.step (.unlock t) = some (c.stepOut t d .unlocked) := by
  simp only [step, hd, Option.filter_some, hs, decide_true, if_true, Option.map_some]

theorem step_abandon (hd : c.line.calls.get? t = some d) (hs : d.stage ≠ .held) :
    c.step (.abandon t) = some (c.stepOut t d .retired) := by
  have hs' : decide (d.stage ≠ .held) = true := decide_eq_true hs
  simp only [step, hd, Option.filter_some, hs', if_true, Option.map_some]

theorem Reachable.release (hr : (settled line m).Reachable) (h : line.stage? t = some .held) :
    (settled (line.release t) (m + 1)).Reachable := by
  obtain ⟨d, hd, hs⟩ := Option.map_eq_some_iff.1 h
  have hentries := entries_abandon line t
  have hn : (line.abandon t).entries.get? d.key = some d.lock := by
    rw [hentries]
    exact hr.valid.line.valid.shared hd
  have hunlocked : (alone (line.abandon t) m ⟨d.key, d.lock, .unlocked⟩).Reachable :=
    hr.step (step_unlock hd hs)
  have hswept := hunlocked.swept hn
  rwa [hentries, ← release_eq hd (by rw [hs]; decide)] at hswept

theorem Reachable.abandon (hr : (settled line m).Reachable) (h : line.stage? t ≠ some .held) :
    ∃ m', (settled (line.abandon t) m').Reachable := by
  cases hd : line.calls.get? t with
  | none =>
    rw [abandon_of_none hd]
    exact ⟨m, hr⟩
  | some d =>
    have hs : d.stage ≠ .held := fun e => h (by rw [stage?, hd, Option.map_some, e])
    have hretired : (alone (line.abandon t) m ⟨d.key, d.lock, .retired⟩).Reachable :=
      hr.step (step_abandon hd hs)
    exact ⟨m + 1, hretired.retired⟩

theorem Reachable.take (hr : (settled line m).Reachable) (t : Nat) :
    (settled (line.take t) m).Reachable := by
  obtain he | ⟨d, hd, hs, -⟩ := line.take_cases t
  · rwa [he]
  · have hg : line.stage? t = some .granted := by rw [stage?, hd, Option.map_some, hs]
    exact hr.step (a := .take t) (if_pos hg)

end Crowd

theorem Operated.settled (h : Operated l) :
    ∃ line m, (Crowd.settled line m).Reachable ∧ l.Agrees line := by
  induction h with
  | empty => exact ⟨{}, 0, ⟨[], rfl⟩, agrees_refl _⟩
  | @request l key _ ih =>
    obtain ⟨line, m, hr, entries, rfl, he⟩ := ih
    obtain ⟨line', m', hr', ha⟩ := hr.request key
    exact ⟨line', m', hr', (agrees_request l (fun k _ => he k) (Or.inl (he key))).trans ha⟩
  | take t _ ih =>
    obtain ⟨line, m, hr, ha⟩ := ih
    exact ⟨line.take t, m, hr.take t, ha.take t⟩
  | @release l t _ hs ih =>
    obtain ⟨line, m, hr, ha⟩ := ih
    obtain ⟨d, hd, hheld⟩ := Option.map_eq_some_iff.1 hs
    have hs' : line.stage? t = some .held := by
      obtain ⟨_, rfl, -⟩ := ha
      exact hs
    exact ⟨line.release t, m + 1, hr.release hs', ha.release hd (by rw [hheld]; decide)⟩
  | @abandon l t _ hs ih =>
    obtain ⟨line, m, hr, ha⟩ := ih
    have hs' : line.stage? t ≠ some .held := by
      obtain ⟨_, rfl, -⟩ := ha
      exact hs
    obtain ⟨m', hr'⟩ := hr.abandon hs'
    exact ⟨line.abandon t, m', hr', ha.abandon t⟩

end Nodecast.KeyedLock
