import Nodecast.Hub.Stream

/-!
# Room in a stream

Buffered items and the room that paced pushes have gathered never come to more than the capacity. A
paced push that still gathers leaves no room at all.
-/

namespace Nodecast.Hub

variable {α : Type}

namespace Stream

/-! ## Dealing out room -/

@[simp] theorem gathered_nil : gathered ([] : List (Paced α)) = 0 := rfl

@[simp] theorem gathered_cons (p : Paced α) (ps : List (Paced α)) :
    gathered (p :: ps) = p.gathered + gathered ps := rfl

theorem gathered_append (ps qs : List (Paced α)) :
    gathered (ps ++ qs) = gathered ps + gathered qs := by
  induction ps with
  | nil => simp
  | cons p rest ih => simp only [List.cons_append, gathered_cons, ih, Nat.add_assoc]

theorem reserved_eq (s : Stream α) : s.reserved = gathered s.paced := rfl

/-- A paced push never gathers more than it wants. -/
def Modest (ps : List (Paced α)) : Prop := ∀ p ∈ ps, p.gathered ≤ p.wanted

theorem deal_zero (ps : List (Paced α)) : deal 0 ps = ps := by
  induction ps with
  | nil => rfl
  | cons p rest ih => simp [deal, ih]

theorem gathered_deal_le (room : Nat) (ps : List (Paced α)) :
    gathered (deal room ps) ≤ gathered ps + room := by
  induction ps generalizing room with
  | nil => simp [deal]
  | cons p rest ih =>
    have h := ih (room - min room (p.wanted - p.gathered))
    simp only [deal, gathered_cons]
    omega

/-- As long as somebody wants more, all room is dealt out. -/
theorem gathered_deal {room : Nat} {ps : List (Paced α)} (h : Modest ps)
    (hw : ∃ p ∈ deal room ps, p.isGranted = false) :
    gathered (deal room ps) = gathered ps + room := by
  induction ps generalizing room with
  | nil => simp [deal] at hw
  | cons p rest ih =>
    have hp := h p List.mem_cons_self
    have hrest : Modest rest := fun q hq => h q (List.mem_cons_of_mem _ hq)
    by_cases hroom : room ≤ p.wanted - p.gathered
    · simp only [deal, Nat.min_eq_left hroom, Nat.sub_self, deal_zero, gathered_cons]
      omega
    · have hshare : min room (p.wanted - p.gathered) = p.wanted - p.gathered := by omega
      simp only [deal, hshare, gathered_cons] at hw ⊢
      have htail : ∃ q ∈ deal (room - (p.wanted - p.gathered)) rest, q.isGranted = false := by
        obtain ⟨q, hq, hg⟩ := hw
        rcases List.mem_cons.1 hq with rfl | hq
        · simp only [Paced.isGranted, decide_eq_false_iff_not] at hg
          omega
        · exact ⟨q, hq, hg⟩
      rw [ih hrest htail]
      omega

theorem mem_deal {room : Nat} {ps : List (Paced α)} {p : Paced α} (hp : p ∈ deal room ps) :
    ∃ q ∈ ps, p.ticket = q.ticket ∧ p.item = q.item ∧ p.wanted = q.wanted ∧
      (q.gathered ≤ q.wanted → p.gathered ≤ p.wanted) := by
  induction ps generalizing room with
  | nil => simp [deal] at hp
  | cons q rest ih =>
    rcases List.mem_cons.1 hp with rfl | hp
    · exact ⟨q, List.mem_cons_self, rfl, rfl, rfl, fun _ => by simp only; omega⟩
    · obtain ⟨q', hq', h⟩ := ih hp
      exact ⟨q', List.mem_cons_of_mem _ hq', h⟩

theorem tickets_deal (room : Nat) (ps : List (Paced α)) :
    (deal room ps).map Paced.ticket = ps.map Paced.ticket := by
  induction ps generalizing room with
  | nil => rfl
  | cons p rest ih => simp [deal, ih]

/-! ## What a stream keeps to -/

structure Valid (s : Stream α) : Prop where
  open' : 0 < s.capacity
  taken : s.taken ≤ s.log.length
  bounded : s.used ≤ s.capacity
  wants : ∀ p ∈ s.paced, p.wanted = s.capacity / 2 + 1 ∧ p.gathered ≤ p.wanted
  counted : s.delivered = s.log.length
  /-- Room is never left free while a push that somebody listens to still gathers. -/
  greedy : s.listening = true → (∃ p ∈ s.paced, p.isGranted = false) → s.used = s.capacity
  apart : (s.paced.map Paced.ticket).Nodup

theorem used_eq (s : Stream α) : s.used = (s.log.length - s.taken) + gathered s.paced := by
  simp [used, buffer, reserved_eq]

theorem valid_dealFree {s : Stream α} (hopen : 0 < s.capacity) (htaken : s.taken ≤ s.log.length)
    (hbounded : s.used ≤ s.capacity) (hcounted : s.delivered = s.log.length)
    (hwants : ∀ p ∈ s.paced, p.wanted = s.capacity / 2 + 1 ∧ p.gathered ≤ p.wanted)
    (hapart : (s.paced.map Paced.ticket).Nodup) : s.dealFree.Valid where
  open' := hopen
  taken := htaken
  bounded := by
    have h := gathered_deal_le s.free s.paced
    simp only [used_eq, free, dealFree] at h hbounded ⊢
    omega
  wants := by
    intro p hp
    obtain ⟨q, hq, -, -, hw, hg⟩ := mem_deal hp
    exact ⟨by rw [hw]; exact (hwants q hq).1, hg (hwants q hq).2⟩
  counted := hcounted
  greedy := by
    intro _ hw
    have h := gathered_deal (fun p hp => (hwants p hp).2) hw
    simp only [used_eq, free, dealFree] at h hbounded ⊢
    omega
  apart := by
    simpa only [dealFree, tickets_deal] using hapart

theorem Valid.send {s s' : Stream α} {item : α} (v : s.Valid) (h : s.send? item = some s') :
    s'.Valid := by
  unfold send? at h
  split at h
  · next hfree =>
    cases h
    have hb := v.bounded
    have ht := v.taken
    rw [free] at hfree
    refine ⟨v.open', ?_, ?_, v.wants, ?_, ?_, v.apart⟩
    · simp only [List.length_append, List.length_singleton]
      omega
    · simp only [used_eq, List.length_append, List.length_singleton] at hb hfree ⊢
      omega
    · simp [v.counted]
    · intro hl hw
      have := v.greedy hl hw
      omega
  · contradiction

theorem Valid.startPaced {s : Stream α} {ticket : Nat} {item : α} (v : s.Valid)
    (hnew : ∀ p ∈ s.paced, p.ticket ≠ ticket) : (s.startPaced ticket item).Valid := by
  unfold Stream.startPaced
  apply valid_dealFree
  · exact v.open'
  · exact v.taken
  · have hb := v.bounded
    simp only [used_eq, gathered_append, gathered_cons, gathered_nil, Nat.add_zero] at hb ⊢
    exact hb
  · exact v.counted
  · intro p hp
    rcases List.mem_append.1 hp with hp | hp
    · exact v.wants p hp
    · rw [List.mem_singleton] at hp
      subst hp
      exact ⟨rfl, Nat.zero_le _⟩
  · rw [List.map_append, List.nodup_append]
    refine ⟨v.apart, by simp, ?_⟩
    intro a ha b hb
    obtain ⟨p, hp, rfl⟩ := List.mem_map.1 ha
    simp only [List.map_cons, List.map_nil, List.mem_singleton] at hb
    subst hb
    exact hnew p hp

theorem gathered_filter_le (ps : List (Paced α)) (keep : Paced α → Bool) :
    gathered (ps.filter keep) ≤ gathered ps := by
  induction ps with
  | nil => simp
  | cons p rest ih =>
    rw [List.filter_cons]
    split <;> simp only [gathered_cons] <;> omega

theorem gathered_filter_ticket {ps : List (Paced α)} {p : Paced α} (hp : p ∈ ps) :
    gathered (ps.filter fun q => q.ticket ≠ p.ticket) + p.gathered ≤ gathered ps := by
  induction ps with
  | nil => contradiction
  | cons q rest ih =>
    rcases List.mem_cons.1 hp with rfl | hp
    · have h := gathered_filter_le rest fun q => q.ticket ≠ p.ticket
      simp only [List.filter_cons, ne_eq, not_true_eq_false, decide_false, Bool.false_eq_true,
        if_false, gathered_cons] at h ⊢
      omega
    · have h := ih hp
      rw [List.filter_cons]
      split <;> simp only [gathered_cons] <;> omega

theorem Valid.withdraw {s : Stream α} (v : s.Valid) (ticket : Nat) : (s.withdraw ticket).Valid := by
  unfold Stream.withdraw
  apply valid_dealFree
  · exact v.open'
  · exact v.taken
  · have hb := v.bounded
    have h := gathered_filter_le s.paced fun p => p.ticket ≠ ticket
    simp only [used_eq] at hb ⊢
    omega
  · exact v.counted
  · intro p hp
    exact v.wants p (List.mem_filter.1 hp).1
  · exact (List.filter_sublist.map _).nodup v.apart

theorem Valid.sendPaced {s : Stream α} {p : Paced α} (v : s.Valid) (hp : p ∈ s.paced)
    (hg : p.isGranted = true) : (s.sendPaced p).Valid := by
  have hb := v.bounded
  have ht := v.taken
  have hw := (v.wants p hp).1
  have h := gathered_filter_ticket hp
  simp only [Paced.isGranted, decide_eq_true_eq] at hg
  unfold Stream.sendPaced Stream.withdraw
  apply valid_dealFree
  · exact v.open'
  · simp only [List.length_append, List.length_singleton]
    omega
  · simp only [used_eq, List.length_append, List.length_singleton] at hb ⊢
    omega
  · simp [v.counted]
  · intro q hq
    exact v.wants q (List.mem_filter.1 hq).1
  · exact (List.filter_sublist.map _).nodup v.apart

theorem Valid.receive {s : Stream α} (v : s.Valid) : s.receive.2.Valid := by
  unfold Stream.receive
  split
  · exact v
  · next item rest hbuf =>
    have hb := v.bounded
    have hlen : s.taken < s.log.length := by
      have := congrArg List.length hbuf
      simp only [buffer, List.length_drop, List.length_cons] at this
      omega
    apply valid_dealFree
    · exact v.open'
    · exact hlen
    · simp only [used_eq] at hb ⊢
      omega
    · exact v.counted
    · exact v.wants
    · exact v.apart

theorem Valid.hangUp {s : Stream α} (v : s.Valid) : s.hangUp.Valid where
  open' := v.open'
  taken := Nat.le_refl _
  bounded := by
    have hb := v.bounded
    simp only [used_eq, Stream.hangUp] at hb ⊢
    omega
  wants := v.wants
  counted := v.counted
  greedy := by
    intro h
    contradiction
  apart := v.apart

theorem asked_dealFree {s : Stream α} {bound : Nat} (h : ∀ p ∈ s.paced, p.ticket < bound) :
    ∀ p ∈ s.dealFree.paced, p.ticket < bound := by
  intro p hp
  obtain ⟨q, hq, ht, -⟩ := mem_deal hp
  rw [ht]
  exact h q hq

theorem asked_withdraw {s : Stream α} {bound : Nat} (h : ∀ p ∈ s.paced, p.ticket < bound)
    (ticket : Nat) : ∀ p ∈ (s.withdraw ticket).paced, p.ticket < bound :=
  asked_dealFree (s := { s with paced := s.paced.filter fun p => p.ticket ≠ ticket })
    fun p hp => h p (List.mem_filter.1 hp).1

/-! ## What a stream holds -/

/-- The item that a paced push waits to send. -/
def item? (s : Stream α) (ticket : Nat) : Option α := (s.paced? ticket).map Paced.item

theorem item?_iff {s : Stream α} {ticket : Nat} {item : α} :
    s.item? ticket = some item ↔ ∃ p, s.paced? ticket = some p ∧ p.item = item := by
  rw [item?, Option.map_eq_some_iff]

theorem paced?_mem {s : Stream α} {ticket : Nat} {p : Paced α} (h : s.paced? ticket = some p) :
    p ∈ s.paced ∧ p.ticket = ticket :=
  ⟨List.mem_of_find?_eq_some h, by simpa using List.find?_some h⟩

theorem item?_deal (room ticket : Nat) (ps : List (Paced α)) :
    ((deal room ps).find? fun p => p.ticket = ticket).map Paced.item =
      (ps.find? fun p => p.ticket = ticket).map Paced.item := by
  induction ps generalizing room with
  | nil => rfl
  | cons p rest ih =>
    by_cases h : p.ticket = ticket
    · simp [deal, h]
    · simp [deal, h, ih]

@[simp] theorem item?_dealFree (s : Stream α) (ticket : Nat) :
    s.dealFree.item? ticket = s.item? ticket := item?_deal _ _ _

theorem item?_startPaced_of_ne (s : Stream α) {t ticket : Nat} (item : α) (h : t ≠ ticket) :
    (s.startPaced ticket item).item? t = s.item? t := by
  rw [Stream.startPaced, item?_dealFree]
  simp [item?, paced?, List.find?_append, Ne.symm h]

theorem item?_startPaced {s : Stream α} {ticket : Nat} (item : α)
    (hnew : ∀ p ∈ s.paced, p.ticket ≠ ticket) :
    (s.startPaced ticket item).item? ticket = some item := by
  rw [Stream.startPaced, item?_dealFree]
  have hnone : (s.paced.find? fun p => p.ticket = ticket) = none := by
    simpa [List.find?_eq_none] using hnew
  simp [item?, paced?, List.find?_append, hnone]

theorem item?_withdraw_of_ne (s : Stream α) {t ticket : Nat} (h : t ≠ ticket) :
    (s.withdraw ticket).item? t = s.item? t := by
  rw [Stream.withdraw, item?_dealFree]
  simp only [item?, paced?, List.find?_filter]
  congr 2
  funext p
  by_cases hp : p.ticket = t
  · simp [hp, h]
  · simp [hp]

end Stream

end Nodecast.Hub
