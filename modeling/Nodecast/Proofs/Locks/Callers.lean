import Nodecast.Proofs.Locks.Order
import Nodecast.Proofs.Sums

/-!
# Callers of keyed locks

A caller holds references to the lock of its key before it joins the line and after it has left, and
a lock lasts as long as somebody refers to it. Each step of a caller is taken on its own, in any
order with the steps of all the others.
-/

namespace Nodecast

namespace KeyedLock

/-! ## Steps of callers -/

/-- What a caller that is not in line is about to do. -/
inductive Phase where
  /-- It has found the lock, and takes a second reference. -/
  | found
  /-- It joins the line. -/
  | ready
  /-- Its guard has let go of the lock, and drops its reference. -/
  | unlocked
  /-- It looks whether others refer to the lock. -/
  | leaving
  /-- It saw no others, and removes the entry. -/
  | sweeping
  /-- It has given up, and drops the reference of its place in line. -/
  | retired
  /-- It drops its last reference. -/
  | parting
deriving DecidableEq, Repr

/-- The references it still has. -/
def Phase.refs : Phase → Nat
  | found => 1
  | ready => 2
  | unlocked => 2
  | leaving => 1
  | sweeping => 1
  | retired => 2
  | parting => 1

structure Aside where
  key : Key
  lock : Nat
  phase : Phase
deriving DecidableEq, Repr

/-- A keyed lock with the callers that refer to its locks without being in line. -/
structure Crowd where
  line : KeyedLock := {}
  aside : Table Nat Aside := ∅
  nextAside : Nat := 0

namespace Crowd

/-- All references to a lock. A call in line has two, and so has a guard. -/
def strong (c : Crowd) (n : Nat) : Nat :=
  c.line.calls.weigh (fun d => if d.lock = n then 2 else 0) +
    c.aside.weigh fun b => if b.lock = n then b.phase.refs else 0

def put (c : Crowd) (b : Aside) : Crowd :=
  { c with aside := c.aside.insert c.nextAside b, nextAside := c.nextAside + 1 }

def move (c : Crowd) (i : Nat) (b : Aside) (phase : Phase) : Crowd :=
  { c with aside := c.aside.insert i { b with phase } }

def gone (c : Crowd) (i : Nat) : Crowd := { c with aside := c.aside.erase i }

def withEntries (c : Crowd) (entries : Table Key Nat) : Crowd :=
  { c with line := { c.line with entries } }

/-- The search for the lock of a key. It has to be repeated if the entry is a dead one. -/
def find (c : Crowd) (key : Key) : Crowd :=
  match c.line.entries.get? key with
  | some n =>
    if c.strong n = 0 then c.withEntries (c.line.entries.erase key) else c.put ⟨key, n, .found⟩
  | none =>
    let n := c.line.nextLock
    let line := { c.line with entries := c.line.entries.insert key n, nextLock := n + 1 }
    { c with line }.put ⟨key, n, .found⟩

/-- The entry goes if no more than one reference to its lock is left. -/
def sweep (c : Crowd) (key : Key) : Crowd :=
  match c.line.entries.get? key with
  | some n => if c.strong n ≤ 1 then c.withEntries (c.line.entries.erase key) else c
  | none => c

def join (c : Crowd) (i : Nat) (b : Aside) : Crowd :=
  { c.gone i with line := (c.line.enter b.key b.lock).2 }

def goOn (c : Crowd) (i : Nat) (b : Aside) : Crowd :=
  match b.phase with
  | .found => c.move i b .ready
  | .ready => c.join i b
  | .unlocked => c.move i b .leaving
  | .leaving => c.move i b (if c.strong b.lock = 1 then .sweeping else .parting)
  | .sweeping => (c.sweep b.key).move i b .parting
  | .retired => c.move i b .parting
  | .parting => c.gone i

/-- A call leaves the line. The lock goes on to the next one if the call had it. -/
def stepOut (c : Crowd) (t : Nat) (d : Call) (phase : Phase) : Crowd :=
  { c with line := c.line.abandon t }.put ⟨d.key, d.lock, phase⟩

inductive Action where
  | find (key : Key)
  | goOn (i : Nat)
  | take (t : Nat)
  /-- The guard is dropped. -/
  | unlock (t : Nat)
  /-- A call in line is given up. -/
  | abandon (t : Nat)
  /-- A call is given up just before it joins the line. -/
  | retire (i : Nat)
deriving DecidableEq, Repr

def step (c : Crowd) : Action → Option Crowd
  | .find key => some (c.find key)
  | .goOn i => (c.aside.get? i).map fun b => c.goOn i b
  | .take t =>
    if c.line.stage? t = some .granted then some { c with line := c.line.take t } else none
  | .unlock t =>
    ((c.line.calls.get? t).filter fun d => d.stage = .held).map fun d => c.stepOut t d .unlocked
  | .abandon t =>
    ((c.line.calls.get? t).filter fun d => d.stage ≠ .held).map fun d => c.stepOut t d .retired
  | .retire i =>
    ((c.aside.get? i).filter fun b => b.phase = .ready).map fun b => c.move i b .retired

def run (c : Crowd) : List Action → Option Crowd
  | [] => some c
  | a :: rest => (c.step a).bind fun c => c.run rest

/-- Every run begins without callers. -/
def Reachable (c : Crowd) : Prop := ∃ actions, ({} : Crowd).run actions = some c

/-! ## What a crowd keeps to -/

variable {c c' : Crowd} {b : Aside} {d : Call} {i j n t : Nat} {key k : Key}

/-- Whoever may still come to the lock, or remove its entry, refers to the lock that newcomers
find. -/
structure Valid (c : Crowd) : Prop where
  line : c.line.Orderly
  shared : ∀ {i b}, c.aside.get? i = some b → b.phase ≠ .parting →
    c.line.entries.get? b.key = some b.lock
  made : ∀ {i b}, c.aside.get? i = some b → b.lock < c.line.nextLock
  known : ∀ {i b}, c.aside.get? i = some b → i < c.nextAside

theorem valid_empty : ({} : Crowd).Valid := ⟨orderly_empty, nofun, nofun, nofun⟩

theorem refs_pos (p : Phase) : 1 ≤ p.refs := by cases p <;> decide

theorem two_le_strong (hd : c.line.calls.get? t = some d) : 2 ≤ c.strong d.lock := by
  have h := Table.le_weigh (fun e : Call => if e.lock = d.lock then 2 else 0) hd
  rw [if_pos rfl] at h
  unfold strong
  omega

theorem refs_le_strong (hb : c.aside.get? i = some b) : b.phase.refs ≤ c.strong b.lock := by
  have h := Table.le_weigh (fun e : Aside => if e.lock = b.lock then e.phase.refs else 0) hb
  rw [if_pos rfl] at h
  unfold strong
  omega

theorem two_le_strong_of_ne {b' : Aside} (hb : c.aside.get? i = some b)
    (hb' : c.aside.get? j = some b') (hne : j ≠ i) (hlock : b'.lock = b.lock) :
    2 ≤ c.strong b.lock := by
  have h := Table.add_le_weigh (fun e : Aside => if e.lock = b.lock then e.phase.refs else 0)
    hb hb' hne
  rw [if_pos rfl, if_pos hlock] at h
  have h1 := refs_pos b.phase
  have h2 := refs_pos b'.phase
  unfold strong
  omega

/-! ## What a step preserves -/

namespace Valid

theorem move (v : c.Valid) (hb : c.aside.get? i = some b) {phase : Phase}
    (hphase : phase = .parting ∨ b.phase ≠ .parting) : (c.move i b phase).Valid := by
  have hold : ∀ {j b'}, (c.move i b phase).aside.get? j = some b' →
      ∃ b0, c.aside.get? j = some b0 ∧ b'.key = b0.key ∧ b'.lock = b0.lock ∧
        (b'.phase ≠ .parting → b0.phase ≠ .parting) := by
    intro j b' h
    rw [Crowd.move, Table.get?_insert] at h
    split at h
    · next hj =>
      cases h
      exact ⟨b, hj ▸ hb, rfl, rfl, fun hp => hphase.resolve_left hp⟩
    · exact ⟨b', h, rfl, rfl, id⟩
  refine ⟨v.line, ?_, ?_, ?_⟩
  · intro j b' h hp
    obtain ⟨b0, h0, hkey, hlock, hp0⟩ := hold h
    rw [hkey, hlock]
    exact v.shared h0 (hp0 hp)
  · intro j b' h
    obtain ⟨b0, h0, -, hlock, -⟩ := hold h
    rw [hlock]
    exact v.made h0
  · intro j b' h
    obtain ⟨b0, h0, -⟩ := hold h
    exact v.known h0

theorem gone (v : c.Valid) (i : Nat) : (c.gone i).Valid := by
  have hold : ∀ {j b'}, (c.aside.erase i).get? j = some b' → c.aside.get? j = some b' := by
    intro j b' h
    rw [Table.get?_erase] at h
    split at h
    · contradiction
    · exact h
  exact ⟨v.line, fun h => v.shared (hold h), fun h => v.made (hold h), fun h => v.known (hold h)⟩

theorem put (v : c.Valid) (hb : c.line.entries.get? b.key = some b.lock) : (c.put b).Valid := by
  have hold : ∀ {j b'}, (c.put b).aside.get? j = some b' →
      j = c.nextAside ∧ b' = b ∨ c.aside.get? j = some b' := by
    intro j b' h
    rw [Crowd.put, Table.get?_insert] at h
    split at h
    · next hj => exact Or.inl ⟨hj, (Option.some.inj h).symm⟩
    · exact Or.inr h
  refine ⟨v.line, ?_, ?_, ?_⟩
  · intro j b' h hp
    obtain ⟨-, rfl⟩ | h := hold h
    · exact hb
    · exact v.shared h hp
  · intro j b' h
    obtain ⟨-, rfl⟩ | h := hold h
    · exact v.line.valid.made hb
    · exact v.made h
  · intro j b' h
    show j < c.nextAside + 1
    obtain ⟨rfl, -⟩ | h := hold h
    · omega
    · have := v.known h
      omega

theorem withLine (v : c.Valid) {line : KeyedLock} (o : line.Orderly)
    (hentries : line.entries = c.line.entries) (hlock : line.nextLock = c.line.nextLock) :
    Valid { c with line } := by
  refine ⟨o, ?_, ?_, v.known⟩
  · intro i b hb hp
    show line.entries.get? b.key = some b.lock
    rw [hentries]
    exact v.shared hb hp
  · intro i b hb
    show b.lock < line.nextLock
    rw [hlock]
    exact v.made hb

theorem forget (v : c.Valid) (hcalls : ∀ {t d}, c.line.calls.get? t = some d → d.key ≠ key)
    (haside : ∀ {i b}, c.aside.get? i = some b → b.key = key → b.phase = .parting) :
    (c.withEntries (c.line.entries.erase key)).Valid := by
  refine ⟨v.line.of_calls (v.line.valid.forget hcalls) rfl, ?_, v.made, v.known⟩
  intro i b hb hp
  show (c.line.entries.erase key).get? b.key = some b.lock
  rw [Table.get?_erase_of_ne _ fun e => hp (haside hb e)]
  exact v.shared hb hp

theorem find (v : c.Valid) (key : Key) : (c.find key).Valid := by
  unfold Crowd.find
  split
  · next n hn =>
    split
    · next hdead =>
      apply v.forget
      · intro t d hd hk
        have hs := v.line.valid.shared hd
        rw [hk, hn, Option.some.injEq] at hs
        have hstrong := two_le_strong hd
        rw [← hs] at hstrong
        omega
      · intro i b hb hk
        by_cases hp : b.phase = .parting
        · exact hp
        · have hs := v.shared hb hp
          rw [hk, hn, Option.some.injEq] at hs
          have hstrong := refs_le_strong hb
          have hpos := refs_pos b.phase
          rw [← hs] at hstrong
          omega
    · exact v.put hn
  · next hn =>
    have hcalls : ∀ {t d}, c.line.calls.get? t = some d → d.key ≠ key := by
      intro t d hd hk
      have hs := v.line.valid.shared hd
      rw [hk, hn] at hs
      contradiction
    refine put ⟨?_, ?_, ?_, v.known⟩ (Table.get?_insert_self _ _ _)
    · exact v.line.of_calls (v.line.valid.renew hcalls) rfl
    · intro i b hb hp
      have hs := v.shared hb hp
      have hne : b.key ≠ key := fun e => by
        rw [e, hn] at hs
        contradiction
      exact (Table.get?_insert_of_ne _ _ hne).trans hs
    · intro i b hb
      exact Nat.lt_succ_of_lt (v.made hb)

/-- Whoever removes an entry is the only one who refers to its lock. -/
theorem sweep (v : c.Valid) (hb : c.aside.get? i = some b) (hp : b.phase = .sweeping) :
    ((c.sweep b.key).move i b .parting).Valid := by
  have hs := v.shared hb (by rw [hp]; decide)
  unfold Crowd.sweep
  rw [hs]
  dsimp only
  split
  · next hlast =>
    have hmoved := v.move hb (Or.inl rfl)
    refine hmoved.forget ?_ ?_
    · intro t d hd hk
      have hd' := v.line.valid.shared (show c.line.calls.get? t = some d from hd)
      rw [hk, hs, Option.some.injEq] at hd'
      have hstrong := two_le_strong (c := c) hd
      rw [← hd'] at hstrong
      omega
    · intro j b' hb' hk
      by_cases hj : j = i
      · subst hj
        rw [Crowd.move, Table.get?_insert_self] at hb'
        cases hb'
        rfl
      · rw [Crowd.move, Table.get?_insert_of_ne _ _ hj] at hb'
        by_cases hp' : b'.phase = .parting
        · exact hp'
        · have hs' := v.shared hb' hp'
          rw [hk, hs, Option.some.injEq] at hs'
          have hstrong := two_le_strong_of_ne hb hb' hj hs'.symm
          omega
  · exact v.move hb (Or.inl rfl)

theorem join (v : c.Valid) (hb : c.aside.get? i = some b) (hp : b.phase = .ready) :
    (c.join i b).Valid := by
  have hs := v.shared hb (by rw [hp]; decide)
  exact (v.gone i).withLine (v.line.enter hs) rfl rfl

theorem goOn (v : c.Valid) (hb : c.aside.get? i = some b) : (c.goOn i b).Valid := by
  unfold Crowd.goOn
  cases hp : b.phase with
  | found => exact v.move hb (Or.inr (by rw [hp]; decide))
  | ready => exact v.join hb hp
  | unlocked => exact v.move hb (Or.inr (by rw [hp]; decide))
  | leaving => exact v.move hb (Or.inr (by rw [hp]; decide))
  | sweeping => exact v.sweep hb hp
  | retired => exact v.move hb (Or.inl rfl)
  | parting => exact v.gone i

theorem stepOut (v : c.Valid) (hd : c.line.calls.get? t = some d) (phase : Phase) :
    (c.stepOut t d phase).Valid := by
  have w := v.withLine (v.line.abandon t) (entries_abandon _ _) (nextLock_abandon _ _)
  apply w.put
  show (c.line.abandon t).entries.get? d.key = some d.lock
  rw [entries_abandon]
  exact v.line.valid.shared hd

theorem step (v : c.Valid) {a : Action} (hs : c.step a = some c') : c'.Valid := by
  cases a with
  | find key =>
    cases hs
    exact v.find key
  | goOn i =>
    obtain ⟨b, hb, rfl⟩ := Option.map_eq_some_iff.1 hs
    exact v.goOn hb
  | take t =>
    obtain ⟨-, hs⟩ := Option.ite_none_right_eq_some.1 hs
    cases hs
    refine v.withLine (v.line.take t) ?_ ?_
    · obtain he | ⟨_, _, _, he⟩ := c.line.take_cases t <;> rw [he]
    · obtain he | ⟨_, _, _, he⟩ := c.line.take_cases t <;> rw [he]
  | unlock t | abandon t =>
    obtain ⟨d, hd, rfl⟩ := Option.map_eq_some_iff.1 hs
    exact v.stepOut (Option.filter_eq_some_iff.1 hd).1 _
  | retire i =>
    obtain ⟨b, hb, rfl⟩ := Option.map_eq_some_iff.1 hs
    obtain ⟨hb, hp⟩ := Option.filter_eq_some_iff.1 hb
    rw [decide_eq_true_eq] at hp
    exact v.move hb (Or.inr (by rw [hp]; decide))

theorem run (v : c.Valid) {actions : List Action} (hs : c.run actions = some c') : c'.Valid := by
  induction actions generalizing c with
  | nil =>
    cases hs
    exact v
  | cons a rest ih =>
    obtain ⟨c1, h1, hrest⟩ := Option.bind_eq_some_iff.1 hs
    exact ih (v.step h1) hrest

end Valid

theorem Reachable.valid (hr : c.Reachable) : c.Valid := by
  obtain ⟨actions, hrun⟩ := hr
  exact valid_empty.run hrun

end Crowd

end KeyedLock

end Nodecast
