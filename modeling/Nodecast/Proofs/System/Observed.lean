import Nodecast.Proofs.System.Glimpses

/-!
# What the cache remembers

The cache holds of an object what the last successful cycle saw of it. Nothing that happened before
plays a part, and neither do cycles that failed.
-/

namespace Nodecast

variable {kind : Kind} {key : Key}

/-! ## Runs with what is seen in them -/

/-- A cycle that can fail no more, and what it saw. -/
structure Sighting where
  task : Nat
  kind : Kind
  key : Key
  glimpse : Glimpse

/-- Beside the state stands what each cycle has seen, and what the successful ones saw, in the order
in which they came to succeed. -/
structure Observed extends World where
  glimpses : Table Nat Glimpse := ∅
  sightings : List Sighting := []

open World (Action get?_tasks_advance get?_collectors_advance)

namespace Observed

variable {o o' : Observed} {w : World} {i : Nat} {t : Task} {c : Collector} {y : Cycle}
  {a : Action} {s : Sighting}

def glimpse (o : Observed) (i : Nat) : Glimpse := o.glimpses.getD i {}

/-- What the last successful cycle of the key saw. -/
def last? (o : Observed) (kind : Kind) (key : Key) : Option Sighting :=
  (o.sightings.filter fun s => s.kind = kind ∧ s.key = key).getLast?

/-- There is something to write down if the task is a cycle that has come to succeed. -/
def sighted? (o : Observed) (w : World) (i : Nat) (g : Glimpse) : Option Sighting := do
  let t ← o.tasks.get? i
  let t' ← w.tasks.get? i
  match t.activity, t'.activity with
  | .cycle y, .cycle y' =>
    if y'.hasSucceeded && !y.hasSucceeded then some ⟨i, t.kind, y.key, g⟩ else none
  | _, _ => none

def step (o : Observed) (a : Action) : Option Observed :=
  (o.toWorld.step a).map fun w =>
    match a with
    | .cycle i m =>
      let g := (o.glimpse i).after m
      { toWorld := w
        glimpses := o.glimpses.insert i g
        sightings := o.sightings ++ (o.sighted? w i g).toList }
    | _ => { o with toWorld := w }

/-- Cycles are told of the nodes by the index. -/
def Answers (o : Observed) : Action → Prop
  | .cycle i (.resolve answer) => ∀ t y object prior, o.tasks.get? i = some t →
      t.activity = .cycle y → y.stage = .resolving object prior →
      ∃ checked sets pods : PodIndex, answer = checked.answer sets pods t.kind y.key object
  | _ => True

inductive Reachable : Observed → Prop where
  | start (s : Settings) : Reachable { World.start s with }
  | step {o o' : Observed} (a : Action) : Reachable o → o.Answers a → o.step a = some o' →
      Reachable o'

/-! ## What is written down -/

theorem last?_append (h : o'.sightings = o.sightings ++ [s]) : o'.last? kind key =
    if s.kind = kind ∧ s.key = key then some s else o.last? kind key := by
  unfold last?
  rw [h, List.filter_append]
  split
  · next hk => simp [hk]
  · next hk => simp [hk]

/-- The sighting is of a cycle that can fail no more. -/
def Succeeded (o : Observed) (s : Sighting) : Prop :=
  s.glimpse = o.glimpse s.task ∧ ∃ t y, o.tasks.get? s.task = some t ∧ t.kind = s.kind ∧
    t.activity = .cycle y ∧ y.key = s.key ∧ y.hasSucceeded = true

structure Agrees (o : Observed) : Prop where
  sound : o.toWorld.Sound
  fresh : ∀ {i}, o.nextTask ≤ i → o.glimpse i = {}
  named : ∀ i, "" ∉ (o.glimpse i).nodes
  cycles : ∀ {i t y}, o.tasks.get? i = some t → t.activity = .cycle y →
    y.Saw t.kind (o.glimpse i)
  sighted : ∀ s, s ∈ o.sightings ↔ o.Succeeded s
  once : (o.sightings.map Sighting.task).Nodup
  cached : ∀ {kind c}, o.collectors.get? kind = some c → ∀ key,
    c.cache.get? key = (o.last? kind key).bind fun s => s.glimpse.leaves kind

/-! ## Steps of others -/

/-- No cycle moves, and the caches stay as they are. -/
structure Idle (w w' : World) : Prop where
  begun : w.nextTask ≤ w'.nextTask
  stay : ∀ {i t y}, t.activity = .cycle y → w.tasks.get? i = some t → w'.tasks.get? i = some t
  begin : ∀ {i t y}, t.activity = .cycle y → w'.tasks.get? i = some t →
    w.tasks.get? i = some t ∨ (w.nextTask ≤ i ∧ y.stage = .locking)
  caches : ∀ {kind c'}, w'.collectors.get? kind = some c' →
    ∃ c, w.collectors.get? kind = some c ∧ c'.cache = c.cache

theorem idle_advance {w : World} {c' : Collector} {hub : Hub Event}
    (hc : w.collectors.get? t.kind = some c) (hcache : c'.cache = c.cache)
    (hold : ∀ {t' y}, w.tasks.get? i = some t' → t'.activity ≠ .cycle y)
    (hnew : ∀ {y}, t.activity = .cycle y → w.nextTask ≤ i ∧ y.stage = .locking) :
    Idle w (w.advance i t c' hub []) where
  begun := Nat.le_max_left _ _
  stay := by
    intro j t' y ha ht
    rw [get?_tasks_advance, if_neg, ht]
    rintro rfl
    exact hold ht ha
  begin := by
    intro j t' y ha ht
    rw [get?_tasks_advance] at ht
    split at ht
    · next hj =>
      cases ht
      exact .inr (hj ▸ hnew ha)
    · exact .inl ht
  caches := by
    intro kind d hd
    rw [get?_collectors_advance] at hd
    split at hd
    · next hk =>
      cases hd
      exact ⟨c, hk ▸ hc, hcache⟩
    · exact ⟨d, hd, rfl⟩

theorem idle_of_step {w w' : World} (S : w.Sound) (h : w.Step a w')
    (ha : ∀ i m, a ≠ .cycle i m) : Idle w w' := by
  have hnext : ∀ {t' y}, w.tasks.get? w.nextTask = some t' → t'.activity ≠ .cycle y := by
    intro t' y ht
    rw [S.get?_nextTask] at ht
    contradiction
  cases h with
  | reconcile key hc =>
    refine idle_advance hc rfl hnext fun hy => ⟨Nat.le_refl _, ?_⟩
    cases hy
    rfl
  | join hc => exact idle_advance hc rfl hnext fun hy => nomatch hy
  | cycle => exact absurd rfl (ha _ _)
  | replay commit cancelled ht hc hr hm =>
    obtain ⟨sent, hstep⟩ := Collector.moveReplay_step hm
    refine idle_advance hc hstep.same.1 ?_ fun hy => nomatch hy
    intro t' y ht' hy
    rw [ht, Option.some.injEq] at ht'
    rw [← ht', hr] at hy
    contradiction
  | wish wish => exact ⟨Nat.le_refl _, fun _ => id, fun _ => .inl, fun hc => ⟨_, hc, rfl⟩⟩

theorem Agrees.idle (A : o.Agrees) (S : w.Sound) (h : Idle o.toWorld w) :
    Agrees { o with toWorld := w } where
  sound := S
  fresh := fun hi => A.fresh (Nat.le_trans h.begun hi)
  named := A.named
  cycles := by
    intro i t y ht ha
    rcases h.begin ha ht with ht | ⟨hi, hs⟩
    · exact A.cycles ht ha
    · simp only [Cycle.Saw, hs]
      exact A.fresh hi
  sighted := by
    intro s
    rw [A.sighted]
    refine and_congr_right fun _ => ⟨?_, ?_⟩
    · rintro ⟨t, y, ht, hk, ha, hrest⟩
      exact ⟨t, y, h.stay ha ht, hk, ha, hrest⟩
    · rintro ⟨t, y, ht, hk, ha, hkey, hy⟩
      rcases h.begin ha ht with ht | ⟨-, hs⟩
      · exact ⟨t, y, ht, hk, ha, hkey, hy⟩
      · simp [Cycle.hasSucceeded, hs] at hy
  once := A.once
  cached := by
    intro kind c' hc' key
    obtain ⟨c, hc, he⟩ := h.caches hc'
    rw [he]
    exact A.cached hc key

/-! ## Steps of cycles -/

section Cycles

variable {c' : Collector} {t' : Task} {y' : Cycle} {g : Glimpse}

/-- Cycle `i` takes a step by going from `o` to `o'`, and has seen `g` then. -/
structure Moves (o : Observed) (i : Nat) (t : Task) (c : Collector) (y : Cycle) (g : Glimpse)
    (t' : Task) (c' : Collector) (y' : Cycle) (o' : Observed) : Prop where
  task : o.tasks.get? i = some t
  collector : o.collectors.get? t.kind = some c
  cycle : t.activity = .cycle y
  same : t'.kind = t.kind ∧ y'.key = y.key
  moved : t'.activity = .cycle y'
  tasks : ∀ j, o'.tasks.get? j = if j = i then some t' else o.tasks.get? j
  collectors : ∀ kind, o'.collectors.get? kind =
    if kind = t.kind then some c' else o.collectors.get? kind
  begun : o.nextTask ≤ o'.nextTask
  glimpses : ∀ j, o'.glimpse j = if j = i then g else o.glimpse j
  saw : y'.Saw t.kind g
  named : "" ∉ g.nodes
  others : ∀ {key}, key ≠ y.key → c'.cache.get? key = c.cache.get? key

theorem succeeded_iff (ht : o.tasks.get? i = some t) (ha : t.activity = .cycle y)
    (hs : s.task = i) :
    o.Succeeded s ↔ s = ⟨i, t.kind, y.key, o.glimpse i⟩ ∧ y.hasSucceeded = true := by
  obtain ⟨task, kind, key, glimpse⟩ := s
  obtain rfl : task = i := hs
  simp only [Succeeded]
  constructor
  · rintro ⟨rfl, t1, y1, ht1, rfl, ha1, rfl, hy⟩
    rw [ht] at ht1
    cases ht1
    rw [ha] at ha1
    cases ha1
    exact ⟨rfl, hy⟩
  · rintro ⟨he, hy⟩
    cases he
    exact ⟨rfl, t, y, ht, rfl, ha, rfl, hy⟩

namespace Moves

theorem succeeded_of_ne (M : o.Moves i t c y g t' c' y' o') (hs : s.task ≠ i) :
    o'.Succeeded s ↔ o.Succeeded s := by
  simp only [Succeeded, M.glimpses, M.tasks, if_neg hs]

theorem succeeded_iff (M : o.Moves i t c y g t' c' y' o') (hs : s.task = i) :
    o'.Succeeded s ↔ s = ⟨i, t.kind, y.key, g⟩ ∧ y'.hasSucceeded = true := by
  have ht : o'.tasks.get? i = some t' := by rw [M.tasks, if_pos rfl]
  rw [Observed.succeeded_iff ht M.moved hs, M.glimpses, if_pos rfl, M.same.1, M.same.2]

theorem agrees (M : o.Moves i t c y g t' c' y' o') (A : o.Agrees) (S : o'.toWorld.Sound)
    (hsighted : ∀ s, s ∈ o'.sightings ↔ o'.Succeeded s)
    (honce : (o'.sightings.map Sighting.task).Nodup)
    (hmine : c'.cache.get? y.key = (o'.last? t.kind y.key).bind fun s => s.glimpse.leaves t.kind)
    (hothers : ∀ {kind key}, ¬(kind = t.kind ∧ key = y.key) →
      o'.last? kind key = o.last? kind key) : o'.Agrees where
  sound := S
  fresh := by
    intro j hj
    have hlt := (A.sound.begun M.task).1
    rw [M.glimpses, if_neg (by have := M.begun; omega)]
    exact A.fresh (Nat.le_trans M.begun hj)
  named := by
    intro j
    rw [M.glimpses]
    split
    · exact M.named
    · exact A.named j
  cycles := by
    intro j t1 y1 ht ha
    rw [M.tasks] at ht
    rw [M.glimpses]
    split at ht
    · next hj =>
      cases ht
      rw [M.moved] at ha
      cases ha
      rw [if_pos hj, M.same.1]
      exact M.saw
    · next hj =>
      rw [if_neg hj]
      exact A.cycles ht ha
  sighted := hsighted
  once := honce
  cached := by
    intro kind d hd key
    rw [M.collectors] at hd
    split at hd
    · next hk =>
      subst hk
      cases hd
      by_cases hkey : key = y.key
      · rw [hkey, hmine]
      · rw [M.others hkey, hothers fun h => hkey h.2]
        exact A.cached M.collector key
    · next hk =>
      rw [hothers fun h => hk h.1]
      exact A.cached hd key

theorem agrees_of_succeeds (M : o.Moves i t c y g t' c' y' o') (A : o.Agrees)
    (S : o'.toWorld.Sound) (hno : y.hasSucceeded = false) (hyes : y'.hasSucceeded = true)
    (hcache : c'.cache.get? y.key = g.leaves t.kind)
    (hs : o'.sightings = o.sightings ++ [⟨i, t.kind, y.key, g⟩]) : o'.Agrees := by
  have hnone : ∀ s ∈ o.sightings, s.task ≠ i := by
    intro s hmem hi
    have hold := ((Observed.succeeded_iff M.task M.cycle hi).1 ((A.sighted s).1 hmem)).2
    rw [hno] at hold
    contradiction
  refine M.agrees A S ?_ ?_ ?_ ?_
  · intro s
    rw [hs, List.mem_append, List.mem_singleton]
    by_cases hi : s.task = i
    · rw [M.succeeded_iff hi]
      exact ⟨fun h => ⟨h.resolve_left fun hmem => hnone s hmem hi, hyes⟩, fun h => .inr h.1⟩
    · rw [M.succeeded_of_ne hi, A.sighted]
      refine or_iff_left ?_
      rintro rfl
      exact hi rfl
  · rw [hs, List.map_append]
    refine List.nodup_append.2 ⟨A.once, by simp, ?_⟩
    intro j hj k hk
    obtain ⟨s, hmem, rfl⟩ := List.mem_map.1 hj
    rw [List.map_singleton, List.mem_singleton] at hk
    rw [hk]
    exact hnone s hmem
  · rw [last?_append hs, if_pos ⟨rfl, rfl⟩, hcache]
    rfl
  · intro kind key hk
    rw [last?_append hs, if_neg]
    rintro ⟨rfl, rfl⟩
    exact hk ⟨rfl, rfl⟩

theorem agrees_of_goesOn (M : o.Moves i t c y g t' c' y' o') (A : o.Agrees)
    (S : o'.toWorld.Sound) (hsame : y'.hasSucceeded = y.hasSucceeded)
    (hg : y.hasSucceeded = true → g = o.glimpse i)
    (hcache : c'.cache.get? y.key = c.cache.get? y.key) (hs : o'.sightings = o.sightings) :
    o'.Agrees := by
  have hlast : ∀ kind key, o'.last? kind key = o.last? kind key := by
    intro kind key
    unfold last?
    rw [hs]
  refine M.agrees A S ?_ (hs ▸ A.once) ?_ fun _ => hlast _ _
  · intro s
    rw [hs, A.sighted]
    by_cases hi : s.task = i
    · rw [M.succeeded_iff hi, Observed.succeeded_iff M.task M.cycle hi, hsame]
      exact and_congr_left fun hy => by rw [hg hy]
    · exact (M.succeeded_of_ne hi).symm
  · rw [hcache, hlast]
    exact A.cached M.collector y.key

end Moves

end Cycles

/-! ## Every step -/

section Steps

variable {c' : Collector} {y' : Cycle} {m : Cycle.Move} {hub : Hub Event} {commit : Nat}
  {made : List Commit}

theorem glimpse_of_insert {g : Glimpse} (h : o'.glimpses = o.glimpses.insert i g) (j : Nat) :
    o'.glimpse j = if j = i then g else o.glimpse j := by
  unfold glimpse Table.getD
  rw [h, Table.get?_insert]
  split <;> rfl

theorem Agrees.named_after (A : o.Agrees) (hanswers : o.Answers (.cycle i m))
    (ht : o.tasks.get? i = some t) (ha : t.activity = .cycle y)
    (hstep : c.CycleStep o.hub y m y' c' hub) : "" ∉ ((o.glimpse i).after m).nodes := by
  have hsame := A.named i
  cases hstep with
  | fetch answer => cases answer <;> exact hsame
  | resolve object prior answer hs =>
    cases answer with
    | error e => exact hsame
    | ok nodes =>
      obtain ⟨checked, sets, pods, h⟩ := hanswers t y object prior ht ha hs
      exact PodIndex.empty_not_mem_answer h.symm
  | lock | cancel | commit | miss | find | offer | finish => exact hsame

theorem Agrees.cycle (A : o.Agrees) (hanswers : o.Answers (.cycle i m)) (S : o'.toWorld.Sound)
    (ht : o.tasks.get? i = some t) (ha : t.activity = .cycle y)
    (hc : o.collectors.get? t.kind = some c) (hstep : c.CycleStep o.hub y m y' c' hub)
    (hw : o'.toWorld = o.advance i { t with activity := .cycle y', commit } c' hub made)
    (hglimpses : o'.glimpses = o.glimpses.insert i ((o.glimpse i).after m))
    (hs : o'.sightings =
      o.sightings ++ (o.sighted? o'.toWorld i ((o.glimpse i).after m)).toList) : o'.Agrees := by
  have hy := A.sound.of_cycle ht ha hc
  have hkind := A.sound.kinds hc
  have hg : y.Saw c.kind (o.glimpse i) := hkind ▸ A.cycles ht ha
  have hentries : ∀ e, c.cache.get? y.key = some e → e.kind = c.kind :=
    fun e he => (A.sound.entries hc he).trans hkind.symm
  have hsaw := hstep.saw hy hentries hg
  have hsucceeds := hstep.succeeds hy hg
  rw [hkind] at hsaw hsucceeds
  have M : o.Moves i t c y ((o.glimpse i).after m) { t with activity := .cycle y', commit } c' y'
      o' :=
    { task := ht
      collector := hc
      cycle := ha
      same := ⟨rfl, hstep.key_eq⟩
      moved := rfl
      tasks := fun j => hw ▸ get?_tasks_advance j
      collectors := fun kind => hw ▸ get?_collectors_advance kind
      begun := hw ▸ Nat.le_max_left _ _
      glimpses := glimpse_of_insert hglimpses
      saw := hsaw
      named := A.named_after hanswers ht ha hstep
      others := fun hk => hstep.cache_eq hk }
  have hsighted : o.sighted? o'.toWorld i ((o.glimpse i).after m) =
      if y'.hasSucceeded && !y.hasSucceeded then
        some ⟨i, t.kind, y.key, (o.glimpse i).after m⟩ else none := by
    simp [sighted?, ht, ha, M.tasks]
  rw [hsighted] at hs
  rcases hsucceeds with ⟨hno, hyes, hcache⟩ | ⟨hsame, hg', hcache⟩
  · exact M.agrees_of_succeeds A S hno hyes hcache (by simpa [hno, hyes] using hs)
  · exact M.agrees_of_goesOn A S hsame hg' hcache (by simpa [hsame] using hs)

end Steps

theorem toWorld_step (h : o.step a = some o') : o.toWorld.step a = some o'.toWorld := by
  obtain ⟨w, hw, rfl⟩ := Option.map_eq_some_iff.1 h
  cases a <;> exact hw

theorem eq_of_step (h : o.step a = some o') (ha : ∀ i m, a ≠ .cycle i m) :
    o' = { o with toWorld := o'.toWorld } := by
  obtain ⟨w, -, rfl⟩ := Option.map_eq_some_iff.1 h
  cases a with
  | cycle i m => exact absurd rfl (ha i m)
  | reconcile | join | replay | wish => rfl

theorem step_cycle {m : Cycle.Move} (h : o.step (.cycle i m) = some o') :
    o'.glimpses = o.glimpses.insert i ((o.glimpse i).after m) ∧ o'.sightings =
      o.sightings ++ (o.sighted? o'.toWorld i ((o.glimpse i).after m)).toList := by
  obtain ⟨w, -, rfl⟩ := Option.map_eq_some_iff.1 h
  exact ⟨rfl, rfl⟩

theorem Agrees.step (A : o.Agrees) (hanswers : o.Answers a) (h : o.step a = some o') :
    o'.Agrees := by
  have hw := toWorld_step h
  have S := A.sound.step hw
  by_cases hcycle : ∃ i m, a = .cycle i m
  · obtain ⟨i, m, rfl⟩ := hcycle
    obtain ⟨hglimpses, hs⟩ := step_cycle h
    generalize he : o'.toWorld = w at hw
    cases World.step_of_step hw with
    | cycle commit made ht hc ha hm =>
      exact A.cycle hanswers S ht ha hc (Collector.moveCycle_step hm) he hglimpses hs
  · have hno : ∀ i m, a ≠ .cycle i m := fun i m e => hcycle ⟨i, m, e⟩
    rw [eq_of_step h hno]
    exact A.idle S (idle_of_step A.sound (World.step_of_step hw) hno)

theorem agrees_start (s : Settings) : Agrees { World.start s with } where
  sound := World.sound_start s
  fresh := fun _ => rfl
  named := fun _ => List.not_mem_nil
  cycles := fun ht => nomatch ht
  sighted := by
    intro s
    constructor
    · intro h
      contradiction
    · rintro ⟨-, t, y, ht, -⟩
      contradiction
  once := .nil
  cached := by
    intro kind c hc key
    rw [(World.fresh_daemon s).2 hc |>.2.1]
    rfl

theorem Reachable.agrees (h : Reachable o) : o.Agrees := by
  induction h with
  | start s => exact agrees_start s
  | step a _ ha hs ih => exact ih.step ha hs

/-! ## What the cache holds -/

/-- The action moves a cycle of the key. -/
def Concerns (o : Observed) (kind : Kind) (key : Key) : Action → Prop
  | .cycle i _ => ∃ t y, o.tasks.get? i = some t ∧ t.kind = kind ∧ t.activity = .cycle y ∧
      y.key = key
  | _ => False

theorem cached_of_others (S : o.toWorld.Sound) (h : o.step a = some o')
    (hno : ¬o.Concerns kind key a) {c' : Collector} (hc' : o'.collectors.get? kind = some c') :
    ∃ c, o.collectors.get? kind = some c ∧ c'.cache.get? key = c.cache.get? key := by
  have hw := World.step_of_step (toWorld_step h)
  by_cases hcycle : ∃ i m, a = .cycle i m
  · obtain ⟨i, m, rfl⟩ := hcycle
    generalize o'.toWorld = w at hw hc'
    cases hw with
    | @cycle _ t c d y _ _ _ commit made ht hc ha hm =>
      rw [get?_collectors_advance] at hc'
      split at hc'
      · next hk =>
        cases hc'
        refine ⟨c, hk ▸ hc, (Collector.moveCycle_step hm).cache_eq ?_⟩
        rintro rfl
        exact hno ⟨t, y, ht, hk.symm, ha, rfl⟩
      · exact ⟨c', hc', rfl⟩
  · obtain ⟨c, hc, he⟩ := (idle_of_step S hw fun i m e => hcycle ⟨i, m, e⟩).caches hc'
    exact ⟨c, hc, by rw [he]⟩

/-- An object is cached exactly if the last successful cycle of its key fetched it and found a node
for it, and then it is cached as that cycle saw it. Cycles of other keys and steps of others leave
it as it is. -/
theorem Reachable.cached_as_seen (h : Reachable o) :
    (∀ {kind c}, o.collectors.get? kind = some c → ∀ key,
      (∀ e, c.cache.get? key = some e ↔ ∃ s object, o.last? kind key = some s ∧
        s.glimpse.object = some object ∧ s.glimpse.nodes.isEmpty = false ∧
        e = ⟨c.kind, object.uid, object.metadata.fields, s.glimpse.nodes⟩) ∧
      ∀ e, c.cache.get? key = some e → e.nodes.isEmpty = false ∧ "" ∉ e.nodes) ∧
    (∀ s, s ∈ o.sightings ↔ o.Succeeded s) ∧ (o.sightings.map Sighting.task).Nodup ∧
    ∀ {a o'}, o.step a = some o' → ∀ kind key, ¬o.Concerns kind key a →
      ∀ c', o'.collectors.get? kind = some c' →
        ∃ c, o.collectors.get? kind = some c ∧ c'.cache.get? key = c.cache.get? key := by
  have A := h.agrees
  have hcached : ∀ {kind c}, o.collectors.get? kind = some c → ∀ {key e},
      c.cache.get? key = some e ↔ ∃ s object, o.last? kind key = some s ∧
        s.glimpse.object = some object ∧ s.glimpse.nodes.isEmpty = false ∧
        e = ⟨c.kind, object.uid, object.metadata.fields, s.glimpse.nodes⟩ := by
    intro kind c hc key e
    rw [A.cached hc key, A.sound.kinds hc, Option.bind_eq_some_iff]
    simp only [Glimpse.leaves_eq_some, exists_and_left]
  have hnodes : ∀ {kind c}, o.collectors.get? kind = some c → ∀ key e,
      c.cache.get? key = some e → e.nodes.isEmpty = false ∧ "" ∉ e.nodes := by
    intro kind c hc key e he
    obtain ⟨s, object, hlast, -, hnodes, rfl⟩ := (hcached hc).1 he
    have hmem : s ∈ o.sightings := (List.mem_filter.1 (List.mem_of_getLast? hlast)).1
    refine ⟨hnodes, ?_⟩
    rw [((A.sighted s).1 hmem).1]
    exact A.named s.task
  exact ⟨fun hc key => ⟨fun _ => hcached hc, hnodes hc key⟩, A.sighted, A.once,
    fun hs _ _ hno _ hc' => cached_of_others A.sound hs hno hc'⟩

/-! ## A run with a failed cycle -/

def run (o : Observed) (as : List Action) : Option Observed := as.foldlM step o

def resolves : Action → Bool
  | .cycle _ (.resolve _) => true
  | _ => false

theorem Reachable.run (h : Reachable o) {as : List Action} (hno : ∀ a ∈ as, resolves a = false)
    (hr : o.run as = some o') : Reachable o' := by
  refine foldlM_keeps h hr fun a ha o _ h hs => .step a h ?_ hs
  have hfirst := hno a ha
  unfold Answers
  split
  · contradiction
  · trivial

def apiKey : Key := ⟨"default", "api"⟩

/-- The Deployment has one Pod, which is on node `a`. -/
def apiIndex : PodIndex :=
  let i := (({} : PodIndex).replacePods
    [{ key := apiKey, nodeName := some "a", owners := [⟨"ReplicaSet", "r1", "api"⟩] }]).2
  (i.replaceReplicaSets [⟨"r1", apiKey, some ⟨"Deployment", "u1", "api"⟩⟩]).2

def api : Tracked :=
  { metadata := { name := some "api", space := some "default", uid := some "u1" } }

theorem cached_as_seen_api : ∃ o c s, Reachable o ∧ o.collectors.get? .deployment = some c ∧
    c.cache.get? apiKey = some ⟨.deployment, "u1", api.metadata.fields, .ofList ["a"]⟩ ∧
    o.last? .deployment apiKey = some s ∧ s.task = 0 ∧ o.Succeeded s ∧
    s.glimpse.nodes = .ofList ["a"] := by
  let answer := apiIndex.nodesOf .deployment apiKey api
  have hrun : ∃ o1 t y o2 o c, Observed.run { World.start {} with }
        [.reconcile .deployment apiKey, .cycle 0 (.lock false),
          .cycle 0 (.fetch (.ok (some api)))] = some o1 ∧
      o1.tasks.get? 0 = some t ∧ t.kind = .deployment ∧ t.activity = .cycle y ∧ y.key = apiKey ∧
      y.stage = .resolving api none ∧ o1.step (.cycle 0 (.resolve answer)) = some o2 ∧
      o2.run [.cycle 0 (.commit false), .cycle 0 .push, .cycle 0 .finish,
        .reconcile .deployment apiKey, .cycle 1 (.lock false),
        .cycle 1 (.fetch (.error (.fetch .deployment apiKey)))] = some o ∧
      o.collectors.get? .deployment = some c ∧
      c.cache.get? apiKey = some ⟨c.kind, "u1", api.metadata.fields, .ofList ["a"]⟩ ∧
      (o.last? .deployment apiKey).map Sighting.task = some 0 :=
    ⟨_, _, _, _, _, _, rfl, rfl, rfl, rfl, rfl, rfl, rfl, rfl, rfl, rfl, rfl⟩
  obtain ⟨o1, t, y, o2, o, c, hr1, ht, hkind, ha, hkey, hstage, h2, hr, hc, he, hs⟩ := hrun
  obtain ⟨s, hlast, htask⟩ := Option.map_eq_some_iff.1 hs
  have h1 : Reachable o1 := (Reachable.start {}).run (by simp [resolves]) hr1
  have hanswers : o1.Answers (.cycle 0 (.resolve answer)) := by
    intro t' y' object prior ht' ha' hs
    obtain ⟨rfl, rfl⟩ := World.cycle_unique ht ha ht' ha'
    rw [hstage] at hs
    cases hs
    rw [hkind, hkey]
    exact ⟨apiIndex, apiIndex, apiIndex, rfl⟩
  have h : Reachable o := (h1.step _ hanswers h2).run (by simp [resolves]) hr
  obtain ⟨hcached, hsighted, -⟩ := h.cached_as_seen
  obtain ⟨s', object, hs', -, -, hentry⟩ := ((hcached hc apiKey).1 _).1 he
  rw [hlast, Option.some.injEq] at hs'
  subst hs'
  have hmem : s ∈ o.sightings := (List.mem_filter.1 (List.mem_of_getLast? hlast)).1
  rw [h.agrees.sound.kinds hc] at he
  exact ⟨o, c, s, h, hc, he, hlast, htask, (hsighted s).1 hmem, (congrArg Entry.nodes hentry).symm⟩

end Observed

end Nodecast
