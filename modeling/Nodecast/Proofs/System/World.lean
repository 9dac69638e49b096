import Nodecast.Collector.Cycle
import Nodecast.Collector.Replay
import Nodecast.Proofs.Hub.Steps
import Nodecast.Settings

/-!
# The system as a whole

The cycles and replays of all collectors take turns with each other and with the subscribers. Beside
the state stands what has happened so far: every commit, and every item that was sent.
-/

namespace Nodecast

/-- What every step of a run keeps holds at its end. -/
theorem foldlM_keeps {σ α : Type} {step : σ → α → Option σ} {P : σ → Prop} {s s' : σ}
    {as : List α} (h : P s) (hr : as.foldlM step s = some s')
    (hstep : ∀ a ∈ as, ∀ s s', P s → step s a = some s' → P s') : P s' := by
  induction as generalizing s with
  | nil =>
    cases hr
    exact h
  | cons a rest ih =>
    obtain ⟨s1, h1, hrest⟩ := Option.bind_eq_some_iff.1 hr
    refine ih (hstep a List.mem_cons_self s s1 h h1) hrest fun b hb => ?_
    exact hstep b (List.mem_cons_of_mem _ hb)

/-! ## Tasks -/

namespace Cycle

/-- The call for a lock that is not over. -/
def ticket? (y : Cycle) : Option Nat :=
  match y.stage with
  | .ended _ => none
  | _ => some y.ticket

/-- The events that are committed and not pushed yet. -/
def owes (y : Cycle) : List Event :=
  match y.stage with
  | .pushing _ rest => rest
  | .offering _ _ e rest => e :: rest
  | _ => []

/-- Those among them that may still reach the stream. One that has found its stream reaches no
other. -/
def owesTo (y : Cycle) (g : Nat) : List Event :=
  match y.stage with
  | .pushing _ rest => rest
  | .offering _ g' e rest => if g' = g then e :: rest else rest
  | _ => []

theorem mem_owes (y : Cycle) {g : Nat} {e : Event} (h : e ∈ y.owesTo g) : e ∈ y.owes := by
  unfold owesTo at h
  unfold owes
  cases hs : y.stage <;> simp only [hs] at h ⊢
  case pushing => exact h
  case offering =>
    split at h
    · exact h
    · exact List.mem_cons_of_mem _ h
  all_goals contradiction

def commits (y : Cycle) (m : Cycle.Move) : Bool :=
  match y.stage, m with
  | .committing .., .commit false => true
  | _, _ => false

end Cycle

namespace Replay

/-- The call for a lock that is not over. -/
def ticket? (r : Replay) : Option Nat :=
  match r.stage with
  | .locking _ ticket | .reaching _ ticket _ _ | .pacing _ ticket _ => some ticket
  | .listing _ | .visiting | .ended => none

/-- The push that waits for room. -/
def push? (r : Replay) : Option Hub.PacedRef :=
  match r.stage with
  | .pacing _ _ push => some push
  | _ => none

/-- The key whose entry is read in the move. -/
def reads? (r : Replay) (m : Replay.Move) : Option Key :=
  match r.stage, m with
  | .locking key _, .lock => some key
  | _, _ => none

/-- Whether the move cuts the replay short. -/
def isCutBy (r : Replay) (m : Replay.Move) : Bool :=
  match m with
  | .visit cancelled => cancelled && !r.rest.isEmpty
  | .cancel => true
  | _ => false

end Replay

inductive Activity where
  | cycle (y : Cycle)
  | replay (r : Replay)

structure Task where
  kind : Kind
  activity : Activity
  /-- The streams that were registered before it began have a smaller generation. -/
  since : Nat
  /-- Which commit of its key it speaks of. -/
  commit : Nat := 0
  /-- Whether it was cut short. -/
  cancelled : Bool := false

namespace Task

def ticket? (t : Task) : Option Nat :=
  match t.activity with
  | .cycle y => y.ticket?
  | .replay r => r.ticket?

def push? (t : Task) : Option Hub.PacedRef :=
  match t.activity with
  | .cycle _ => none
  | .replay r => r.push?

def owes (t : Task) : List Event :=
  match t.activity with
  | .cycle y => y.owes
  | .replay _ => []

def owesTo (t : Task) (g : Nat) : List Event :=
  match t.activity with
  | .cycle y => y.owesTo g
  | .replay _ => []

theorem mem_owes {t : Task} {g : Nat} {e : Event} (h : e ∈ t.owesTo g) : e ∈ t.owes := by
  unfold owesTo at h
  unfold owes
  cases ha : t.activity <;> simp only [ha] at h
  case cycle y => exact y.mem_owes h
  case replay => exact h

end Task

/-! ## What has happened -/

structure Commit where
  kind : Kind
  key : Key
  left : Option Entry

/-- What commits under a key left, the oldest first. -/
def leftsOf (commits : List Commit) (kind : Kind) (key : Key) : List (Option Entry) :=
  (commits.filter fun x => x.kind = kind ∧ x.key = key).map Commit.left

theorem leftsOf_append (commits made : List Commit) (kind : Kind) (key : Key) :
    leftsOf (commits ++ made) kind key = leftsOf commits kind key ++ leftsOf made kind key := by
  simp [leftsOf]

structure Sent where
  stream : Nat
  event : Event
  /-- The commit it speaks of, counted from 0 for each key. -/
  commit : Nat
  task : Nat

/-- The items that a step of the hub adds to its streams. -/
def Hub.sends {α : Type} (h h' : Hub α) : List (Nat × α) :=
  h.streams.keys.flatMap fun g => ((h'.logOf g).drop (h.logOf g).length).map fun e => (g, e)

structure World extends Daemon where
  tasks : Table Nat Task := ∅
  nextTask : Nat := 0
  commits : List Commit := []
  sent : List Sent := []

namespace World

def lefts (w : World) (kind : Kind) (key : Key) : List (Option Entry) := leftsOf w.commits kind key

/-! ## Steps -/

/-- A task comes to a new state by a step of its collector and of the hub. -/
def advance (w : World) (i : Nat) (t : Task) (c : Collector) (hub : Hub Event)
    (made : List Commit) : World :=
  { w with
    hub
    collectors := w.collectors.insert t.kind c
    tasks := w.tasks.insert i t
    nextTask := max w.nextTask (i + 1)
    commits := w.commits ++ made
    sent := w.sent ++ (w.hub.sends hub).map fun (g, e) => ⟨g, e, t.commit, i⟩ }

def beginCycle (w : World) (kind : Kind) (key : Key) (c : Collector) : World :=
  let (y, c) := c.beginCycle key
  w.advance w.nextTask { kind, activity := .cycle y, since := w.hub.nextGeneration } c w.hub []

def beginReplay (w : World) (kind : Kind) (node : String) (c : Collector) (hub : Hub Event) :
    World :=
  let r := c.beginReplay node
  w.advance w.nextTask { kind, activity := .replay r, since := w.hub.nextGeneration } c hub []

/-- A cycle speaks of the commit it makes. -/
def moveCycle (w : World) (i : Nat) (t : Task) (c : Collector) (y : Cycle) (m : Cycle.Move) :
    Option World :=
  (c.moveCycle w.hub y m).map fun (y', c', hub) =>
    if y.commits m then
      w.advance i { t with activity := .cycle y', commit := (w.lefts t.kind y.key).length } c' hub
        [⟨t.kind, y.key, c'.cache.get? y.key⟩]
    else w.advance i { t with activity := .cycle y' } c' hub []

/-- A replay speaks of the commit that left the entry it reads. -/
def moveReplay (w : World) (i : Nat) (t : Task) (c : Collector) (r : Replay) (m : Replay.Move) :
    Option World :=
  (c.moveReplay w.hub r m).map fun (r', c', hub) =>
    let commit := match r.reads? m with
      | some key => (w.lefts t.kind key).length - 1
      | none => t.commit
    w.advance i
      { t with activity := .replay r', commit, cancelled := t.cancelled || r.isCutBy m } c' hub []

inductive Wish where
  | register (node : String)
  | announce (node : String)
  | unregister (node : String)
  | leave (generation : Nat)
  | receive (generation : Nat)

def grant (h : Hub Event) : Wish → Hub Event
  | .register node => (h.register node).2
  | .announce node => h.notifyJoin node
  | .unregister node => (h.unregister node).2
  | .leave generation => h.drop generation
  | .receive generation => (h.receive generation).2

inductive Action where
  | reconcile (kind : Kind) (key : Key)
  /-- A join loop takes the oldest join and begins its replay. -/
  | join (kind : Kind)
  | cycle (task : Nat) (m : Cycle.Move)
  | replay (task : Nat) (m : Replay.Move)
  | wish (wish : Wish)

def step (w : World) : Action → Option World
  | .reconcile kind key => (w.collectors.get? kind).map fun c => w.beginCycle kind key c
  | .join kind => do
    let c ← w.collectors.get? kind
    let (node, hub) ← w.hub.nextJoin c.listener
    return w.beginReplay kind node c hub
  | .cycle i m => do
    let t ← w.tasks.get? i
    let c ← w.collectors.get? t.kind
    match t.activity with
    | .cycle y => w.moveCycle i t c y m
    | .replay _ => none
  | .replay i m => do
    let t ← w.tasks.get? i
    let c ← w.collectors.get? t.kind
    match t.activity with
    | .cycle _ => none
    | .replay r => w.moveReplay i t c r m
  | .wish wish => some { w with hub := grant w.hub wish }

/-- Every run begins with a daemon that knows nothing yet. -/
def start (s : Settings) : World := { s.daemon with }

inductive Reachable : World → Prop where
  | start (s : Settings) : Reachable (start s)
  | step {w w' : World} (a : Action) : Reachable w → w.step a = some w' → Reachable w'

def run (w : World) (as : List Action) : Option World := as.foldlM step w

theorem Reachable.run {w w' : World} (h : Reachable w) {as : List Action}
    (hr : w.run as = some w') : Reachable w' :=
  foldlM_keeps h hr fun a _ _ _ h hs => .step a h hs

/-! ## The record of what has happened -/

theorem lefts_advance (w : World) (i : Nat) (t : Task) (c : Collector) (hub : Hub Event)
    (made : List Commit) (kind : Kind) (key : Key) :
    (w.advance i t c hub made).lefts kind key = w.lefts kind key ++ leftsOf made kind key :=
  leftsOf_append _ _ _ _

end World

theorem flatMap_single {β : Type} {ks : List Nat} (hn : ks.Nodup) (g : Nat) (b : β) :
    (ks.flatMap fun k => if k = g then [b] else []) = if g ∈ ks then [b] else [] := by
  induction ks with
  | nil => rfl
  | cons k rest ih =>
    obtain ⟨hk, hrest⟩ := List.nodup_cons.1 hn
    rw [List.flatMap_cons, ih hrest]
    by_cases e : k = g
    · subst e
      simp [hk]
    · simp [e, Ne.symm e]

theorem Hub.Moves.sends {α : Type} {h h' : Hub α} {sent : Option (Nat × α)}
    {spent : Option PacedRef} (m : Moves h h' sent spent)
    (hknown : ∀ x, sent = some x → ∃ n, h.nodeOf x.1 = some n) : h.sends h' = sent.toList := by
  have hlog : ∀ g, (h'.logOf g).drop (h.logOf g).length =
      (sent.toList.filter fun x => x.1 = g).map Prod.snd := by
    intro g
    rw [m.log, List.drop_left]
  simp only [Hub.sends, hlog]
  cases sent with
  | none => simp
  | some x =>
    obtain ⟨g, e⟩ := x
    obtain ⟨n, hn⟩ := hknown _ rfl
    obtain ⟨s, hs, -⟩ := nodeOf_eq_some.1 hn
    have hmem : g ∈ h.streams.keys := (Table.mem_keys_iff _ _).2 ⟨s, hs⟩
    have hone := flatMap_single h.streams.keys_nodup g (g, e)
    rw [if_pos hmem] at hone
    refine Eq.trans ?_ hone
    congr 1
    funext k
    by_cases hk : k = g
    · subst hk
      simp
    · simp [hk, Ne.symm hk]

end Nodecast
