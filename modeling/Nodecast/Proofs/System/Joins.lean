import Nodecast.Proofs.System.Known
import Nodecast.Proofs.System.Order

/-!
# Nodes that join

Once the replay for a node has come to its end, the stream of the node has been told all that the
cache holds for it, and each object by one event of the replay at most.
-/

namespace Nodecast

/-- The keys a replay has yet to deal with. -/
def Replay.ahead (r : Replay) : List Key :=
  match r.stage with
  | .listing unseen => r.rest ++ unseen
  | .visiting => r.rest
  | .locking key _ | .reaching key _ _ _ | .pacing key _ _ => key :: r.rest
  | .ended => []

/-- The stream that a replay is about to tell something. -/
def Replay.target? (r : Replay) : Option Nat :=
  match r.stage with
  | .reaching _ _ g _ => some g
  | .pacing _ _ push => some push.generation
  | _ => none

namespace World

variable {w w' : World} {i g : Nat} {t : Task} {c c' : Collector} {hub : Hub Event}
  {made : List Commit} {sent : Option (Nat × Event)} {spent : Option Hub.PacedRef} {key : Key}
  {r r' : Replay} {m : Replay.Move} {a : Action}

/-! ## What is settled behind a replay -/

/-- A replay that began when the stream was there leaves nothing behind that is not settled. -/
def CaughtUp (w : World) (t : Task) (r : Replay) (g : Nat) : Prop :=
  (∀ g', r.target? = some g' → g' = g) ∧
    ∀ key, key ∈ r.ahead ∨ w.Settled g t.kind key r.node

def Joined (w : World) : Prop :=
  ∀ ⦃i t r g⦄, w.tasks.get? i = some t → t.activity = .replay r → t.cancelled = false →
    w.hub.slots.get? r.node = some g → g < t.since → w.CaughtUp t r g

theorem Joined.advance (J : w.Joined) (S : w.Sound) (T : Turn w i t c c' hub made sent spent)
    (hown : ∀ {r g}, t.activity = .replay r → t.cancelled = false →
      hub.slots.get? r.node = some g → g < t.since →
      (w.advance i t c' hub made).CaughtUp t r g) :
    (w.advance i t c' hub made).Joined := by
  intro j t' r g ht ha hcancelled hslot hsince
  rw [get?_tasks_advance] at ht
  split at ht
  · cases ht
    exact hown ha hcancelled hslot hsince
  · have hold := Nat.lt_of_lt_of_le hsince (S.begun ht).2
    obtain ⟨hpush, hkeys⟩ := J ht ha hcancelled (T.moves.slot hold hslot) hsince
    exact ⟨hpush, fun key => (hkeys key).imp_right (T.settled S hslot hold)⟩

theorem Joined.withHub (J : w.Joined) (S : w.Sound) (m : Hub.Moves w.hub hub none none) :
    Joined { w with hub } := by
  intro i t r g ht ha hcancelled hslot hsince
  have hold := Nat.lt_of_lt_of_le hsince (S.begun ht).2
  obtain ⟨hpush, hkeys⟩ := J ht ha hcancelled (m.slot hold hslot) hsince
  refine ⟨hpush, fun key => (hkeys key).imp_right fun h => ?_⟩
  exact h.imp_right fun h => (told_withHub m g t.kind key).trans h

theorem Honest.settled_of_due_none (H : w.Honest) {n : String} {kind : Kind}
    (hslot : w.hub.slots.get? n = some g) (hdue : w.due kind key n = none) :
    w.Settled g kind key n := by
  rcases H hslot kind key with hnone | h
  · exact Or.inr (hnone.trans hdue.symm)
  · exact h

theorem caughtUp_beginReplay (H : w.Honest) {kind : Kind} {node : String}
    (ht : t.kind = kind) (hc : w.collectors.get? kind = some c)
    (hslot : w.hub.slots.get? node = some g) : w.CaughtUp t (c.beginReplay node) g := by
  refine ⟨by simp [Collector.beginReplay, Replay.target?], ?_⟩
  intro key
  by_cases hkey : key ∈ c.cache.keys
  · exact Or.inl hkey
  · have hnone : c.cache.get? key = none := by
      rw [Option.eq_none_iff_forall_ne_some]
      intro e he
      exact hkey ((Table.mem_keys_iff _ _).2 ⟨e, he⟩)
    rw [ht]
    refine Or.inr (H.settled_of_due_none hslot ?_)
    rw [due_eq hc, hnone]
    rfl

theorem due_of_replayed? (hc : w.collectors.get? t.kind = some c)
    (h : c.replayed? r key = none) : w.due t.kind key r.node = none := by
  rw [due_eq hc]
  have hf := Option.map_eq_none_iff.1 h
  simp only [shown, hf, Option.map_none]

/-- An item that is sent settles its object for the stream. -/
theorem settled_of_sent {entry : Entry} (S : w.Sound)
    (T : Turn w i t c c' hub made (some (g, entry.eventFor key r.node .added)) spent)
    (hcache : c.cache.get? key = some entry) :
    (w.advance i t c' hub made).Settled g t.kind key r.node := by
  have htold := T.told_eq_due rfl
  have hkind : (entry.eventFor key r.node .added).kind = t.kind := S.entries T.collector hcache
  rw [hkind] at htold
  exact Or.inr htold

/-- A replay that takes a step leaves only keys behind that are settled. -/
theorem caughtUp_replayStep (S : w.Sound) (H : w.Honest) (C : w.CaughtUp t r g)
    (ht : w.tasks.get? i = some t) (ha : t.activity = .replay r)
    (hc : w.collectors.get? t.kind = some c)
    (hstep : c.ReplayStep w.hub r m r' c' hub sent) {commit : Nat}
    (T : Turn w i { t with activity := .replay r', commit, cancelled := t.cancelled || r.isCutBy m }
      c c' hub [] sent spent)
    (hcut : r.isCutBy m = false) (hslot : hub.slots.get? r.node = some g) (hold : g < t.since) :
    let w' := w.advance i
      { t with activity := .replay r', commit, cancelled := t.cancelled || r.isCutBy m } c' hub []
    w'.CaughtUp t r' g := by
  intro w'
  obtain ⟨d, hd, hr⟩ := S.tasks ht
  rw [hc, Option.some.injEq] at hd
  subst hd
  simp only [Task.Sound, ha] at hr
  obtain ⟨htarget, hkeys⟩ := C
  have hknown := Nat.lt_of_lt_of_le hold (S.begun ht).2
  have hslot' := T.moves.slot hknown hslot
  have hsettled : ∀ {key}, w.Settled g t.kind key r.node → w'.Settled g t.kind key r.node :=
    T.settled S hslot hknown
  have hrest : r.stage = .listing [] ∨ r.stage = .visiting → r.ahead = r.rest := by
    rintro (h | h) <;> simp [Replay.ahead, h]
  -- The step leaves every key ahead, or all but one, which is settled.
  have hkept : ∀ {ks : List Key}, (∀ key ∈ r.ahead, key ∈ ks) →
      ∀ key, key ∈ ks ∨ w'.Settled g t.kind key r.node :=
    fun h key => (hkeys key).imp (h key) hsettled
  have hleft : ∀ {ks : List Key} {k : Key}, (∀ key ∈ r.ahead, key = k ∨ key ∈ ks) →
      w'.Settled g t.kind k r.node → ∀ key, key ∈ ks ∨ w'.Settled g t.kind key r.node := by
    intro ks k h hk key
    rcases hkeys key with hkey | hkey
    · exact (h key hkey).elim (fun he => Or.inr (he ▸ hk)) Or.inl
    · exact Or.inr (hsettled hkey)
  have hconnected : ∀ g', g' = g → w.hub.nodeOf g' = some r.node →
      (∀ n, w.hub.nodeOf g' = some n → hub.slots.get? n ≠ some g') → False := by
    rintro _ rfl hnode hgone
    exact hgone _ hnode hslot
  cases hstep with
  | list unseen k entry hs he hnew =>
    refine ⟨by simp [Replay.target?], hkept fun key hk => ?_⟩
    simp only [Replay.ahead, hs, List.mem_append] at hk ⊢
    by_cases hkey : key = k
    · simp [hkey]
    · exact hk.imp Or.inl (List.mem_erase_of_ne hkey).2
  | pass unseen k hs he hmem =>
    -- A key that is gone is not due.
    have hdue : w.due t.kind k r.node = none := by
      rw [due_eq hc, he]
      rfl
    refine ⟨by simp [Replay.target?], hleft (fun key hk => ?_)
      (hsettled (H.settled_of_due_none hslot' hdue))⟩
    simp only [Replay.ahead, hs, List.mem_append] at hk ⊢
    by_cases hkey : key = k
    · exact Or.inl hkey
    · exact Or.inr (hk.imp_right (List.mem_erase_of_ne hkey).2)
  | next k rest hs hr' =>
    refine ⟨by simp [Replay.target?], hkept fun key => ?_⟩
    rw [hrest hs, hr']
    exact id
  | stop cancelled hs hstop =>
    refine ⟨by simp [Replay.target?], hkept fun key => ?_⟩
    have hnone : r.rest = [] := by
      rcases hstop with rfl | h
      · simpa [Replay.isCutBy] using hcut
      · exact h
    simp [hrest hs, hnone]
  | skip k ticket hs hgranted hnone =>
    refine ⟨by simp [Replay.target?], hleft (fun key hk => ?_)
      (hsettled (H.settled_of_due_none hslot' (due_of_replayed? hc hnone)))⟩
    simpa [Replay.ahead, hs] using hk
  | reach k ticket e g' _ hs hgranted he hconn =>
    refine ⟨?_, hkept fun key => by simp [Replay.ahead, hs]⟩
    rintro _ ⟨⟩
    obtain ⟨entry, -, -, rfl⟩ := replayed?_eq_some he
    have hg : w.hub.slots.get? r.node = some g' := (Hub.connection?_eq_some.1 hconn).1
    rw [hslot', Option.some.injEq] at hg
    exact hg.symm
  | unheard k ticket e hs hgranted he hnone =>
    -- The node has a stream, so that it is found.
    obtain ⟨entry, -, -, rfl⟩ := replayed?_eq_some he
    have hgone : w.hub.slots.get? r.node = none := S.hub.connection?_eq_none hnone
    rw [hgone] at hslot'
    contradiction
  | stopped | cancel => simp [Replay.isCutBy] at hcut
  | reserve k ticket g' e hs =>
    refine ⟨?_, hkept fun key => by simp [Replay.ahead, hs]⟩
    rintro _ ⟨⟩
    exact htarget g' (by simp [Replay.target?, hs])
  | sent k ticket push e _ hs hp hi =>
    simp only [Replay.Sound, hs] at hr
    obtain ⟨-, -, hg, entry, hcache, hnode, hi'⟩ := hr
    rw [hi', Option.some.injEq] at hi
    subst hi
    obtain rfl : push.generation = g := htarget _ (by simp [Replay.target?, hs])
    refine ⟨by simp [Replay.target?], hleft (fun key hk => ?_) (settled_of_sent S T hcache)⟩
    simpa [Replay.ahead, hs] using hk
  | lost k ticket push failure _ hs hp =>
    simp only [Replay.Sound, hs] at hr
    obtain ⟨-, -, hg, -⟩ := hr
    have hpg : push.generation = g := htarget _ (by simp [Replay.target?, hs])
    exact (hconnected _ hpg hg (S.hub.resume_error hp).2).elim
  | expire k ticket push hs =>
    simp only [Replay.Sound, hs] at hr
    obtain ⟨-, -, hg, entry, -, -, hi⟩ := hr
    have hpg : push.generation = g := htarget _ (by simp [Replay.target?, hs])
    exact (hconnected _ hpg hg (S.hub.expire hi).2.2).elim

theorem replayStep_node (hstep : c.ReplayStep w.hub r m r' c' hub sent) : r'.node = r.node := by
  cases hstep with
  | expire k ticket push hs =>
    unfold Collector.replayPushed
    split <;> rfl
  | _ => rfl

theorem Joined.step (J : w.Joined) (H : w.Honest) (S : w.Sound) (h : w.step a = some w') :
    w'.Joined := by
  have H' : w'.Honest := H.step S h
  cases step_happens S h with
  | cycle y ha T =>
    refine J.advance S T fun ha' _ _ _ => ?_
    rw [ha] at ha'
    contradiction
  | join node T =>
    refine J.advance S T fun ha' _ hslot _ => ?_
    cases ha'
    exact caughtUp_beginReplay H' rfl (Table.get?_insert_self _ _ _) hslot
  | replay commit ht ha hstep T =>
    refine J.advance S T fun ha' hcancelled hslot hold => ?_
    cases ha'
    rw [Bool.or_eq_false_iff] at hcancelled
    rw [replayStep_node hstep] at hslot
    have hpre := T.moves.slot (Nat.lt_of_lt_of_le hold (S.begun ht).2) hslot
    exact caughtUp_replayStep S H (J ht ha hcancelled.1 hpre hold) ht ha T.collector hstep T
      hcancelled.2 hslot hold
  | wish m => exact J.withHub S m

theorem Reachable.honest (h : Reachable w) : w.Honest := by
  induction h with
  | start s =>
    intro n g hslot
    obtain ⟨st, hst, -⟩ := (sound_start s).hub.connected hslot
    rw [start_streams] at hst
    contradiction
  | step a hw hs ih => exact ih.step hw.sound hs

theorem Reachable.joined (h : Reachable w) : w.Joined := by
  induction h with
  | start s =>
    intro i t r g ht
    contradiction
  | step a hw hs ih => exact ih.step hw.honest hw.sound hs

/-! ## How often a replay tells of an object -/

/-- The keys that a task has sent items about. -/
def sentBy (w : World) (i : Nat) : List Key :=
  (w.sent.filter fun x => x.task = i).map fun x => x.event.key

/-- No replay deals with a key twice. -/
structure Once (w : World) : Prop where
  begun : ∀ x ∈ w.sent, x.task < w.nextTask
  replays : ∀ {i t r}, w.tasks.get? i = some t → t.activity = .replay r →
    (w.sentBy i ++ r.ahead).Nodup
  /-- A replay that still lists keys has told nothing yet. -/
  silent : ∀ {i t r unseen}, w.tasks.get? i = some t → t.activity = .replay r →
    r.stage = .listing unseen → w.sentBy i = []

theorem sentBy_advance (T : Turn w i t c c' hub made sent spent) (j : Nat) :
    (w.advance i t c' hub made).sentBy j =
      w.sentBy j ++ if j = i then sent.toList.map fun x => x.2.key else [] := by
  unfold sentBy
  rw [T.sent_advance, List.filter_append, List.map_append]
  congr 1
  cases sent with
  | none => simp
  | some x =>
    by_cases hj : j = i
    · simp [hj]
    · simp [hj, Ne.symm hj]

theorem Once.advance (O : w.Once) (T : Turn w i t c c' hub made sent spent)
    (hown : ∀ {r}, t.activity = .replay r →
      (w.sentBy i ++ sent.toList.map (fun x => x.2.key) ++ r.ahead).Nodup ∧
        ∀ unseen, r.stage = .listing unseen → w.sentBy i = [] ∧ sent = none) :
    (w.advance i t c' hub made).Once where
  begun := by
    intro x hx
    show x.task < max w.nextTask (i + 1)
    rw [T.sent_advance] at hx
    rcases List.mem_append.1 hx with hx | hx
    · have := O.begun x hx
      omega
    · obtain ⟨y, -, rfl⟩ := List.mem_map.1 hx
      show i < max w.nextTask (i + 1)
      omega
  replays := by
    intro j t' r ht ha
    rw [get?_tasks_advance] at ht
    rw [sentBy_advance T]
    split at ht
    · next hj =>
      subst hj
      cases ht
      rw [if_pos rfl]
      exact (hown ha).1
    · next hj =>
      rw [if_neg hj, List.append_nil]
      exact O.replays ht ha
  silent := by
    intro j t' r unseen ht ha hs
    rw [get?_tasks_advance] at ht
    rw [sentBy_advance T]
    split at ht
    · next hj =>
      subst hj
      cases ht
      obtain ⟨hnone, hsent⟩ := (hown ha).2 unseen hs
      simp [hnone, hsent]
    · next hj =>
      rw [if_neg hj, List.append_nil]
      exact O.silent ht ha hs

theorem nodup_listed {rest unseen : List Key} (h : (rest ++ unseen).Nodup) (hnew : key ∉ rest) :
    (rest ++ [key] ++ unseen.erase key).Nodup := by
  obtain ⟨hrest, hunseen, hapart⟩ := List.nodup_append.1 h
  rw [List.append_assoc]
  refine List.nodup_append.2 ⟨hrest, ?_, ?_⟩
  · exact List.nodup_cons.2 ⟨hunseen.not_mem_erase, hunseen.erase key⟩
  · intro a ha b hb
    rcases List.mem_cons.1 hb with rfl | hb
    · rintro rfl
      exact hnew ha
    · exact hapart a ha b (List.mem_of_mem_erase hb)

theorem Once.step (O : w.Once) (S : w.Sound) (h : w.step a = some w') : w'.Once := by
  cases step_happens S h with
  | cycle y ha T =>
    refine O.advance T fun ha' => ?_
    rw [ha] at ha'
    contradiction
  | @join kind c hub node T =>
    refine O.advance T fun ha' => ?_
    cases ha'
    have hnone : w.sentBy w.nextTask = [] := by
      simp only [sentBy, List.map_eq_nil_iff, List.filter_eq_nil_iff, decide_eq_true_eq]
      intro x hx he
      exact absurd (O.begun x hx) (by omega)
    rw [hnone]
    exact ⟨c.cache.keys_nodup, fun _ _ => ⟨rfl, rfl⟩⟩
  | @replay i t c c' hub sent spent r r' m commit ht ha hstep T =>
    refine O.advance T fun ha' => ?_
    cases ha'
    obtain ⟨d, hd, hr⟩ := S.tasks ht
    have hnodup := O.replays ht ha
    have hfewer : ∀ {ks : List Key}, ks.Sublist r.ahead →
        (w.sentBy i ++ [] ++ ks).Nodup := by
      intro ks hks
      rw [List.append_nil]
      exact (hks.append_left _).nodup hnodup
    have hrest : r.stage = .listing [] ∨ r.stage = .visiting → r.ahead = r.rest := by
      rintro (h | h) <;> simp [Replay.ahead, h]
    cases hstep with
    | list unseen k entry hs he hnew =>
      have hsilent := O.silent ht ha hs
      refine ⟨?_, fun _ _ => ⟨hsilent, rfl⟩⟩
      rw [hsilent, Replay.ahead, hs] at hnodup
      rw [hsilent]
      exact nodup_listed hnodup hnew
    | pass unseen k hs =>
      refine ⟨hfewer ?_, fun _ _ => ⟨O.silent ht ha hs, rfl⟩⟩
      simp [Replay.ahead, hs, List.erase_sublist]
    | next k rest hs hr' =>
      refine ⟨hfewer ?_, by simp⟩
      rw [hrest hs, hr']
      exact List.Sublist.refl _
    | skip k ticket hs =>
      refine ⟨hfewer ?_, by simp⟩
      simp [Replay.ahead, hs]
    | reach k ticket e g s hs | reserve k ticket g e hs =>
      refine ⟨hfewer ?_, by simp⟩
      simp [Replay.ahead, hs]
    | sent k ticket push e _ hs hp hi =>
      simp only [Task.Sound, ha, Replay.Sound, hs] at hr
      obtain ⟨-, -, -, entry, -, -, hi'⟩ := hr
      rw [hi', Option.some.injEq] at hi
      subst hi
      refine ⟨?_, by simp⟩
      simpa [Replay.ahead, hs, eventFor_key] using hnodup
    | expire k ticket push hs =>
      simp only [Task.Sound, ha, Replay.Sound, hs] at hr
      obtain ⟨-, -, -, entry, -, -, hi⟩ := hr
      obtain ⟨-, ⟨failure, hf⟩, -⟩ := S.hub.expire hi
      rw [hf]
      exact ⟨hfewer (List.nil_sublist _), by simp [Collector.replayPushed]⟩
    | stop | unheard | stopped | lost | cancel => exact ⟨hfewer (List.nil_sublist _), by simp⟩
  | wish m => exact ⟨O.begun, O.replays, O.silent⟩

theorem Reachable.once (h : Reachable w) : w.Once := by
  induction h with
  | start s => constructor <;> intros <;> contradiction
  | step a hw hs ih => exact ih.step hw.sound hs

/-! ## After a join -/

/-- A replay came to its end without being cut short. Its node is still connected through a stream
that was registered before it began, and no cycle is between its commit and its last push. Then the
items of the stream tell exactly what the cache holds for the node. -/
theorem joined_told (h : Reachable w) (ht : w.tasks.get? i = some t) (ha : t.activity = .replay r)
    (hended : r.stage = .ended) (hcancelled : t.cancelled = false)
    (hslot : w.hub.slots.get? r.node = some g) (hsince : g < t.since)
    (hc : w.collectors.get? t.kind = some c)
    (hquiet : ∀ j t', w.tasks.get? j = some t' → t'.kind = t.kind → t'.owes = []) :
    (∀ key, (known (w.hub.logOf g) t.kind).get? key =
      ((c.cache.get? key).filter fun e => e.isAssociatedWith r.node).map fun e =>
        (e.uid, some e.fields)) ∧
    (w.sentBy i).Nodup := by
  constructor
  · intro key
    rcases (h.joined ht ha hcancelled hslot hsince).2 key with hk | howed | htold
    · simp [Replay.ahead, hended] at hk
    · obtain ⟨j, t', hj, hkind, e, he, -⟩ := howed
      have howes := Task.mem_owes he
      rw [hquiet j t' hj hkind] at howes
      contradiction
    · rw [due_eq hc] at htold
      exact htold
  · have hnodup := h.once.replays ht ha
    rwa [Replay.ahead, hended, List.append_nil] at hnodup

theorem joined_told_comeback :
    ∃ w t r c, Reachable w ∧ w.tasks.get? 1 = some t ∧ t.activity = .replay r ∧
      r.stage = .ended ∧ t.cancelled = false ∧ w.hub.slots.get? r.node = some 2 ∧ 2 < t.since ∧
      w.collectors.get? t.kind = some c ∧ c.cache.size = 1 ∧
      ∀ key, (known (w.hub.logOf 2) t.kind).get? key =
        ((c.cache.get? key).filter fun e => e.isAssociatedWith r.node).map fun e =>
          (e.uid, some e.fields) := by
  have hrun : ∃ w t r c, (start {}).run comeback = some w ∧ w.tasks.get? 1 = some t ∧
      t.activity = .replay r ∧ r.stage = .ended ∧ t.cancelled = false ∧
      w.hub.slots.get? r.node = some 2 ∧ 2 < t.since ∧ w.collectors.get? t.kind = some c ∧
      c.cache.size = 1 ∧ (∀ t' ∈ w.tasks.values, t'.owes = []) :=
    ⟨_, _, _, _, rfl, rfl, rfl, rfl, rfl, rfl, by decide, rfl, rfl, by decide⟩
  obtain ⟨w, t, r, c, hw, ht, ha, hended, hcancelled, hslot, hsince, hc, hsize, hquiet⟩ := hrun
  have hr := (Reachable.start {}).run hw
  refine ⟨w, t, r, c, hr, ht, ha, hended, hcancelled, hslot, hsince, hc, hsize, ?_⟩
  refine (joined_told hr ht ha hended hcancelled hslot hsince hc fun j t' hj _ => ?_).1
  exact hquiet t' (Table.mem_values_iff.2 ⟨j, hj⟩)

end World

end Nodecast
