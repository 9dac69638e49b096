import Nodecast.Event.Wire
import Nodecast.Proofs.Json.Unique

/-!
# Events are read back

The text of an event has no control characters in it, and reading it gives the event, with its
payload just when it has one.
-/

namespace Nodecast

theorem Kind.ofName?_name (k : Kind) : Kind.ofName? k.name = some k := by cases k <;> decide

theorem Change.ofName?_name (c : Change) : Change.ofName? c.name = some c := by cases c <;> decide

namespace Event

open Json (renderText renderMembers render skipGap)

variable {d d' d'' : Draft} {e : Event} {c : Char} {name value : String} {rest : List Char}
  {ms : List (String × Json)} {fuel : Nat}

/-! ## Single values -/

theorem skipGap_cons (h : Json.isGap c = false) : skipGap (c :: rest) = c :: rest := by
  unfold skipGap
  rw [List.dropWhile_cons_of_neg]
  simp [h]

theorem readString_render (s : String) (rest : List Char) :
    readString (renderText s ++ rest) = .ok (s, rest) := by
  rw [Json.renderText_append]
  unfold readString
  rw [skipGap_cons (by decide)]
  simp only [Json.readText_escaped]
  simp [Except.map]

theorem readOptional_render (s : String) (rest : List Char) :
    readOptional (renderText s ++ rest) = .ok (some s, rest) := by
  have hread := readString_render s rest
  rw [Json.renderText_append] at hread ⊢
  unfold readOptional
  rw [skipGap_cons (by decide)]
  show Except.map _ (readString _) = _
  rw [hread]
  rfl

theorem readTag_render {α : Type} {ofName? : String → Option α} {a : α}
    (h : ofName? name = some a) (rest : List Char) :
    readTag ofName? (renderText name ++ rest) = .ok (a, rest) := by
  have hread := readString_render name rest
  rw [Json.renderText_append] at hread ⊢
  unfold readTag
  rw [skipGap_cons (by decide)]
  show readOneOf ofName? _ = _
  unfold readOneOf
  rw [hread]
  simp only [bind, Except.bind, h]
  rfl

/-! ## Members -/

theorem readOnce_render {α : Type} {read : List Char → Json.Reading α} {a : α}
    (h : read (renderText value ++ rest) = .ok (a, rest)) :
    readOnce none read (':' :: (renderText value ++ rest)) = .ok (a, rest) := by
  unfold readOnce Json.readColon
  rw [skipGap_cons (by decide)]
  exact h

theorem readName_render (name : String) (rest : List Char) :
    Json.readName false (renderText name ++ rest) = .ok (name, rest) := by
  rw [Json.renderText_append]
  unfold Json.readName
  rw [skipGap_cons (by decide)]
  simp only [Json.readText_escaped]
  simp [Except.map]

/-- Reading the members, which are strings, takes the first draft to the second. -/
inductive Fills : Draft → List (String × Json) → Draft → Prop where
  | nil (d : Draft) : Fills d [] d
  | cons {d d' d'' : Draft} {name value : String} {ms : List (String × Json)}
      (h : ∀ rest, d.readMember name (':' :: (renderText value ++ rest)) = .ok (d', rest))
      (hms : Fills d' ms d'') : Fills d ((name, .text value) :: ms) d''

theorem Fills.readMembers (h : Fills d ms d') (hne : ms ≠ []) (hfuel : ms.length ≤ fuel)
    (rest : List Char) :
    Draft.readMembers fuel d (renderMembers ms ++ rest) = .ok (d', rest) := by
  induction h generalizing fuel with
  | nil => contradiction
  | @cons d d' d'' name value ms h hms ih =>
    obtain ⟨fuel, rfl⟩ : ∃ k, fuel = k + 1 := Nat.exists_eq_add_one.2 (by simp at hfuel; omega)
    cases ms with
    | nil =>
      cases hms
      simp only [renderMembers, render, List.append_assoc, List.cons_append]
      unfold Draft.readMembers
      rw [readName_render]
      simp only [bind, Except.bind, h]
      rw [skipGap_cons (by decide)]
      rfl
    | cons m ms =>
      simp only [renderMembers, render, List.append_assoc, List.cons_append]
      unfold Draft.readMembers
      rw [readName_render]
      simp only [bind, Except.bind, h]
      rw [skipGap_cons (by decide)]
      exact ih (List.cons_ne_nil _ _) (by simpa using hfuel)

/-- A draft to which nothing is missing. -/
def known (e : Event) : Draft :=
  ⟨e.change, e.kind, e.uid, e.space, e.name, e.node, e.payload.map some⟩

theorem finish_known (e : Event) : e.known.finish = some e := by
  obtain ⟨_, _, _, _, _, _, payload⟩ := e
  cases payload <;> rfl

theorem fills_payload (hd : d.payload = none) (payload : Option String) :
    Fills d (payloadMember payload) { d with payload := payload.map some } := by
  cases payload with
  | none =>
    show Fills d [] { d with payload := none }
    rw [← hd]
    exact .nil d
  | some p =>
    refine .cons (fun rest => ?_) (.nil _)
    have h := readOnce_render (readOptional_render p rest)
    rw [← hd] at h
    exact congrArg (Except.map _) h

theorem fills_toJson (e : Event) : ∃ ms, e.toJson = .record ms ∧ ms ≠ [] ∧ Fills {} ms e.known := by
  have text := fun s rest => readOnce_render (readString_render s rest)
  have change := fun rest => readOnce_render (readTag_render e.change.ofName?_name rest)
  have kind := fun rest => readOnce_render (readTag_render e.kind.ofName?_name rest)
  refine ⟨_, rfl, List.cons_ne_nil _ _, ?_⟩
  refine .cons (fun rest => congrArg (Except.map _) (change rest)) ?_
  refine .cons (fun rest => congrArg (Except.map _) (kind rest)) ?_
  refine .cons (fun rest => congrArg (Except.map _) (text e.uid rest)) ?_
  refine .cons (fun rest => congrArg (Except.map _) (text e.space rest)) ?_
  refine .cons (fun rest => congrArg (Except.map _) (text e.name rest)) ?_
  refine .cons (fun rest => congrArg (Except.map _) (text e.node rest)) ?_
  exact fills_payload rfl e.payload

/-! ## The whole text -/

theorem encode_toList (h : e.toJson = .record ms) :
    e.encode.toList = '\x7b' :: renderMembers ms := by
  unfold encode Json.print
  rw [h, String.toList_ofList, render]

theorem Fills.head (h : Fills d ms d') (hne : ms ≠ []) :
    ∃ cs, renderMembers ms = '"' :: cs := by
  cases h with
  | nil => contradiction
  | cons _ hms => cases hms <;> exact ⟨_, rfl⟩

theorem decode_encode (e : Event) : decode e.encode = .ok e := by
  obtain ⟨ms, hjson, hne, hfills⟩ := fills_toJson e
  obtain ⟨cs, hcs⟩ := hfills.head hne
  have hfuel : ms.length ≤ (renderMembers ms).length + 1 := by
    rw [Json.renderMembers_eq]
    exact Nat.le_succ_of_le (Json.length_le_joined ms)
  have hmembers := hfills.readMembers hne hfuel []
  rw [List.append_nil, hcs] at hmembers
  have hrecord : Draft.readRecord ('"' :: cs) = .ok (e.known, []) := by
    unfold Draft.readRecord
    rw [skipGap_cons (by decide)]
    exact hmembers
  have hread : read e.encode.toList = .ok (e, []) := by
    rw [encode_toList hjson, hcs]
    unfold read
    rw [skipGap_cons (by decide)]
    show readRecord _ = _
    unfold readRecord
    rw [hrecord]
    simp only [bind, Except.bind, finish_known]
    rfl
  unfold decode Json.complete
  rw [hread]
  rfl

theorem Fills.texts (h : Fills d ms d') : ∀ m ∈ ms, ∃ s, m.2 = .text s := by
  induction h with
  | nil => exact fun m hm => absurd hm List.not_mem_nil
  | cons _ _ ih => exact List.forall_mem_cons.2 ⟨⟨_, rfl⟩, ih⟩

theorem le_of_mem_encode (h : c ∈ e.encode.toList) : 0x20 ≤ c.toNat := by
  obtain ⟨ms, hjson, -, hfills⟩ := fills_toJson e
  rw [encode_toList hjson, List.mem_cons] at h
  rcases h with rfl | h
  · decide
  · rw [Json.renderMembers_eq] at h
    obtain rfl | rfl | ⟨m, hm, h⟩ := Json.mem_joined h
    · decide
    · decide
    · obtain ⟨s, hs⟩ := hfills.texts m hm
      rw [Json.renderMember, hs, List.mem_append, List.mem_cons] at h
      rcases h with h | rfl | h
      · exact Json.le_of_mem_renderText h
      · decide
      · exact Json.le_of_mem_renderText h

end Event

end Nodecast
