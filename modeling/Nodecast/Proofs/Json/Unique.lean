import Nodecast.Proofs.Json.Strings
import Nodecast.Proofs.Text.Integers

/-!
# JSON text is unambiguous

No two values have the same text, as long as their numbers are integers. A real number keeps its
spelling, so nothing can be said of it here.
-/

namespace Nodecast.Json

open Text (isNumeric Ends ends_cons head?_toString_int toString_append_inj)

variable {c : Char} {j j' : Json} {rest rest' : List Char}

/-! ## Shapes -/

/-- All numbers in the value are integers. -/
inductive Whole : Json → Prop where
  | null : Whole null
  | bool (b : Bool) : Whole (bool b)
  | int (n : Int) : Whole (int n)
  | text (s : String) : Whole (text s)
  | list {items : List Json} : (∀ j ∈ items, Whole j) → Whole (list items)
  | record {ms : List (String × Json)} : (∀ p ∈ ms, Whole p.2) → Whole (record ms)

inductive Shape where
  | null
  | bool
  | number
  | text
  | list
  | record
  /-- No value begins so. -/
  | none
deriving DecidableEq

def shape : Json → Shape
  | null => .null
  | bool _ => .bool
  | int _ | real _ => .number
  | text _ => .text
  | list _ => .list
  | record _ => .record

/-- The first character of a text gives away the shape of its value. -/
def shapeOf (c : Char) : Shape :=
  if c = 'n' then .null
  else if c = 't' ∨ c = 'f' then .bool
  else if c = '"' then .text
  else if c = '[' then .list
  else if c = '\x7b' then .record
  else if isNumeric c then .number
  else .none

theorem shapeOf_numeric (h : isNumeric c = true) : shapeOf c = .number := by
  have hne : ∀ d, isNumeric d = false → c ≠ d := by
    rintro d hd rfl
    rw [h] at hd
    contradiction
  unfold shapeOf
  simp [hne 'n' rfl, hne 't' rfl, hne 'f' rfl, hne '"' rfl, hne '[' rfl, hne '\x7b' rfl, h]

theorem head?_render (h : Whole j) : ∃ c ∈ j.render.head?, shapeOf c = j.shape := by
  cases h with
  | null => exact ⟨'n', rfl, rfl⟩
  | bool b =>
    cases b with
    | false => exact ⟨'f', rfl, rfl⟩
    | true => exact ⟨'t', rfl, rfl⟩
  | int n =>
    obtain ⟨c, hc, hn⟩ := head?_toString_int n
    exact ⟨c, by rw [render]; exact hc, shapeOf_numeric hn⟩
  | text s => exact ⟨'"', by rw [render]; rfl, rfl⟩
  | list _ => exact ⟨'[', by rw [render]; rfl, rfl⟩
  | record _ => exact ⟨'\x7b', by rw [render]; rfl, rfl⟩

theorem shape_eq (h : Whole j) (h' : Whole j') (he : j.render ++ rest = j'.render ++ rest') :
    j.shape = j'.shape := by
  obtain ⟨c, hc, hs⟩ := head?_render h
  obtain ⟨c', hc', hs'⟩ := head?_render h'
  have hhead := congrArg List.head? he
  rw [List.head?_append, List.head?_append, hc, hc'] at hhead
  simp only [Option.some_or, Option.some.injEq] at hhead
  rw [← hs, ← hs', hhead]

theorem render_ne (h : Whole j) (hc : shapeOf c = .none) : j.render ++ rest ≠ c :: rest' := by
  intro he
  obtain ⟨d, hd, hs⟩ := head?_render h
  have hhead := congrArg List.head? he
  rw [List.head?_append, hd] at hhead
  simp only [Option.some_or, List.head?_cons, Option.some.injEq] at hhead
  rw [hhead, hc] at hs
  cases j <;> contradiction

/-! ## Lists of texts -/

section Joined

variable {α : Type} {item : α → List Char} {close : Char} {Good : α → Prop} {l l' : List α}

/-- Texts with commas between them and a closing character behind them. -/
def joined (item : α → List Char) (close : Char) : List α → List Char
  | [] => [close]
  | a :: l => item a ++ if l.isEmpty then [close] else ',' :: joined item close l

theorem ends_joined_rest (hclose : isNumeric close = false) :
    Ends ((if l.isEmpty then [close] else ',' :: joined item close l) ++ rest) := by
  split
  · exact ends_cons hclose
  · exact ends_cons rfl

theorem joined_inj (hclose : isNumeric close = false) (hcomma : close ≠ ',')
    (hstart : ∀ a, Good a → ∀ r r', item a ++ r ≠ close :: r')
    (hl : ∀ a ∈ l, Good a) (hl' : ∀ a ∈ l', Good a)
    (hinj : ∀ a ∈ l, ∀ b, Good b → ∀ r r', Ends r → Ends r' →
      item a ++ r = item b ++ r' → a = b ∧ r = r')
    (h : joined item close l ++ rest = joined item close l' ++ rest') :
    l = l' ∧ rest = rest' := by
  induction l generalizing l' with
  | nil =>
    cases l' with
    | nil => exact ⟨rfl, List.append_cancel_left h⟩
    | cons b l' =>
      unfold joined at h
      rw [List.append_assoc] at h
      exact absurd h.symm (hstart b (hl' b List.mem_cons_self) _ _)
  | cons a l ih =>
    cases l' with
    | nil =>
      unfold joined at h
      rw [List.append_assoc] at h
      exact absurd h (hstart a (hl a List.mem_cons_self) _ _)
    | cons b l' =>
      unfold joined at h
      rw [List.append_assoc, List.append_assoc] at h
      obtain ⟨rfl, htail⟩ := hinj a List.mem_cons_self b (hl' b List.mem_cons_self) _ _
        (ends_joined_rest hclose) (ends_joined_rest hclose) h
      have hmore := ih (fun a ha => hl a (List.mem_cons_of_mem _ ha))
        (fun b hb => hl' b (List.mem_cons_of_mem _ hb))
        (fun a ha => hinj a (List.mem_cons_of_mem _ ha))
      -- A closing character against a comma: the lists have the same length.
      cases l <;> cases l' <;> simp only [List.isEmpty_nil, List.isEmpty_cons, Bool.false_eq_true,
        if_true, if_false, List.cons_append, List.nil_append, List.cons.injEq] at htail
      · exact ⟨rfl, htail.2⟩
      · exact absurd htail.1 hcomma
      · exact absurd htail.1.symm hcomma
      · obtain ⟨hlists, hrest⟩ := hmore htail.2
        exact ⟨by rw [hlists], hrest⟩

theorem length_le_joined (l : List α) : l.length ≤ (joined item close l).length := by
  induction l with
  | nil => exact Nat.zero_le _
  | cons a l ih =>
    unfold joined
    rw [List.length_append]
    split
    · next hl =>
      rw [List.isEmpty_iff.1 hl]
      exact Nat.le_add_left _ _
    · simp only [List.length_cons]
      omega

theorem mem_joined {c : Char} (h : c ∈ joined item close l) :
    c = close ∨ c = ',' ∨ ∃ a ∈ l, c ∈ item a := by
  induction l with
  | nil => exact Or.inl (List.mem_singleton.1 h)
  | cons a l ih =>
    unfold joined at h
    rcases List.mem_append.1 h with h | h
    · exact Or.inr (Or.inr ⟨a, List.mem_cons_self, h⟩)
    · split at h
      · exact Or.inl (List.mem_singleton.1 h)
      · rcases List.mem_cons.1 h with h | h
        · exact Or.inr (Or.inl h)
        · obtain h | h | ⟨b, hb, h⟩ := ih h
          · exact Or.inl h
          · exact Or.inr (Or.inl h)
          · exact Or.inr (Or.inr ⟨b, List.mem_cons_of_mem _ hb, h⟩)

end Joined

theorem renderItems_eq (items : List Json) : renderItems items = joined render ']' items := by
  induction items with
  | nil => rw [renderItems, joined]
  | cons j items ih =>
    cases items with
    | nil => rw [renderItems, joined]; rfl
    | cons k items =>
      rw [renderItems, joined, ih]
      · rfl
      · exact List.cons_ne_nil _ _

def renderMember (m : String × Json) : List Char := renderText m.1 ++ ':' :: m.2.render

theorem renderMembers_eq (ms : List (String × Json)) :
    renderMembers ms = joined renderMember '\x7d' ms := by
  induction ms with
  | nil => rw [renderMembers, joined]
  | cons m ms ih =>
    obtain ⟨name, j⟩ := m
    cases ms with
    | nil => rw [renderMembers, joined]; simp [renderMember]
    | cons m' ms =>
      rw [renderMembers, joined, ih]
      · simp [renderMember]
      · exact List.cons_ne_nil _ _

/-! ## Values -/

/-- A value ends where its text ends, if nothing stands there that could go on with a number. -/
theorem render_inj (hw : Whole j) (hw' : Whole j') (hr : Ends rest) (hr' : Ends rest')
    (h : j.render ++ rest = j'.render ++ rest') : j = j' ∧ rest = rest' := by
  have hshape := shape_eq hw hw' h
  induction hw generalizing j' rest rest' with
  | null =>
    cases hw' with
    | null => exact ⟨rfl, List.append_cancel_left h⟩
    | _ => contradiction
  | bool b =>
    cases hw' with
    | bool b' =>
      cases b <;> cases b'
      · exact ⟨rfl, List.append_cancel_left h⟩
      · simp [render, renderBool] at h
      · simp [render, renderBool] at h
      · exact ⟨rfl, List.append_cancel_left h⟩
    | _ => contradiction
  | int n =>
    cases hw' with
    | int m =>
      rw [render, render] at h
      obtain ⟨rfl, hrest⟩ := toString_append_inj hr hr' h
      exact ⟨rfl, hrest⟩
    | _ => contradiction
  | text s =>
    cases hw' with
    | text t =>
      rw [render, render] at h
      obtain ⟨rfl, hrest⟩ := renderText_inj h
      exact ⟨rfl, hrest⟩
    | _ => contradiction
  | list hitems ih =>
    cases hw' with
    | list hitems' =>
      rw [render, render, List.cons_append, List.cons_append, List.cons.injEq, renderItems_eq,
        renderItems_eq] at h
      have hstart : ∀ j, Whole j → ∀ r r', j.render ++ r ≠ ']' :: r' :=
        fun j hj r r' => render_ne hj rfl
      obtain ⟨rfl, hrest⟩ := joined_inj rfl (by decide) hstart hitems hitems'
        (fun j hj k hk r r' hr hr' he => ih j hj hk hr hr' he (shape_eq (hitems j hj) hk he)) h.2
      exact ⟨rfl, hrest⟩
    | _ => contradiction
  | @record ms hms ih =>
    cases hw' with
    | record hms' =>
      rw [render, render, List.cons_append, List.cons_append, List.cons.injEq, renderMembers_eq,
        renderMembers_eq] at h
      have hstart : ∀ m, Whole m.2 → ∀ r r', renderMember m ++ r ≠ '\x7d' :: r' := by
        intro m _ r r' he
        simp [renderMember, renderText] at he
      have hinj : ∀ m ∈ ms, ∀ m', Whole m'.2 → ∀ r r', Ends r → Ends r' →
          renderMember m ++ r = renderMember m' ++ r' → m = m' ∧ r = r' := by
        intro m hm m' hm' r r' hr hr' he
        unfold renderMember at he
        rw [List.append_assoc, List.append_assoc] at he
        obtain ⟨hname, hvalue⟩ := renderText_inj he
        rw [List.cons_append, List.cons_append, List.cons.injEq] at hvalue
        have hshape := shape_eq (hms m hm) hm' hvalue.2
        obtain ⟨hj, hrest⟩ := ih m hm hm' hr hr' hvalue.2 hshape
        exact ⟨Prod.ext hname hj, hrest⟩
      obtain ⟨rfl, hrest⟩ := joined_inj rfl (by decide) hstart hms hms' hinj h.2
      exact ⟨rfl, hrest⟩
    | _ => contradiction

theorem print_inj (hw : Whole j) (hw' : Whole j') (h : j.print = j'.print) : j = j' := by
  have hends : Ends [] := fun c hc => nomatch hc
  have he : j.render ++ [] = j'.render ++ [] := by
    rw [List.append_nil, List.append_nil]
    exact String.ofList_injective h
  exact (render_inj hw hw' hends hends he).1

end Nodecast.Json
