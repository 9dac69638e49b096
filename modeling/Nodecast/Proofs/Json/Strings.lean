import Nodecast.Json.Printer
import Nodecast.Json.Reader

/-!
# Strings in JSON text

What is written of a string is read back as that string, whatever follows it, and holds no control
character.
-/

namespace Nodecast.Json

variable {c d e : Char} {s t : String} {cs rest rest' : List Char}

/-! ## How a character is written -/

theorem le_hexDigit {n : Nat} (h : n < 16) : 0x20 ≤ (hexDigit n).toNat := by
  have hall : ∀ n : Fin 16, 0x20 ≤ (hexDigit n).toNat := by decide
  exact hall ⟨n, h⟩

theorem hexUnit?_hexDigit {n : Nat} (h : n < 0x20) :
    hexUnit? '0' '0' (hexDigit (n / 16)) (hexDigit (n % 16)) = some n := by
  have hall : ∀ n : Fin 0x20,
      hexUnit? '0' '0' (hexDigit (n / 16)) (hexDigit (n % 16)) = some n.val := by decide
  exact hall ⟨n, h⟩

theorem escape_cases (c : Char) :
    (∃ e, escape c = ['\\', e] ∧ e ≠ 'u' ∧ 0x20 ≤ e.toNat ∧ unescape? e = some c) ∨
    (c.toNat < 0x20 ∧
      escape c = ['\\', 'u', '0', '0', hexDigit (c.toNat / 16), hexDigit (c.toNat % 16)]) ∨
    (0x20 ≤ c.toNat ∧ c ≠ '"' ∧ c ≠ '\\' ∧ escape c = [c]) := by
  have pair : ∀ {e : Char}, escape c = ['\\', e] → e ≠ 'u' → 0x20 ≤ e.toNat →
      unescape? e = some c →
      ∃ e, escape c = ['\\', e] ∧ e ≠ 'u' ∧ 0x20 ≤ e.toNat ∧ unescape? e = some c :=
    fun hc hu hle he => ⟨_, hc, hu, hle, he⟩
  by_cases hq : c = '"'
  · subst hq; exact Or.inl (pair rfl (by decide) (by decide) rfl)
  by_cases hb : c = '\\'
  · subst hb; exact Or.inl (pair rfl (by decide) (by decide) rfl)
  by_cases h8 : c = '\x08'
  · subst h8; exact Or.inl (pair rfl (by decide) (by decide) rfl)
  by_cases hf : c = '\x0c'
  · subst hf; exact Or.inl (pair rfl (by decide) (by decide) rfl)
  by_cases hn : c = '\n'
  · subst hn; exact Or.inl (pair rfl (by decide) (by decide) rfl)
  by_cases hr : c = '\r'
  · subst hr; exact Or.inl (pair rfl (by decide) (by decide) rfl)
  by_cases ht : c = '\t'
  · subst ht; exact Or.inl (pair rfl (by decide) (by decide) rfl)
  unfold escape
  simp only [hq, hb, h8, hf, hn, hr, ht, if_false]
  split
  · next hlow => exact Or.inr (Or.inl ⟨hlow, rfl⟩)
  · next hhigh => exact Or.inr (Or.inr ⟨by omega, hq, hb, rfl⟩)

theorem le_of_mem_escape (h : d ∈ escape c) : 0x20 ≤ d.toNat := by
  obtain ⟨e, hc, -, hle, -⟩ | ⟨hlow, hc⟩ | ⟨hle, -, -, hc⟩ := escape_cases c
  · rw [hc] at h
    simp only [List.mem_cons, List.not_mem_nil, or_false] at h
    rcases h with rfl | rfl
    · decide
    · exact hle
  · have hhigh := le_hexDigit (show c.toNat / 16 < 16 by omega)
    have hrest := le_hexDigit (show c.toNat % 16 < 16 by omega)
    rw [hc] at h
    simp only [List.mem_cons, List.not_mem_nil, or_false] at h
    rcases h with rfl | rfl | rfl | rfl | rfl | rfl
    any_goals decide
    · exact hhigh
    · exact hrest
  · rw [hc, List.mem_singleton] at h
    rwa [h]

/-! ## How it is read -/

theorem readText_pair (hu : e ≠ 'u') (he : unescape? e = some c) :
    readText false ('\\' :: e :: rest) = withFirst c (readText false rest) := by
  rw [readText]
  · simp only [he]
  all_goals simp [hu]

theorem readText_hex {a b : Char} {n : Nat} (h : hexUnit? '0' '0' a b = some n) (hn : n < 0x20) :
    readText false ('\\' :: 'u' :: '0' :: '0' :: a :: b :: rest) =
      withFirst (Char.ofNat n) (readText false rest) := by
  have hlow : isLowUnit n = false := by simp [isLowUnit]; omega
  have hhigh : isHighUnit n = false := by simp [isHighUnit]; omega
  rw [readText]
  simp [h, hlow, hhigh]

theorem readText_plain (hc : 0x20 ≤ c.toNat) (hq : c ≠ '"') (hb : c ≠ '\\') :
    readText false (c :: rest) = withFirst c (readText false rest) := by
  rw [readText]
  · have hnot : ¬ c.toNat < 0x20 := by omega
    rw [if_neg hnot]
  all_goals simp [hq, hb]

theorem readText_escape (c : Char) (rest : List Char) :
    readText false (escape c ++ rest) = withFirst c (readText false rest) := by
  obtain ⟨e, hc, hu, -, he⟩ | ⟨hlow, hc⟩ | ⟨hle, hq, hb, hc⟩ := escape_cases c
  · rw [hc]
    exact readText_pair hu he
  · rw [hc]
    refine (readText_hex (hexUnit?_hexDigit hlow) hlow).trans ?_
    rw [Char.ofNat_toNat]
    rfl
  · rw [hc]
    exact readText_plain hle hq hb

/-! ## A whole string -/

theorem readText_escaped (cs rest : List Char) :
    readText false (cs.flatMap escape ++ '"' :: rest) = .ok (cs, rest) := by
  induction cs with
  | nil => rw [List.flatMap_nil, List.nil_append, readText]
  | cons c cs ih => rw [List.flatMap_cons, List.append_assoc, readText_escape, ih]; rfl

theorem renderText_append (s : String) (rest : List Char) :
    renderText s ++ rest = '"' :: (s.toList.flatMap escape ++ '"' :: rest) := by
  simp [renderText]

/-- A string ends where its text ends, so no other text can take its place. -/
theorem renderText_inj (h : renderText s ++ rest = renderText t ++ rest') :
    s = t ∧ rest = rest' := by
  rw [renderText_append, renderText_append, List.cons.injEq] at h
  have hread := congrArg (readText false) h.2
  rw [readText_escaped, readText_escaped] at hread
  simp only [Except.ok.injEq, Prod.mk.injEq, String.toList_inj] at hread
  exact hread

theorem le_of_mem_renderText (h : c ∈ renderText s) : 0x20 ≤ c.toNat := by
  unfold renderText at h
  simp only [List.mem_cons, List.mem_append, List.mem_flatMap, List.not_mem_nil, or_false] at h
  rcases h with rfl | ⟨d, -, hd⟩ | rfl
  · decide
  · exact le_of_mem_escape hd
  · decide

end Nodecast.Json
