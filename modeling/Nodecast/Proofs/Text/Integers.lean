/-!
# Integers in text

An integer is written with digits and perhaps a minus sign, so its text ends where something else
begins, and tells which integer it is.
-/

namespace Nodecast.Text

variable {c : Char} {n m : Int} {rest rest' : List Char}

/-- The characters of which integers are made. -/
def isNumeric (c : Char) : Bool := c = '-' || c.isDigit

theorem toList_toString_ofNat (n : Nat) :
    (toString (Int.ofNat n)).toList = Nat.toDigits 10 n := by
  rw [Int.toString_eq_repr]
  exact String.toList_ofList

theorem toList_toString_negSucc (n : Nat) :
    (toString (Int.negSucc n)).toList = '-' :: Nat.toDigits 10 (n + 1) := by
  rw [Int.toString_eq_repr]
  show ("-" ++ String.ofList (Nat.toDigits 10 (n + 1))).toList = _
  simp

theorem isDigit_of_mem_digits {n : Nat} (h : c ∈ Nat.toDigits 10 n) : c.isDigit = true :=
  Nat.isDigit_of_mem_toDigits (by decide) (by decide) h

theorem isNumeric_of_mem (h : c ∈ (toString n).toList) : isNumeric c = true := by
  unfold isNumeric
  cases n with
  | ofNat n =>
    rw [toList_toString_ofNat] at h
    simp [isDigit_of_mem_digits h]
  | negSucc n =>
    rw [toList_toString_negSucc, List.mem_cons] at h
    rcases h with rfl | h
    · simp
    · simp [isDigit_of_mem_digits h]

theorem digits_inj {n m : Nat} (h : Nat.toDigits 10 n = Nat.toDigits 10 m) : n = m := by
  have hread := congrArg (Nat.ofDigitChars 10 · 0) h
  simpa [Nat.ofDigitChars_ten_toDigits] using hread

theorem minus_not_mem_digits (n : Nat) : '-' ∉ Nat.toDigits 10 n := fun h => by
  have hdigit := isDigit_of_mem_digits h
  contradiction

theorem toString_int_inj (h : (toString n).toList = (toString m).toList) : n = m := by
  cases n with
  | ofNat n =>
    cases m with
    | ofNat m =>
      rw [toList_toString_ofNat, toList_toString_ofNat] at h
      rw [digits_inj h]
    | negSucc m =>
      rw [toList_toString_ofNat, toList_toString_negSucc] at h
      exact absurd (h ▸ List.mem_cons_self) (minus_not_mem_digits n)
  | negSucc n =>
    cases m with
    | ofNat m =>
      rw [toList_toString_ofNat, toList_toString_negSucc] at h
      exact absurd (h ▸ List.mem_cons_self) (minus_not_mem_digits m)
    | negSucc m =>
      rw [toList_toString_negSucc, toList_toString_negSucc, List.cons.injEq] at h
      have hnm := digits_inj h.2
      rw [Nat.add_right_cancel hnm]

theorem head?_toString_int (n : Int) : ∃ c ∈ (toString n).toList.head?, isNumeric c = true := by
  have hne : (toString n).toList ≠ [] := by
    cases n with
    | ofNat n => rw [toList_toString_ofNat]; exact Nat.toDigits_ne_nil
    | negSucc n => rw [toList_toString_negSucc]; exact List.cons_ne_nil _ _
  obtain ⟨c, cs, hcs⟩ := List.exists_cons_of_ne_nil hne
  have hc : c ∈ (toString n).toList := by rw [hcs]; exact List.mem_cons_self
  exact ⟨c, by rw [hcs]; rfl, isNumeric_of_mem hc⟩

/-! ## Integers with something behind them -/

/-- An integer does not go on here. -/
def Ends (rest : List Char) : Prop := ∀ c ∈ rest.head?, isNumeric c = false

theorem ends_cons (h : isNumeric c = false) : Ends (c :: rest) := by
  intro d hd
  rw [List.head?_cons, Option.mem_def, Option.some.injEq] at hd
  rwa [← hd]

theorem takeWhile_int (hr : Ends rest) :
    ((toString n).toList ++ rest).takeWhile isNumeric = (toString n).toList := by
  have hrest : rest.takeWhile isNumeric = [] := by
    cases rest with
    | nil => rfl
    | cons c rest => simp [hr c rfl]
  rw [List.takeWhile_append_of_pos fun c hc => isNumeric_of_mem hc, hrest, List.append_nil]

theorem toString_append_inj (hr : Ends rest) (hr' : Ends rest')
    (h : (toString n).toList ++ rest = (toString m).toList ++ rest') : n = m ∧ rest = rest' := by
  have htaken := congrArg (List.takeWhile isNumeric) h
  rw [takeWhile_int hr, takeWhile_int hr'] at htaken
  rw [htaken, List.append_cancel_left_eq] at h
  exact ⟨toString_int_inj htaken, h⟩

end Nodecast.Text
