import Nodecast.Log.Record
import Nodecast.Metrics.Report
import Nodecast.Proofs.Text.Integers

/-!
# Points in the metrics file

Every point is one line without a line feed, and nothing in the file parts one point from the next.
So the lines of the file are the points only as long as there is at most one.
-/

namespace Nodecast

/-! ## Lines of a text -/

/-- What stands before each line feed, and what is left behind the last one. -/
def Text.lines : List Char → List (List Char)
  | [] => []
  | c :: cs =>
    if c = '\n' then [] :: lines cs
    else match lines cs with
      | [] => [[c]]
      | l :: ls => (c :: l) :: ls

theorem Text.lines_of_not_mem {cs : List Char} (h : '\n' ∉ cs) :
    Text.lines cs = if cs.isEmpty then [] else [cs] := by
  induction cs with
  | nil => rfl
  | cons c cs ih =>
    have hc : c ≠ '\n' := fun e => h (e ▸ List.mem_cons_self)
    have hcs : '\n' ∉ cs := fun m => h (List.mem_cons_of_mem _ m)
    unfold Text.lines
    rw [if_neg hc, ih hcs]
    cases cs <;> rfl

theorem Text.trimEnd_eq {s : String} (h : ∀ c ∈ s.toList.getLast?, Text.isBlank c = false) :
    Text.trimEnd s = s := by
  unfold Text.trimEnd
  have hdrop : s.toList.reverse.dropWhile Text.isBlank = s.toList.reverse := by
    cases hr : s.toList.reverse with
    | nil => rfl
    | cons c cs =>
      have hlast : s.toList.getLast? = some c := by rw [← List.head?_reverse, hr]; rfl
      rw [List.dropWhile_cons_of_neg]
      simp [h c hlast]
  rw [hdrop, List.reverse_reverse, String.ofList_toList]

theorem Text.isBlank_of_isNumeric {c : Char} (h : Text.isNumeric c = true) :
    Text.isBlank c = false := by
  simp only [Text.isNumeric, Char.isDigit, Bool.or_eq_true, decide_eq_true_eq,
    Bool.and_eq_true] at h
  rcases h with rfl | ⟨hlow, hhigh⟩
  · rfl
  · have h1 : 48 ≤ c.toNat := hlow
    have h2 : c.toNat ≤ 57 := hhigh
    simp [Text.isBlank, Text.blankRanges]
    omega

theorem Text.not_mem_toString (n : Int) : '\n' ∉ (toString n).toList := fun h =>
  absurd (Text.isNumeric_of_mem h) (by decide)

theorem Named.mem_place {β : Type} {name : String} {value : β} {p : String × β}
    {l : List (String × β)} (h : p ∈ place name value l) : p = (name, value) ∨ p ∈ l := by
  induction l with
  | nil => exact Or.inl (List.mem_singleton.1 h)
  | cons q l ih =>
    unfold place at h
    split at h
    · exact List.mem_cons.1 h
    · split at h
      · rcases List.mem_cons.1 h with rfl | h
        · exact Or.inl rfl
        · exact Or.inr (List.mem_cons_of_mem _ h)
      · rcases List.mem_cons.1 h with rfl | h
        · exact Or.inr List.mem_cons_self
        · exact (ih h).imp_right (List.mem_cons_of_mem _)

theorem Named.mem_insert {β : Type} {l : Named β} {name : String} {value : β} {p : String × β}
    (h : p ∈ (l.insert name value).pairs) : p = (name, value) ∨ p ∈ l.pairs := mem_place h

namespace Metrics

variable {c : Char} {p : Point} {timestamp : Int}

namespace Point

/-! ## The text of a point -/

theorem encode_eq (p : Point) (timestamp : Int) :
    p.encode timestamp = String.ofList (p.body ++ ' ' :: (toString timestamp).toList) := by
  unfold encode
  apply Text.trimEnd_eq
  intro c hc
  obtain ⟨d, hd, -⟩ := Text.head?_toString_int timestamp
  have hne : (toString timestamp).toList ≠ [] := fun he => by rw [he] at hd; cases hd
  rw [String.toList_ofList, List.getLast?_append, List.getLast?_cons,
    List.getLast?_eq_some_getLast hne] at hc
  simp only [Option.getD_some, Option.some_or, Option.mem_def, Option.some.injEq] at hc
  apply Text.isBlank_of_isNumeric
  apply Text.isNumeric_of_mem (n := timestamp)
  rw [← hc]
  exact List.getLast_mem hne

theorem encode_ne_empty (p : Point) (timestamp : Int) : p.encode timestamp ≠ "" := by
  rw [encode_eq]
  intro h
  have hl := congrArg String.toList h
  rw [String.toList_ofList] at hl
  exact List.append_ne_nil_of_right_ne_nil _ (List.cons_ne_nil _ _) hl

theorem mem_escape {special cs : List Char} (h : c ∈ escape special cs) (hc : c ≠ '\\') :
    c ∈ cs := by
  unfold escape at h
  obtain ⟨d, hd, h⟩ := List.mem_flatMap.1 h
  split at h
  · simp only [List.mem_cons, List.not_mem_nil, or_false] at h
    rw [h.resolve_left hc]
    exact hd
  · rw [List.mem_singleton] at h
    rwa [h]

/-- A name or a text of the point goes over several lines. Floats are not looked at. -/
def HasLineFeed (p : Point) : Prop :=
  '\n' ∈ p.measurement.toList ∨
    (∃ t ∈ p.tags.pairs, '\n' ∈ t.1.toList ∨ '\n' ∈ t.2.toList) ∨
    ∃ f ∈ p.fields.pairs, '\n' ∈ f.1.toList ∨ ∃ s, f.2 = .text s ∧ '\n' ∈ s.toList

theorem mem_encodeValue {v : FieldValue} (hv : ∀ x, v ≠ .float x) (h : '\n' ∈ encodeValue v) :
    ∃ s, v = .text s ∧ '\n' ∈ s.toList := by
  cases v with
  | text s =>
    simp only [encodeValue, List.mem_cons, List.mem_append] at h
    rcases h with h | h | h | h
    · cases h
    · exact ⟨s, rfl, mem_escape h (by decide)⟩
    · cases h
    · cases h
  | integer n =>
    rcases List.mem_append.1 h with h | h
    · exact absurd h (Text.not_mem_toString n)
    · cases List.mem_singleton.1 h
  | unsigned n =>
    rcases List.mem_append.1 h with h | h
    · exact absurd h (Text.not_mem_toString n)
    · cases List.mem_singleton.1 h
  | float x => exact absurd rfl (hv x)
  | boolean b => cases b <;> simp [encodeValue] at h

theorem mem_encodeTag {t : String × String} (h : '\n' ∈ encodeTag t) :
    '\n' ∈ t.1.toList ∨ '\n' ∈ t.2.toList := by
  simp only [encodeTag, List.mem_cons, List.mem_append] at h
  rcases h with h | h | h | h
  · cases h
  · exact Or.inl (mem_escape h (by decide))
  · cases h
  · exact Or.inr (mem_escape h (by decide))

theorem mem_encodeField {f : String × FieldValue} (hf : ∀ x, f.2 ≠ .float x)
    (h : '\n' ∈ encodeField f) : '\n' ∈ f.1.toList ∨ ∃ s, f.2 = .text s ∧ '\n' ∈ s.toList := by
  simp only [encodeField, List.mem_cons, List.mem_append] at h
  rcases h with h | h | h
  · exact Or.inl (mem_escape h (by decide))
  · cases h
  · exact Or.inr (mem_encodeValue hf h)

theorem mem_encodeFields {fs : List (String × FieldValue)} (h : '\n' ∈ encodeFields fs) :
    ∃ f ∈ fs, '\n' ∈ encodeField f := by
  fun_induction encodeFields fs with
  | case1 => cases h
  | case2 f => exact ⟨f, List.mem_singleton_self f, h⟩
  | case3 f rest _ ih =>
    rcases List.mem_append.1 h with h | h
    · exact ⟨f, List.mem_cons_self, h⟩
    · rcases List.mem_cons.1 h with h | h
      · cases h
      · obtain ⟨g, hg, h⟩ := ih h
        exact ⟨g, List.mem_cons_of_mem _ hg, h⟩

theorem hasLineFeed_of_mem_encode (hf : ∀ f ∈ p.fields.pairs, ∀ x, f.2 ≠ .float x)
    (h : '\n' ∈ (p.encode timestamp).toList) : p.HasLineFeed := by
  rw [encode_eq, String.toList_ofList] at h
  simp only [body, List.mem_append, List.mem_cons, List.mem_flatMap] at h
  rcases h with ((h | ⟨t, ht, h⟩) | h | h) | h | h
  · exact Or.inl (mem_escape h (by decide))
  · exact Or.inr (Or.inl ⟨t, ht, mem_encodeTag h⟩)
  · cases h
  · obtain ⟨f, hm, h⟩ := mem_encodeFields h
    unfold shownFields at hm
    split at hm
    · rw [List.mem_singleton.1 hm] at h
      exact absurd h (by decide)
    · exact Or.inr (Or.inr ⟨f, hm, mem_encodeField (hf f hm) h⟩)
  · cases h
  · exact absurd h (Text.not_mem_toString timestamp)

/-- All names have one line, and all values are counts. -/
structure Counts (p : Point) : Prop where
  plain : ¬ p.HasLineFeed
  counts : ∀ f ∈ p.fields.pairs, ∃ n, f.2 = .unsigned n

theorem counts_new {measurement : String} (h : '\n' ∉ measurement.toList) :
    Counts { measurement := measurement } where
  plain := by
    rintro (hm | ⟨t, ht, -⟩ | ⟨f, hf, -⟩)
    · exact h hm
    · cases ht
    · cases hf
  counts := fun f hf => by cases hf

theorem Counts.tag {name value : String} (h : Counts p) (hname : '\n' ∉ name.toList)
    (hvalue : '\n' ∉ value.toList) : Counts (p.tag name value) where
  plain := by
    rintro (hm | ⟨t, ht, hl⟩ | hf)
    · exact h.plain (Or.inl hm)
    · rcases Named.mem_insert ht with rfl | ht
      · exact hl.elim hname hvalue
      · exact h.plain (Or.inr (Or.inl ⟨t, ht, hl⟩))
    · exact h.plain (Or.inr (Or.inr hf))
  counts := h.counts

theorem Counts.field {name : String} (h : Counts p) (hname : '\n' ∉ name.toList) (n : Nat) :
    Counts (p.field name (.unsigned n)) where
  plain := by
    rintro (hm | ht | ⟨f, hf, hl⟩)
    · exact h.plain (Or.inl hm)
    · exact h.plain (Or.inr (Or.inl ht))
    · rcases Named.mem_insert hf with rfl | hf
      · rcases hl with hl | ⟨s, hs, -⟩
        · exact hname hl
        · cases hs
      · exact h.plain (Or.inr (Or.inr ⟨f, hf, hl⟩))
  counts := fun f hf => by
    rcases Named.mem_insert hf with rfl | hf
    · exact ⟨n, rfl⟩
    · exact h.counts f hf

theorem Counts.not_mem_encode (h : Counts p) : '\n' ∉ (p.encode timestamp).toList := by
  intro hmem
  apply h.plain
  apply hasLineFeed_of_mem_encode _ hmem
  intro f hf x hx
  obtain ⟨n, hn⟩ := h.counts f hf
  rw [hx] at hn
  cases hn

end Point

theorem counts_collectorPoint (d : Daemon) (c : Collector) : (collectorPoint d c).Counts := by
  unfold collectorPoint
  iterate 5 apply Point.Counts.field _ (by decide)
  apply Point.Counts.tag _ (by decide)
  · cases c.kind <;> decide
  · exact Point.counts_new (by decide)

theorem counts_hubPoint (s : Hub.Stats) : (hubPoint s).Counts := by
  unfold hubPoint
  iterate 4 apply Point.Counts.field _ (by decide)
  exact Point.counts_new (by decide)

theorem counts_of_mem_report {d : Daemon} (h : p ∈ report d) : p.Counts := by
  rcases List.mem_append.1 h with h | h
  · obtain ⟨c, -, rfl⟩ := List.mem_map.1 h
    exact counts_collectorPoint d c
  · rw [List.mem_singleton.1 h]
    exact counts_hubPoint d.hub.stats

/-! ## Reports in the file -/

variable {ss : List (Daemon × Int)} {line : String}

/-- The points of some reports, each with its time, in the order in which they are logged. -/
def logged (ss : List (Daemon × Int)) : List String :=
  ss.flatMap fun s => (report s.1).map fun p => p.encode s.2

/-- A point as it is logged. -/
def record (line : String) : Log.Record :=
  { level := .info, target := Log.reportTarget, fields := [("msg", .plain line)] }

/-- What the file gets from them. -/
def written (ss : List (Daemon × Int)) : String := Log.reports ((logged ss).map record)

theorem one_line_of_mem_logged (h : line ∈ logged ss) : line ≠ "" ∧ '\n' ∉ line.toList := by
  obtain ⟨s, -, h⟩ := List.mem_flatMap.1 h
  obtain ⟨p, hp, rfl⟩ := List.mem_map.1 h
  exact ⟨p.encode_ne_empty s.2, (counts_of_mem_report hp).not_mem_encode⟩

theorem reports_map_record (lines : List String) :
    Log.reports (lines.map record) = String.join lines := by
  unfold Log.reports
  rw [List.filter_eq_self.2, List.map_map]
  · congr 1
    rw [List.map_congr_left, List.map_id']
    intro line _
    simp [Log.Record.report, record, Log.Value.reported]
  · intro r hr
    obtain ⟨line, -, rfl⟩ := List.mem_map.1 hr
    simp [Log.Record.isReport, record]

theorem not_mem_written (ss : List (Daemon × Int)) : '\n' ∉ (written ss).toList := by
  unfold written
  rw [reports_map_record, String.toList_join]
  intro h
  obtain ⟨line, hl, h⟩ := List.mem_flatMap.1 h
  exact (one_line_of_mem_logged hl).2 h

theorem length_lines_written (ss : List (Daemon × Int)) :
    (Text.lines (written ss).toList).length ≤ 1 := by
  rw [Text.lines_of_not_mem (not_mem_written ss)]
  split <;> simp

/-- Nothing ends them, so they all stand on one line, and are the lines of the file only if there is
at most one of them. -/
theorem lines_written_iff (ss : List (Daemon × Int)) :
    (∀ line ∈ logged ss, line ≠ "" ∧ '\n' ∉ line.toList) ∧
      written ss = String.join (logged ss) ∧
      (Text.lines (written ss).toList = (logged ss).map String.toList ↔
        (logged ss).length ≤ 1) := by
  have hwritten : written ss = String.join (logged ss) := reports_map_record (logged ss)
  refine ⟨fun line => one_line_of_mem_logged, hwritten, ?_⟩
  constructor
  · intro h
    have hlen := congrArg List.length h
    rw [List.length_map] at hlen
    rw [← hlen]
    exact length_lines_written ss
  · intro h
    rw [Text.lines_of_not_mem (not_mem_written ss), hwritten]
    match hl : logged ss, h with
    | [], _ => rfl
    | [line], _ =>
      have hm : line ∈ logged ss := by rw [hl]; exact List.mem_cons_self
      simp [(one_line_of_mem_logged hm).1]

/-- Two reports of a daemon without collectors. -/
theorem not_lines_written_twice :
    Text.lines (written [({}, 7), ({}, 8)]).toList ≠
      (logged [({}, 7), ({}, 8)]).map String.toList := by
  intro h
  have hlen := congrArg List.length h
  have hone := length_lines_written [({}, 7), ({}, 8)]
  have htwo : ((logged [({}, 7), ({}, 8)]).map String.toList).length = 2 := by
    rw [List.length_map]
    rfl
  omega

end Metrics

end Nodecast
