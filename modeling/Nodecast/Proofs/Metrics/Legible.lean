import Mathlib.Data.List.Nodup
import Nodecast.Proofs.Metrics.Lines
import Nodecast.Table

/-!
# What the text of a point says

Separators never look like escaped text, and every value ends by itself. So the text of a point
without floats tells the point and its time.
-/

namespace Nodecast

/-! ## Values by name -/

namespace Named

variable {β : Type} {l m : Named β}

theorem lookup_eq_none {ps : List (String × β)} {a : String}
    (h : ∀ b ∈ ps.map Prod.fst, a < b) : ps.lookup a = none := by
  rw [List.lookup_eq_none_iff]
  intro p hp
  have hlt := h p.1 (List.mem_map_of_mem hp)
  exact bne_iff_ne.2 (String.ne_of_lt hlt)

theorem not_lt_head {ps qs : List (String × β)} {n k : String} {v w : β}
    (hq : (((k, w) :: qs).map Prod.fst).Pairwise (· < ·))
    (h : ((n, v) :: ps).lookup n = ((k, w) :: qs).lookup n) : ¬ n < k := by
  intro hlt
  have hall : ∀ b ∈ ((k, w) :: qs).map Prod.fst, n < b := by
    intro b hb
    rcases List.mem_cons.1 hb with rfl | hb
    · exact hlt
    · exact String.lt_trans hlt ((List.pairwise_cons.1 hq).1 b hb)
  rw [lookup_eq_none hall, List.lookup_cons_self] at h
  cases h

theorem pairs_ext {ps qs : List (String × β)} (hp : (ps.map Prod.fst).Pairwise (· < ·))
    (hq : (qs.map Prod.fst).Pairwise (· < ·)) (h : ∀ a, ps.lookup a = qs.lookup a) : ps = qs := by
  induction ps generalizing qs with
  | nil =>
    cases qs with
    | nil => rfl
    | cons q qs =>
      have hq := h q.1
      rw [List.lookup_nil, List.lookup_cons_self] at hq
      cases hq
  | cons p ps ih =>
    obtain ⟨n, v⟩ := p
    cases qs with
    | nil => simpa using h n
    | cons q qs =>
      obtain ⟨k, w⟩ := q
      -- The lesser of two first names would have a value in one list only.
      have hnk : ¬ n < k := not_lt_head hq (h n)
      have hkn : ¬ k < n := not_lt_head hp (h k).symm
      obtain rfl : n = k := String.le_antisymm (String.not_lt.1 hkn) (String.not_lt.1 hnk)
      obtain ⟨hpn, hps⟩ := List.pairwise_cons.1 hp
      obtain ⟨hqn, hqs⟩ := List.pairwise_cons.1 hq
      obtain rfl : v = w := by simpa using h n
      have hrest : ps = qs := by
        apply ih hps hqs
        intro a
        by_cases ha : a = n
        · rw [ha, lookup_eq_none hpn, lookup_eq_none hqn]
        · simpa [List.lookup_cons, beq_eq_false_iff_ne.2 ha] using h a
      rw [hrest]

theorem ext_get? (h : ∀ a, l.get? a = m.get? a) : l = m := by
  have hpairs := pairs_ext l.sorted m.sorted h
  cases l
  cases m
  subst hpairs
  rfl

end Named

namespace Metrics.Point

variable {special a b rest rest' : List Char} {f g : String × FieldValue} {v w : FieldValue}
  {p q : Point} {t t' : Int}

/-! ## Escaped text -/

/-- Escaped text does not go on here. -/
def Stops (special rest : List Char) : Prop := ∃ c ∈ rest.head?, c ∈ special

theorem stops_cons {c : Char} (h : c ∈ special) (rest : List Char) : Stops special (c :: rest) :=
  ⟨c, rfl, h⟩

theorem Stops.mono {special' : List Char} (h : Stops special rest) (hs : special ⊆ special') :
    Stops special' rest := by
  obtain ⟨c, hc, hmem⟩ := h
  exact ⟨c, hc, hs hmem⟩

theorem escape_cons (special : List Char) (c : Char) (cs : List Char) :
    escape special (c :: cs) = '\\' :: c :: escape special cs ∨
      (c ≠ '\\' ∧ c ∉ special ∧ escape special (c :: cs) = c :: escape special cs) := by
  unfold escape
  rw [List.flatMap_cons]
  by_cases hc : c = '\\' ∨ c ∈ special
  · rw [if_pos hc]
    exact Or.inl rfl
  · rw [if_neg hc]
    rw [not_or] at hc
    exact Or.inr ⟨hc.1, hc.2, rfl⟩

theorem not_stops_escape (hs : '\\' ∉ special) (c : Char) (cs rest : List Char) :
    ¬ Stops special (escape special (c :: cs) ++ rest) := by
  rintro ⟨d, hd, hmem⟩
  rcases escape_cons special c cs with h | ⟨-, hc, h⟩
  · rw [h] at hd
    cases hd
    exact hs hmem
  · rw [h] at hd
    cases hd
    exact hc hmem

theorem escape_cons_inj {c d : Char}
    (h : escape special (c :: a) ++ rest = escape special (d :: b) ++ rest') :
    c = d ∧ escape special a ++ rest = escape special b ++ rest' := by
  rcases escape_cons special c a with hc | ⟨hne, -, hc⟩ <;>
    rcases escape_cons special d b with hd | ⟨hne', -, hd⟩ <;>
    simp only [hc, hd, List.cons_append, List.cons.injEq] at h
  · exact h.2
  · exact absurd h.1.symm hne'
  · exact absurd h.1 hne
  · exact h

theorem escape_append_inj (hs : '\\' ∉ special) (hr : Stops special rest)
    (hr' : Stops special rest') (h : escape special a ++ rest = escape special b ++ rest') :
    a = b ∧ rest = rest' := by
  -- Where only one of the texts is at its end, the other would go on with a separator.
  induction a generalizing b with
  | nil =>
    cases b with
    | nil => exact ⟨rfl, h⟩
    | cons d b =>
      have hstop : Stops special (escape special (d :: b) ++ rest') := h ▸ hr
      exact absurd hstop (not_stops_escape hs d b rest')
  | cons c a ih =>
    cases b with
    | nil =>
      have hstop : Stops special (escape special (c :: a) ++ rest) := h ▸ hr'
      exact absurd hstop (not_stops_escape hs c a rest)
    | cons d b =>
      obtain ⟨rfl, htail⟩ := escape_cons_inj h
      obtain ⟨rfl, hrest⟩ := ih htail
      exact ⟨rfl, hrest⟩

theorem string_append_inj {n m : String} (hs : '\\' ∉ special) (hr : Stops special rest)
    (hr' : Stops special rest')
    (h : escape special n.toList ++ rest = escape special m.toList ++ rest') :
    n = m ∧ rest = rest' :=
  (escape_append_inj hs hr hr' h).imp_left String.toList_inj.1

theorem name_append_inj {n m : String}
    (h : escape inName n.toList ++ '=' :: rest = escape inName m.toList ++ '=' :: rest') :
    n = m ∧ rest = rest' := by
  have hstops : ∀ cs, Stops inName ('=' :: cs) := stops_cons (by decide)
  obtain ⟨hnm, hrest⟩ := string_append_inj (by decide) (hstops rest) (hstops rest') h
  exact ⟨hnm, (List.cons.inj hrest).2⟩

/-! ## Values -/

/-- What a value begins with. -/
inductive Opening where
  | quote
  | number
  | letter (b : Bool)

def openingOf (c : Char) : Option Opening :=
  if c = '"' then some .quote
  else if Text.isNumeric c then some .number
  else if c = 't' then some (.letter true)
  else if c = 'f' then some (.letter false)
  else none

def opening : FieldValue → Option Opening
  | .text _ => some .quote
  | .integer _ | .unsigned _ => some .number
  | .boolean b => some (.letter b)
  | .float _ => none

theorem openingOf_number (n : Int) (cs : List Char) :
    ((toString n).toList ++ cs).head?.bind openingOf = some .number := by
  obtain ⟨c, hc, hnumeric⟩ := Text.head?_toString_int n
  have hquote : c ≠ '"' := fun e => by rw [e] at hnumeric; cases hnumeric
  rw [List.head?_append, hc, Option.some_or, Option.bind_some, openingOf, if_neg hquote,
    if_pos hnumeric]

theorem opening_encodeValue (hv : ∀ x, v ≠ .float x) (rest : List Char) :
    (encodeValue v ++ rest).head?.bind openingOf = opening v := by
  cases v with
  | text s => rfl
  | integer n =>
    rw [encodeValue, List.append_assoc]
    exact openingOf_number n _
  | unsigned n =>
    rw [encodeValue, List.append_assoc]
    exact openingOf_number n _
  | float x => exact absurd rfl (hv x)
  | boolean b => cases b <;> rfl

theorem number_append_inj {n m : Int} {c d : Char} (hc : Text.isNumeric c = false)
    (hd : Text.isNumeric d = false)
    (h : (toString n).toList ++ [c] ++ rest = (toString m).toList ++ [d] ++ rest') :
    n = m ∧ c = d ∧ rest = rest' := by
  rw [List.append_assoc, List.append_assoc] at h
  obtain ⟨hnm, hletter⟩ := Text.toString_append_inj (Text.ends_cons hc) (Text.ends_cons hd) h
  exact ⟨hnm, List.cons.inj hletter⟩

theorem encodeValue_append_inj (hv : ∀ x, v ≠ .float x) (hw : ∀ x, w ≠ .float x)
    (h : encodeValue v ++ rest = encodeValue w ++ rest') : v = w ∧ rest = rest' := by
  have hopening : opening v = opening w := by
    rw [← opening_encodeValue hv rest, h, opening_encodeValue hw rest']
  -- Integers and unsigned numbers begin alike, and differ in their letter.
  cases v with
  | text s =>
    cases w with
    | text s' =>
      have hstops : ∀ cs, Stops inText ('"' :: cs) := stops_cons (by decide)
      simp only [encodeValue, List.cons_append, List.append_assoc, List.nil_append,
        List.cons.injEq, true_and] at h
      obtain ⟨rfl, hrest⟩ := string_append_inj (by decide) (hstops rest) (hstops rest') h
      exact ⟨rfl, (List.cons.inj hrest).2⟩
    | integer | unsigned | boolean | float => cases hopening
  | integer n =>
    cases w with
    | integer m =>
      obtain ⟨rfl, -, hrest⟩ := number_append_inj (by decide) (by decide) h
      exact ⟨rfl, hrest⟩
    | unsigned m =>
      obtain ⟨-, hletter, -⟩ := number_append_inj (m := (m : Int)) (by decide) (by decide) h
      cases hletter
    | text | boolean | float => cases hopening
  | unsigned n =>
    cases w with
    | integer m =>
      obtain ⟨-, hletter, -⟩ := number_append_inj (n := (n : Int)) (by decide) (by decide) h
      cases hletter
    | unsigned m =>
      obtain ⟨hnm, -, hrest⟩ :=
        number_append_inj (n := (n : Int)) (m := (m : Int)) (by decide) (by decide) h
      exact ⟨congrArg FieldValue.unsigned (Int.ofNat.inj hnm), hrest⟩
    | text | boolean | float => cases hopening
  | float x => exact absurd rfl (hv x)
  | boolean b =>
    cases w with
    | boolean b' =>
      cases hopening
      exact ⟨rfl, List.append_cancel_left h⟩
    | text | integer | unsigned | float => cases hopening

/-! ## The parts of a point -/

theorem comma_encodeFields {fs : List (String × FieldValue)} (h : fs ≠ []) :
    ',' :: encodeFields fs = fs.flatMap fun f => ',' :: encodeField f := by
  induction fs with
  | nil => exact absurd rfl h
  | cons f fs ih =>
    cases fs with
    | nil => simp [encodeFields]
    | cons g fs =>
      rw [List.flatMap_cons, ← ih (List.cons_ne_nil g fs), encodeFields, List.cons_append]
      exact List.cons_ne_nil g fs

/-- What parts the members of a list, and what ends it. -/
def separators : List Char := [',', ' ']

theorem stops_members {α : Type} (member : α → List Char) (xs : List α) (rest : List Char) :
    Stops separators ((xs.flatMap fun x => ',' :: member x) ++ ' ' :: rest) := by
  cases xs with
  | nil => exact stops_cons (by decide) rest
  | cons x xs => exact stops_cons (by decide) _

/-- A list tells its members, if each of them ends where a separator stands. -/
theorem members_append_inj {α : Type} (member : α → List Char) {xs ys : List α}
    (hmember : ∀ x ∈ xs, ∀ y ∈ ys, ∀ cs cs', Stops separators cs → Stops separators cs' →
      member x ++ cs = member y ++ cs' → x = y ∧ cs = cs')
    (h : (xs.flatMap fun x => ',' :: member x) ++ ' ' :: rest =
      (ys.flatMap fun y => ',' :: member y) ++ ' ' :: rest') : xs = ys ∧ rest = rest' := by
  induction xs generalizing ys with
  | nil =>
    cases ys with
    | nil => exact ⟨rfl, (List.cons.inj h).2⟩
    | cons y ys => cases (List.cons.inj h).1
  | cons x xs ih =>
    cases ys with
    | nil => cases (List.cons.inj h).1
    | cons y ys =>
      simp only [List.flatMap_cons, List.cons_append, List.append_assoc, List.cons.injEq,
        true_and] at h
      obtain ⟨rfl, htail⟩ := hmember x List.mem_cons_self y List.mem_cons_self _ _
        (stops_members member xs rest) (stops_members member ys rest') h
      obtain ⟨rfl, hrest⟩ := ih (fun x hx y hy =>
        hmember x (List.mem_cons_of_mem _ hx) y (List.mem_cons_of_mem _ hy)) htail
      exact ⟨rfl, hrest⟩

/-- A tag without the comma in front. -/
def tagText (t : String × String) : List Char :=
  escape inName t.1.toList ++ '=' :: escape inName t.2.toList

theorem tag_append_inj {t u : String × String} (hr : Stops inName rest) (hr' : Stops inName rest')
    (h : tagText t ++ rest = tagText u ++ rest') : t = u ∧ rest = rest' := by
  obtain ⟨n, v⟩ := t
  obtain ⟨m, w⟩ := u
  simp only [tagText, List.append_assoc, List.cons_append] at h
  obtain ⟨rfl, hvalue⟩ := name_append_inj h
  obtain ⟨rfl, hrest⟩ := string_append_inj (by decide) hr hr' hvalue
  exact ⟨rfl, hrest⟩

theorem tags_append_inj {ts us : List (String × String)}
    (h : ts.flatMap encodeTag ++ ' ' :: rest = us.flatMap encodeTag ++ ' ' :: rest') :
    ts = us ∧ rest = rest' := by
  have htag : encodeTag = fun t => ',' :: tagText t := rfl
  rw [htag] at h
  refine members_append_inj tagText ?_ h
  intro t _ u _ cs cs' hcs hcs'
  have hsub : separators ⊆ inName := by decide
  exact tag_append_inj (hcs.mono hsub) (hcs'.mono hsub)

theorem field_append_inj (hf : ∀ x, f.2 ≠ .float x) (hg : ∀ x, g.2 ≠ .float x)
    (h : encodeField f ++ rest = encodeField g ++ rest') : f = g ∧ rest = rest' := by
  obtain ⟨n, v⟩ := f
  obtain ⟨m, w⟩ := g
  simp only [encodeField, List.append_assoc, List.cons_append] at h
  obtain ⟨rfl, hvalue⟩ := name_append_inj h
  obtain ⟨rfl, hrest⟩ := encodeValue_append_inj hf hg hvalue
  exact ⟨rfl, hrest⟩

theorem fields_append_inj {fs gs : List (String × FieldValue)} (hfs : fs ≠ []) (hgs : gs ≠ [])
    (hf : ∀ f ∈ fs, ∀ x, f.2 ≠ .float x) (hg : ∀ g ∈ gs, ∀ x, g.2 ≠ .float x)
    (h : encodeFields fs ++ ' ' :: rest = encodeFields gs ++ ' ' :: rest') :
    fs = gs ∧ rest = rest' := by
  have hcomma := congrArg (List.cons ',') h
  rw [← List.cons_append, ← List.cons_append, comma_encodeFields hfs,
    comma_encodeFields hgs] at hcomma
  refine members_append_inj encodeField ?_ hcomma
  intro f hfm g hgm cs cs' _ _
  exact field_append_inj (hf f hfm) (hg g hgm)

/-! ## Whole points -/

/-- The point has a field of its own and no floats. -/
structure Legible (p : Point) : Prop where
  hasField : p.fields.pairs ≠ []
  noFloat : ∀ f ∈ p.fields.pairs, ∀ x, f.2 ≠ .float x

theorem Legible.shownFields (h : p.Legible) : p.shownFields = p.fields.pairs := by
  have hne : p.fields.isEmpty = false := List.isEmpty_eq_false_iff.2 h.hasField
  rw [Point.shownFields, hne]
  rfl

theorem toList_encode (p : Point) (t : Int) :
    (p.encode t).toList = escape inMeasurement p.measurement.toList ++
      (p.tags.pairs.flatMap encodeTag ++
        ' ' :: (encodeFields p.shownFields ++ ' ' :: (toString t).toList)) := by
  rw [encode_eq, String.toList_ofList]
  simp only [body, List.append_assoc, List.cons_append]

theorem Legible.encode_inj (hp : p.Legible) (hq : q.Legible) (h : p.encode t = q.encode t') :
    p = q ∧ t = t' := by
  have htext := congrArg String.toList h
  rw [toList_encode, toList_encode, hp.shownFields, hq.shownFields] at htext
  obtain ⟨hmeasurement, htags⟩ := string_append_inj (by decide) (stops_members _ _ _)
    (stops_members _ _ _) htext
  obtain ⟨htags, hfields⟩ := tags_append_inj htags
  obtain ⟨hfields, htime⟩ :=
    fields_append_inj hp.hasField hq.hasField hp.noFloat hq.noFloat hfields
  refine ⟨?_, Text.toString_int_inj htime⟩
  obtain ⟨m, ⟨ts, _⟩, fs, _⟩ := p
  obtain ⟨m', ⟨ts', _⟩, fs', _⟩ := q
  obtain rfl : m = m' := hmeasurement
  obtain rfl : ts = ts' := htags
  obtain rfl : fs = fs' := hfields
  rfl

/-! ## Points built from parts -/

inductive Part where
  | tag (name value : String)
  | field (name : String) (value : FieldValue)

/-- A tag and a field may have one name. -/
def Part.slot : Part → Bool × String
  | .tag name _ => (true, name)
  | .field name _ => (false, name)

def add (p : Point) : Part → Point
  | .tag name value => p.tag name value
  | .field name value => p.field name value

def ofParts (measurement : String) (parts : List Part) : Point :=
  parts.foldl add { measurement }

/-- The part that came last in its slot. -/
def latest (parts : List Part) (slot : Bool × String) : Option Part :=
  parts.reverse.find? fun x => x.slot = slot

def part? (p : Point) : Bool × String → Option Part
  | (true, name) => (p.tags.get? name).map (.tag name)
  | (false, name) => (p.fields.get? name).map (.field name)

theorem part?_add (p : Point) (x : Part) (slot : Bool × String) :
    (p.add x).part? slot = if slot = x.slot then some x else p.part? slot := by
  obtain ⟨isTag, name⟩ := slot
  cases x with
  | tag name' value =>
    cases isTag with
    | true =>
      simp only [part?, add, tag, Part.slot, Named.get?_insert, Prod.mk.injEq, true_and]
      split
      · next h => rw [h]; rfl
      · rfl
    | false => rfl
  | field name' value =>
    cases isTag with
    | true => rfl
    | false =>
      simp only [part?, add, field, Part.slot, Named.get?_insert, Prod.mk.injEq, true_and]
      split
      · next h => rw [h]; rfl
      · rfl

theorem part?_ofParts (m : String) (xs : List Part) (slot : Bool × String) :
    (ofParts m xs).part? slot = latest xs slot := by
  have hnone : ({ measurement := m } : Point).part? slot = none := by
    obtain ⟨isTag, name⟩ := slot
    cases isTag <;> rfl
  exact (get?_foldl part?_add xs _ slot).trans (by rw [hnone, Option.or_none]; rfl)

theorem measurement_ofParts (m : String) (xs : List Part) : (ofParts m xs).measurement = m :=
  List.foldlRecOn xs (motive := fun p => p.measurement = m) add rfl fun p hp x _ => by
    cases x <;> exact hp

theorem ext_part? (hm : p.measurement = q.measurement) (h : ∀ slot, p.part? slot = q.part? slot) :
    p = q := by
  have htags : p.tags = q.tags := Named.ext_get? fun name =>
    Option.map_injective (fun _ _ hv => (Part.tag.inj hv).2) (h (true, name))
  have hfields : p.fields = q.fields := Named.ext_get? fun name =>
    Option.map_injective (fun _ _ hv => (Part.field.inj hv).2) (h (false, name))
  obtain ⟨m, ts, fs⟩ := p
  obtain ⟨m', ts', fs'⟩ := q
  obtain rfl : m = m' := hm
  obtain rfl : ts = ts' := htags
  obtain rfl : fs = fs' := hfields
  rfl

theorem ofParts_eq_iff {m m' : String} {xs ys : List Part} :
    ofParts m xs = ofParts m' ys ↔ m = m' ∧ ∀ slot, latest xs slot = latest ys slot := by
  constructor
  · intro h
    refine ⟨?_, fun slot => ?_⟩
    · rw [← measurement_ofParts m xs, h, measurement_ofParts]
    · rw [← part?_ofParts m, h, part?_ofParts]
  · rintro ⟨rfl, h⟩
    refine ext_part? ?_ fun slot => ?_
    · rw [measurement_ofParts, measurement_ofParts]
    · rw [part?_ofParts, part?_ofParts, h]

theorem add_comm {x y : Part} (h : x.slot ≠ y.slot) (p : Point) :
    (p.add x).add y = (p.add y).add x := by
  refine ext_part? (by cases x <;> cases y <;> rfl) fun slot => ?_
  simp only [part?_add]
  by_cases hx : slot = x.slot
  · have hy : slot ≠ y.slot := fun hy => h (hx.symm.trans hy)
    simp only [hx, h, if_true, if_false]
  · simp only [hx, if_false]

theorem ofParts_perm {xs ys : List Part} (h : xs.Perm ys) (hd : (xs.map Part.slot).Nodup)
    (m : String) : ofParts m xs = ofParts m ys := by
  apply h.foldl_eq'
  intro x hx y hy p
  by_cases hxy : x.slot = y.slot
  · rw [List.inj_on_of_nodup_map hd hx hy hxy]
  · exact add_comm hxy p

/-- Points without floats have the same text only if they are the same points at the same time, and
points are the same if they have the same measurement and the same latest part in every slot. So the
order of parts in different slots does not show. A line feed comes from a name or a text. -/
theorem encode_ofParts {m m' : String} {xs ys : List Part} (hx : (ofParts m xs).Legible)
    (hy : (ofParts m' ys).Legible) (t t' : Int) :
    ((ofParts m xs).encode t = (ofParts m' ys).encode t' ↔
      ofParts m xs = ofParts m' ys ∧ t = t') ∧
    (ofParts m xs = ofParts m' ys ↔ m = m' ∧ ∀ slot, latest xs slot = latest ys slot) ∧
    (xs.Perm ys → (xs.map Part.slot).Nodup →
      (ofParts m xs).encode t = (ofParts m ys).encode t) ∧
    ('\n' ∈ ((ofParts m xs).encode t).toList → (ofParts m xs).HasLineFeed) := by
  refine ⟨⟨hx.encode_inj hy, ?_⟩, ofParts_eq_iff, ?_, hasLineFeed_of_mem_encode hx.noFloat⟩
  · rintro ⟨hpoint, rfl⟩
    rw [hpoint]
  · intro hperm hd
    rw [ofParts_perm hperm hd]

/-- A tag whose value looks like two tags. -/
def oneTag : List Part := [.tag "a" "b,c=d", .field "n" (.integer 1)]

def twoTags : List Part := [.tag "c" "d", .tag "a" "b", .field "n" (.integer 1)]

theorem encode_ofParts_twoTags :
    (ofParts "m" oneTag).Legible ∧ (ofParts "m" twoTags).Legible ∧
      (ofParts "m" oneTag).encode 1 ≠ (ofParts "m" twoTags).encode 1 := by
  have hfields : ∀ xs ∈ [oneTag, twoTags],
      (ofParts "m" xs).fields.pairs = [("n", .integer 1)] := by decide
  have hlegible : ∀ xs ∈ [oneTag, twoTags], (ofParts "m" xs).Legible := by
    intro xs hxs
    refine ⟨by simp [hfields xs hxs], fun f hf x => ?_⟩
    rw [hfields xs hxs, List.mem_singleton] at hf
    rw [hf]
    exact nofun
  have hone := hlegible oneTag (by simp)
  have htwo := hlegible twoTags (by simp)
  refine ⟨hone, htwo, fun h => ?_⟩
  obtain ⟨htext, hparts, -, -⟩ := encode_ofParts hone htwo 1 1
  have hlatest := (hparts.1 (htext.1 h).1).2 (true, "c")
  cases hlatest

end Metrics.Point

end Nodecast
