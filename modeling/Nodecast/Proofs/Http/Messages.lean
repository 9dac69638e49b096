import Nodecast.Http.EventStream
import Nodecast.Proofs.Event.RoundTrip

/-!
# Messages

A node reads its stream by the rules for server-sent events. Each event comes to it as the one data
line of a message, and comments between the messages leave no trace.
-/

namespace Nodecast

/-! ## The reader -/

namespace Sse

/-- The lines that have ended. A line ends with a line feed, a carriage return, or both. -/
def linesOf (current : List Char) : List Char → List (List Char)
  | [] => []
  | '\r' :: '\n' :: rest => current.reverse :: linesOf [] rest
  | '\r' :: rest => current.reverse :: linesOf [] rest
  | '\n' :: rest => current.reverse :: linesOf [] rest
  | c :: rest => linesOf (c :: current) rest

/-- The value of a data field, without the blank in front of it. Comments and other fields have
none. -/
def dataOf? : List Char → Option (List Char)
  | 'd' :: 'a' :: 't' :: 'a' :: ':' :: ' ' :: value => some value
  | 'd' :: 'a' :: 't' :: 'a' :: ':' :: value => some value
  | ['d', 'a', 't', 'a'] => some []
  | _ => none

/-- An empty line ends a message. The data lines before it are its text, if there are any. -/
def textsOf (data : List (List Char)) : List (List Char) → List (List Char)
  | [] => []
  | [] :: rest =>
    if data.isEmpty then textsOf [] rest
    else ['\n'].intercalate data.reverse :: textsOf [] rest
  | line :: rest => textsOf ((dataOf? line).toList ++ data) rest

def read (text : List Char) : List String := (textsOf [] (linesOf [] text)).map String.ofList

variable {cs rest : List Char}

theorem linesOf_append (h : ∀ c ∈ cs, 0x20 ≤ c.toNat) (current rest : List Char) :
    linesOf current (cs ++ '\n' :: rest) = (current.reverse ++ cs) :: linesOf [] rest := by
  induction cs generalizing current with
  | nil => simp [linesOf]
  | cons c cs ih =>
    rw [List.forall_mem_cons] at h
    have hr : c ≠ '\r' := fun e => absurd h.1 (by rw [e]; decide)
    have hn : c ≠ '\n' := fun e => absurd h.1 (by rw [e]; decide)
    rw [List.cons_append, linesOf, ih h.2]
    · simp
    all_goals simp [hr, hn]

/-- Reading the block gives the texts, whatever follows it. -/
def Yields (block : List Char) (texts : List String) : Prop :=
  ∀ rest, read (block ++ rest) = texts ++ read rest

variable {b b' : List Char} {ts ts' : List String}

theorem yields_nil : Yields [] [] := fun _ => rfl

theorem Yields.append (h : Yields b ts) (h' : Yields b' ts') : Yields (b ++ b') (ts ++ ts') := by
  intro rest
  rw [List.append_assoc, h, h', List.append_assoc]

theorem Yields.read_eq (h : Yields b ts) : read b = ts := by
  have hb := h []
  rwa [List.append_nil, show read [] = [] from rfl, List.append_nil] at hb

theorem yields_comments (n : Nat) :
    Yields (List.replicate n Http.keepAliveComment).flatten [] := by
  induction n with
  | zero => exact yields_nil
  | succ n ih =>
    have hone : Yields Http.keepAliveComment [] := fun _ => rfl
    rw [List.replicate_succ, List.flatten_cons]
    exact hone.append ih

theorem yields_data {text : String} (h : ∀ c ∈ text.toList, 0x20 ≤ c.toNat) :
    Yields ("data: ".toList ++ text.toList ++ ['\n', '\n']) [text] := by
  intro rest
  have hname : ∀ c ∈ "data: ".toList, 0x20 ≤ c.toNat := by
    show ∀ c ∈ ['d', 'a', 't', 'a', ':', ' '], 0x20 ≤ c.toNat
    simp only [List.forall_mem_cons, List.not_mem_nil, false_imp_iff, implies_true, and_true]
    decide
  have hall : ∀ c ∈ "data: ".toList ++ text.toList, 0x20 ≤ c.toNat := by
    intro c hc
    exact (List.mem_append.1 hc).elim (hname c) (h c)
  unfold read
  rw [List.append_assoc, List.cons_append, List.singleton_append, linesOf_append hall]
  show (['\n'].intercalate [text.toList] :: _).map String.ofList = _
  simp [List.intercalate]

end Sse

namespace Http

variable {e : Event} {cs : List Char}

theorem linesOf_eq (h : ∀ c ∈ cs, 0x20 ≤ c.toNat) (current : List Char) :
    linesOf current cs = if current.isEmpty ∧ cs.isEmpty then [] else [current.reverse ++ cs] := by
  induction cs generalizing current with
  | nil => simp [linesOf]
  | cons c cs ih =>
    rw [List.forall_mem_cons] at h
    have hr : c ≠ '\r' := fun e => absurd h.1 (by rw [e]; decide)
    have hn : c ≠ '\n' := fun e => absurd h.1 (by rw [e]; decide)
    rw [linesOf, ih h.2]
    · simp
    all_goals simp [hr, hn]

theorem eventMessage_eq (e : Event) :
    eventMessage e = "data: ".toList ++ e.encode.toList ++ ['\n', '\n'] := by
  have hne : e.encode.toList ≠ [] := by
    obtain ⟨ms, hms, -⟩ := e.fills_toJson
    rw [Event.encode_toList hms]
    exact List.cons_ne_nil _ _
  unfold eventMessage message
  rw [linesOf_eq fun c => Event.le_of_mem_encode]
  simp [hne]

theorem yields_events (es : List Event) :
    Sse.Yields (es.flatMap eventMessage) (es.map Event.encode) := by
  induction es with
  | nil => exact Sse.yields_nil
  | cons e es ih =>
    rw [List.flatMap_cons, List.map_cons, eventMessage_eq]
    exact Sse.Yields.append (Sse.yields_data fun c => Event.le_of_mem_encode) ih

end Http

end Nodecast
