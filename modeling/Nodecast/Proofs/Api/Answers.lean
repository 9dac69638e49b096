import Nodecast.Api.Response

/-!
# What a response tells of an object

Only a refusal that names `NotFound` tells that there is no such object, and only an object of the
kind tells what it is. With any other response, or with none, the object is not known.
-/

namespace Nodecast.Api.Client

variable {client : Client} {kind : Kind} {key : Key} {r : Response} {o : Object}
  {response : Option Response}

/-- What is documented of the library. -/
structure Documented (client : Client) : Prop where
  /-- Only a status of at least 400 refuses. -/
  refusals : ∀ {status}, client.isRefusal status = true → 400 ≤ status
  unsent : ∀ {target}, client.sends target = false → ∀ kind response,
    client.get kind target response = .error .other
  unanswered : ∀ kind target, client.get kind target none = .error .other
  /-- A refusal counts as the failure that its body tells of, if that can be read. -/
  refused : ∀ {target r}, client.sends target = true → client.isRefusal r.status = true →
    ∀ kind, client.get kind target (some r) =
      .error (.refused ((client.failure? r.body).getD (.unreadable r)))
  /-- The body of any other response must be an object. -/
  answered : ∀ {target r}, client.sends target = true → client.isRefusal r.status = false →
    ∀ kind, client.get kind target (some r) =
      (client.object? kind r.body).elim (.error .other) .ok
  /-- An object that need not exist is none exactly if asking for it is refused with `NotFound`. -/
  optional : ∀ kind target response,
    client.getOpt kind target response = settle (client.get kind target response)

theorem documented_json : json.Documented where
  refusals := fun h => of_decide_eq_true h
  unsent := by
    intro target hs kind response
    cases response with
    | none => rfl
    | some r => exact if_neg (Bool.eq_false_iff.1 hs)
  unanswered := fun _ _ => rfl
  refused := fun hs hr _ => (if_pos hs).trans (if_pos (of_decide_eq_true hr))
  answered := fun hs hr _ => (if_pos hs).trans (if_neg (of_decide_eq_false hr))
  optional := fun _ _ _ => rfl

/-! ## One response -/

/-- A refusal whose body is a failure with the reason `NotFound`. -/
def Denies (client : Client) (r : Response) : Prop :=
  client.isRefusal r.status = true ∧
    ∃ f, client.failure? r.body = some f ∧ f.reason = "NotFound"

/-- No refusal, and the body is an object of the kind. -/
def Shows (client : Client) (kind : Kind) (r : Response) (o : Object) : Prop :=
  client.isRefusal r.status = false ∧ client.object? kind r.body = some o

theorem settle_refused {f : Failure} (hf : f.reason ≠ "NotFound") :
    settle (.error (.refused f)) = .error (.refused f) := by
  simp [settle, Failure.isNotFound, hf]

theorem settle_notFound {f : Failure} (hf : f.reason = "NotFound") :
    settle (.error (.refused f)) = .ok none := by
  simp [settle, Failure.isNotFound, hf]

namespace Documented

variable (D : client.Documented)
include D

theorem getOpt_of_refusal (kind : Kind) {target : String} (hs : client.sends target = true)
    (hr : client.isRefusal r.status = true) :
    client.getOpt kind target (some r) = .ok none ∧ client.Denies r ∨
      (∃ m, client.getOpt kind target (some r) = .error m) ∧ ¬client.Denies r := by
  rw [D.optional, D.refused hs hr]
  cases hf : client.failure? r.body with
  | none =>
    have hother : (Failure.unreadable r).reason ≠ "NotFound" := by simp [Failure.unreadable]
    refine .inr ⟨⟨_, settle_refused hother⟩, ?_⟩
    rintro ⟨-, f, hf', -⟩
    rw [hf] at hf'
    contradiction
  | some f =>
    by_cases hreason : f.reason = "NotFound"
    · exact .inl ⟨settle_notFound hreason, hr, f, hf, hreason⟩
    · refine .inr ⟨⟨_, settle_refused hreason⟩, ?_⟩
      rintro ⟨-, f', hf', hreason'⟩
      rw [hf, Option.some.injEq] at hf'
      exact hreason (hf' ▸ hreason')

theorem getOpt_of_answer (kind : Kind) {target : String} (hs : client.sends target = true)
    (hr : client.isRefusal r.status = false) :
    (∃ o, client.getOpt kind target (some r) = .ok (some o) ∧ client.Shows kind r o) ∨
      (∃ m, client.getOpt kind target (some r) = .error m) ∧ ∀ o, ¬client.Shows kind r o := by
  rw [D.optional, D.answered hs hr]
  cases ho : client.object? kind r.body with
  | none =>
    refine .inr ⟨⟨.other, rfl⟩, fun o h => ?_⟩
    have ho' := h.2
    rw [ho] at ho'
    contradiction
  | some o => exact .inl ⟨o, rfl, hr, ho⟩

theorem getOpt_of_silence {target : String}
    (h : client.sends target = false ∨ response = none) :
    client.getOpt kind target response = .error .other := by
  rw [D.optional]
  rcases h with hs | rfl
  · rw [D.unsent hs]
    rfl
  · rw [D.unanswered]
    rfl

/-! ## What a cycle is told -/

/-- A cycle is told that there is no object, or what the object is, or that it could not be fetched,
and each of these just after a response that says so. -/
theorem fetch_cases (kind : Kind) (key : Key) (response : Option Response) :
    (client.fetch kind key response = .ok none ∧ client.sends (objectPath kind key) = true ∧
      ∃ r, response = some r ∧ client.Denies r) ∨
    (∃ o, client.fetch kind key response = .ok (some (.ofObject kind o)) ∧
      client.sends (objectPath kind key) = true ∧ ∃ r, response = some r ∧ client.Shows kind r o) ∨
    client.fetch kind key response = .error (.fetch kind key) ∧
      (client.sends (objectPath kind key) = true → ∀ r, response = some r →
        ¬client.Denies r ∧ ∀ o, ¬client.Shows kind r o) := by
  unfold Client.fetch
  cases hs : client.sends (objectPath kind key) with
  | false =>
    rw [D.getOpt_of_silence (.inl hs)]
    exact .inr (.inr ⟨rfl, nofun⟩)
  | true =>
    cases response with
    | none =>
      rw [D.getOpt_of_silence (.inr rfl)]
      exact .inr (.inr ⟨rfl, fun _ => nofun⟩)
    | some r =>
      cases hr : client.isRefusal r.status with
      | true =>
        have hno : ∀ o, ¬client.Shows kind r o := fun o h => by
          rw [Shows, hr] at h
          exact nomatch h.1
        rcases D.getOpt_of_refusal kind hs hr with ⟨hget, hdenies⟩ | ⟨⟨m, hget⟩, hdenies⟩
        · rw [hget]
          exact .inl ⟨rfl, rfl, r, rfl, hdenies⟩
        · rw [hget]
          exact .inr (.inr ⟨rfl, fun _ => by rintro _ ⟨⟩; exact ⟨hdenies, hno⟩⟩)
      | false =>
        have hno : ¬client.Denies r := fun h => by
          rw [Denies, hr] at h
          exact nomatch h.1
        rcases D.getOpt_of_answer kind hs hr with ⟨o, hget, hshows⟩ | ⟨⟨m, hget⟩, hshows⟩
        · rw [hget]
          exact .inr (.inl ⟨o, rfl, rfl, r, rfl, hshows⟩)
        · rw [hget]
          exact .inr (.inr ⟨rfl, fun _ => by rintro _ ⟨⟩; exact ⟨hno, hshows⟩⟩)

theorem fetch_none_iff : client.fetch kind key response = .ok none ↔
    client.sends (objectPath kind key) = true ∧ ∃ r, response = some r ∧ client.Denies r := by
  rcases D.fetch_cases kind key response with
    ⟨hfetch, hs, hdenied⟩ | ⟨o, hfetch, hs, r, rfl, hshows⟩ | ⟨hfetch, hno⟩
  · exact ⟨fun _ => ⟨hs, hdenied⟩, fun _ => hfetch⟩
  · refine iff_of_false (by simp [hfetch]) ?_
    rintro ⟨-, r', ⟨⟩, hdenies⟩
    have hr := hdenies.1
    rw [hshows.1] at hr
    contradiction
  · refine iff_of_false (by simp [hfetch]) ?_
    rintro ⟨hs, r, rfl, hdenies⟩
    exact (hno hs r rfl).1 hdenies

theorem fetch_of_neither
    (h : ∀ r, response = some r → ¬client.Denies r ∧ ∀ o, ¬client.Shows kind r o) :
    client.fetch kind key response = .error (.fetch kind key) := by
  rcases D.fetch_cases kind key response with
    ⟨-, -, r, hr, hdenies⟩ | ⟨o, -, -, r, hr, hshows⟩ | ⟨hfetch, -⟩
  · exact absurd hdenies (h r hr).1
  · exact absurd hshows ((h r hr).2 o)
  · exact hfetch

end Documented

end Nodecast.Api.Client
