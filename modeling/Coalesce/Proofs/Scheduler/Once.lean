import Coalesce.Proofs.Scheduler.Custody

/-!
# Every request is in one place, and answered once

* `Scheduler.Place`, `Scheduler.State.located`
                             where a scheduler holds which request;
* `Scheduler.State.places`   the places of the request with some ticket;
* `Scheduler.History.fate`   a request is in one place and not answered, or it has left with what it
                             was told;
* `Scheduler.one_place_one_answer`
                             the same for runs, and what it means for those that have come to rest.

Requests are told apart by their tickets.
-/

namespace Coalesce

namespace Scheduler

/-! ## places -/

/-- Where a request may be held. -/
inductive Place where
  /-- the open window -/
  | window
  /-- a flushed window, counted from the next one to be taken -/
  | queued (index : Nat)
  /-- a batch that the dispatcher holds, counted from the next one to be served -/
  | batch (index : Nat)
  /-- a batch that waits for its calls -/
  | delivery (id : Nat)
  deriving DecidableEq

/-- requests of numbered groups, with their places -/
def numbered (place : Nat → Place) (groups : List (List Pending)) : List (Place × Pending) :=
  groups.zipIdx.flatMap fun g => g.1.map fun p => (place g.2, p)

def State.located (s : State) : List (Place × Pending) :=
  s.pending.map (fun p => (Place.window, p)) ++ (numbered .queued (s.queue.map Flush.items) ++
    (numbered .batch s.worker.batches ++
      s.deliveries.flatMap fun d => d.members.map fun p => (Place.delivery d.id, p)))

def State.places (s : State) (ticket : Nat) : List Place :=
  (s.located.filter fun x => x.2.ticket = ticket).map (·.1)

/-- No window, no flushed window and no batch is left. -/
def State.Idle (s : State) : Prop :=
  s.pending = [] ∧ s.queue = [] ∧ s.worker.batches = [] ∧ s.deliveries = []

theorem numbered_requests (place : Nat → Place) (groups : List (List Pending)) :
    (numbered place groups).map (·.2) = groups.flatten := by
  unfold numbered
  rw [List.map_flatMap]
  calc (groups.zipIdx.flatMap fun g => (g.1.map fun p => (place g.2, p)).map (·.2))
      = groups.zipIdx.flatMap Prod.fst := by
        refine List.flatMap_congr fun g _ => ?_
        rw [List.map_map]
        exact List.map_id g.1
    _ = groups.flatten := by rw [List.flatMap_def, List.zipIdx_map_fst]

/-- The requests with places are those that are held. -/
theorem located_held (s : State) : s.located.map (·.2) = s.held := by
  unfold State.located State.held
  rw [List.map_append, List.map_append, List.map_append, numbered_requests, numbered_requests,
    List.map_map, List.map_flatMap, List.flatMap_def]
  congr 1
  · exact List.map_id s.pending
  · congr 2
    refine List.flatMap_congr fun d _ => ?_
    rw [List.map_map]
    exact List.map_id d.members

/-! ## tickets -/

theorem filter_key {α : Type} (key : α → Nat) {l : List α} (h : (l.map key).Nodup) {a : α}
    (ha : a ∈ l) : (l.filter fun b => key b = key a) = [a] := by
  induction l with
  | nil => exact absurd ha List.not_mem_nil
  | cons x rest ih =>
    obtain ⟨hx, hrest⟩ := List.nodup_cons.mp h
    rw [List.filter_cons]
    rcases List.mem_cons.mp ha with rfl | ha
    · have hnone : (rest.filter fun b => key b = key a) = [] := by
        refine List.filter_eq_nil_iff.mpr fun b hb hkey => ?_
        exact hx (List.mem_map.mpr ⟨b, hb, of_decide_eq_true hkey⟩)
      rw [if_pos (decide_eq_true rfl), hnone]
    · have hne : ¬ key x = key a := fun heq => hx (List.mem_map.mpr ⟨a, ha, heq.symm⟩)
      rw [if_neg (by simpa using hne)]
      exact ih hrest ha

theorem filter_key_none {α : Type} (key : α → Nat) {l : List α} {k : Nat}
    (h : ∀ b ∈ l, key b ≠ k) : (l.filter fun b => key b = k) = [] :=
  List.filter_eq_nil_iff.mpr fun b hb hkey => h b hb (of_decide_eq_true hkey)

theorem told_filter (out : List Exit) (ticket : Nat) :
    ((told out).filter fun a => a.1 = ticket) = told (out.filter fun x => x.1.ticket = ticket) := by
  induction out with
  | nil => rfl
  | cons x rest ih =>
    obtain ⟨p, o⟩ := x
    have hcons : ∀ xs : List Exit, told ((p, o) :: xs)
        = (o.map fun result => (p.ticket, result)).toList ++ told xs := by
      intro xs
      cases o <;> rfl
    rw [hcons, List.filter_append, ih, List.filter_cons]
    by_cases h : p.ticket = ticket
    · rw [if_pos (decide_eq_true h), hcons]
      cases o <;> simp [h]
    · rw [if_neg (by simpa using h)]
      cases o <;> simp [h]

/-! ## one request -/

theorem History.fate {c : Scheduler} {past : List Moment} {s : State} {effects : List Effect}
    (h : c.History past s effects) (fresh : ((arrivals past).map (·.ticket)).Nodup) {p : Pending}
    (hp : p ∈ arrivals past) :
    (∃ place, s.places p.ticket = [place] ∧ answersTo p.ticket effects = []) ∨
      ∃ o, s.places p.ticket = [] ∧ answersTo p.ticket effects = Option.toList o ∧
        c.Due past s (p, o) := by
  obtain ⟨out, hperm, htold, hdue⟩ := h.custody
  have hnodup : ((s.held ++ out.map Prod.fst).map (·.ticket)).Nodup :=
    (hperm.map _).nodup_iff.mp fresh
  rw [List.map_append] at hnodup
  obtain ⟨hheld, hout, hdisjoint⟩ := List.nodup_append.mp hnodup
  have hanswers : answersTo p.ticket effects
      = (told (out.filter fun x => x.1.ticket = p.ticket)).map (·.2) := by
    unfold answersTo
    rw [htold, told_filter]
  rw [← located_held, List.map_map] at hheld
  rcases List.mem_append.mp (hperm.mem_iff.mp hp) with hp | hp
  · have hnone : (out.filter fun x => x.1.ticket = p.ticket) = [] := by
      refine filter_key_none (fun x : Exit => x.1.ticket) fun x hx heq => ?_
      exact hdisjoint _ (List.mem_map.mpr ⟨p, hp, rfl⟩) _
        (List.mem_map.mpr ⟨x.1, List.mem_map.mpr ⟨x, hx, rfl⟩, rfl⟩) heq.symm
    rw [← located_held] at hp
    obtain ⟨x, hx, rfl⟩ := List.mem_map.mp hp
    refine Or.inl ⟨x.1, ?_, ?_⟩
    · unfold State.places
      rw [filter_key (fun x : Place × Pending => x.2.ticket) hheld hx]
      rfl
    · rw [hanswers, hnone]
      rfl
  · obtain ⟨⟨q, o⟩, hx, rfl⟩ := List.mem_map.mp hp
    rw [List.map_map] at hout
    refine Or.inr ⟨o, ?_, ?_, hdue _ hx⟩
    · unfold State.places
      rw [filter_key_none (fun x : Place × Pending => x.2.ticket) fun y hy heq => ?_]
      · rfl
      · refine hdisjoint _ (List.mem_map.mpr ⟨y.2, ?_, rfl⟩) _ (List.mem_map.mpr ⟨q, hp, rfl⟩) heq
        rw [← located_held]
        exact List.mem_map.mpr ⟨y, hy, rfl⟩
    · rw [hanswers, filter_key (fun x : Exit => x.1.ticket) hout hx]
      cases o <;> rfl

theorem places_idle {s : State} (h : s.Idle) (ticket : Nat) : s.places ticket = [] := by
  obtain ⟨hpending, hqueue, hbatches, hdeliveries⟩ := h
  unfold State.places State.located
  rw [hpending, hqueue, hbatches, hdeliveries]
  rfl

theorem arrivals_moments (c : Scheduler) (es : List Event) :
    arrivals (c.moments {} es) = es.flatMap Event.arrivals := by
  unfold arrivals
  rw [← List.flatMap_map (f := fun m : Moment => m.event) (g := Event.arrivals), moments_events]

/-- **No request is lost or answered twice.**  Whatever happens, and in whatever order, to requests
with different tickets: every one that came in is in exactly one place and not answered, or in no
place any more; then it was told one answer, for a reason, unless its caller had left.  It is a
member of at most one batch, once.  When no window and no batch is left, every request whose caller
has not left has its answer. -/
theorem one_place_one_answer (c : Scheduler) (es : List Event)
    (fresh : ((es.flatMap Event.arrivals).map (·.ticket)).Nodup) :
    let past := c.moments {} es
    let s := (c.run {} es).1
    let effects := (c.run {} es).2
    (∀ p ∈ es.flatMap Event.arrivals,
      (∃ place, s.places p.ticket = [place] ∧ answersTo p.ticket effects = []) ∨
      (s.places p.ticket = [] ∧
        ((∃ result, answersTo p.ticket effects = [result] ∧ c.Reason past p result) ∨
          (p.ticket ∈ s.left ∧ answersTo p.ticket effects = [])))) ∧
    ((c.formed past).flatten.map (·.ticket)).Nodup ∧
    (s.Idle → ∀ p ∈ es.flatMap Event.arrivals, p.ticket ∉ s.left →
      ∃ result, answersTo p.ticket effects = [result] ∧ c.Reason past p result) := by
  intro past s effects
  have h : c.History past s effects := c.history_run es
  rw [← arrivals_moments c es] at fresh ⊢
  have told : ∀ p ∈ arrivals past, (∃ place, s.places p.ticket = [place] ∧
      answersTo p.ticket effects = []) ∨ (s.places p.ticket = [] ∧
        ((∃ result, answersTo p.ticket effects = [result] ∧ c.Reason past p result) ∨
          (p.ticket ∈ s.left ∧ answersTo p.ticket effects = []))) := by
    intro p hp
    rcases h.fate fresh hp with hplace | ⟨o, hnone, hanswers, hdue⟩
    · exact Or.inl hplace
    · cases o with
      | some result => exact Or.inr ⟨hnone, Or.inl ⟨result, hanswers, hdue⟩⟩
      | none => exact Or.inr ⟨hnone, Or.inr ⟨hdue, hanswers⟩⟩
  refine ⟨told, h.formed_once fresh, fun hidle p hp hstays => ?_⟩
  obtain ⟨place, hplace, _⟩ | ⟨_, hresult | ⟨hleft, _⟩⟩ := told p hp
  · rw [places_idle hidle] at hplace
    cases hplace
  · exact hresult
  · exact absurd hleft hstays

/-- the caller of one of two requests leaves, and the other one is answered -/
theorem one_place_one_answer_other :
    let c : Scheduler := ⟨⟨"accounts", "http://accounts", none, .array, 0⟩,
      ⟨.indiscriminate, .array, 50, 2, 20⟩⟩
    let p (ticket : Nat) : Pending :=
      ⟨ticket, { request := { query := "{ me }" }, caller := default }, 0⟩
    let es : List Event := [.submit (p 0), .submit (p 1), .leave 0, .take 0,
      .serve 0 ⟨fun _ _ => some (.done (.array [.null])), 0⟩]
    ((es.flatMap Event.arrivals).map (·.ticket)).Nodup ∧
      ∃ result, answersTo 1 (c.run {} es).2 = [result] := by
  intro c p es
  have fresh : ((es.flatMap Event.arrivals).map (·.ticket)).Nodup := by decide
  have hrest := (c.one_place_one_answer es fresh).2.2 ⟨rfl, rfl, rfl, rfl⟩
  obtain ⟨result, hresult, _⟩ := hrest (p 1)
    (List.mem_cons_of_mem _ (List.mem_singleton_self _)) (by decide)
  exact ⟨fresh, result, hresult⟩

end Scheduler

end Coalesce
