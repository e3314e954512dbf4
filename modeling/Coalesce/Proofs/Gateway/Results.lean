import Coalesce.Proofs.Gateway.Once

/-!
# Every caller gets its own result

* `Lane.History.owned`         a value that is told to a request comes out of the response to a call
                               for its batch, at the place that belongs to it;
* `Lane.own_result`            the same for runs, with all that happens once.

Which place of a response belongs to a request is said by `Codec.Holds`.
-/

namespace Coalesce

namespace Lane

theorem History.owned {c : Scheduler} {past : List Moment} {l : Lane} {effects : List Effect}
    (h : History c past l effects) {ticket : Nat} {value : Json}
    (hanswer : (ticket, .ok value) ∈ answers effects) :
    Owns c past (servings past) ticket value := by
  obtain ⟨own, hown, _, hanswers⟩ := h.scheduler
  rcases hanswers ticket value hanswer with ha | ha
  · obtain ⟨p, _, hticket, id, v, i, k, call, response, hv, hi, hk, hmem, hcame, hholds⟩ :=
      hown.result_origin ha
    exact ⟨v, List.mem_append_left _ (List.mem_of_getElem? hv), p, i, k, call, response, hticket,
      hi, hk, hmem, .batch id hv hcame, hholds⟩
  · have hsub : sendings past ⊆ servings past := List.subset_append_right _ _
    have hgrows := ha.mono hsub []
    rwa [List.append_nil] at hgrows

theorem arrivals_moments (c : Scheduler) (l : Lane) (es : List Event) :
    arrivals (moments c l es) = es.flatMap Event.arrivals := by
  induction es generalizing l with
  | nil => rfl
  | cons e rest ih =>
    show e.arrivals ++ arrivals (moments c (l.step (.batched c) e).1 rest) = _
    rw [ih]
    rfl

/-- **Every caller gets its own result.**  Whatever happens at a target that batches: when a request
is told a value, then one batch has it as a member, at one position; one call answers for it, and
was started for that batch; and the value is what the one response to that call holds for the
position. -/
theorem own_result (c : Scheduler) (es : List Event)
    (fresh : ((es.flatMap Event.arrivals).map (·.ticket)).Nodup) (ticket : Nat) (value : Json)
    (answered : (ticket, .ok value) ∈ answers (run (.batched c) {} es).2) :
    let past := moments c {} es
    let effects := (run (.batched c) {} es).2
    ∃ p ∈ es.flatMap Event.arrivals, p.ticket = ticket ∧ ∃ batch i v k call response,
      ((formed c past).filter fun b => ticket ∈ b.map (·.ticket)) = [batch] ∧
      batch[i]? = some p ∧
      (∀ (j : Nat) (q : Pending), batch[j]? = some q → q.ticket = ticket → j = i) ∧
      ((calls effects).filter fun x => ticket ∈ (carried x).map (·.ticket)) = [(call, batch)] ∧
      v ∈ servings past ∧ v.batch = batch ∧ (v.called c)[k]? = some call ∧
      CameBack c past v k response ∧ (∀ other, CameBack c past v k other → other = response) ∧
      c.target.codec.Holds (batch.map fun p => p.item.request) v.transport.round call.body
        call.members i response value := by
  intro past effects
  have h : History c past (run (.batched c) {} es).1 effects := history_run c es
  rw [← arrivals_moments c {} es] at fresh ⊢
  obtain ⟨v, hv, p, i, k, call, response, rfl, hi, hk, hmem, hcame, hholds⟩ := h.owned answered
  have hformed := h.batch_formed hv
  have hmember : p ∈ v.batch := List.mem_of_getElem? hi
  have harrived : p ∈ arrivals past := by
    obtain ⟨others, hperm⟩ := h.formed_arrivals
    exact hperm.mem_iff.mpr
      (List.mem_append_left _ (List.mem_flatten.mpr ⟨v.batch, hformed, hmember⟩))
  have hcall : (call, v.batch) ∈ calls effects := by
    refine h.calls_perm.mem_iff.mpr (List.mem_flatMap.mpr ⟨v, hv, ?_⟩)
    exact List.mem_map.mpr ⟨call, List.mem_of_getElem? hk, rfl⟩
  have hcarried : p.ticket ∈ (carried (call, v.batch)).map (·.ticket) :=
    List.mem_map.mpr ⟨p, List.mem_filterMap.mpr ⟨i, hmem, hi⟩, rfl⟩
  have hplace : ∀ (j : Nat) (q : Pending), v.batch[j]? = some q → q.ticket = p.ticket → j = i := by
    intro j q hj hq
    have hnodup := (List.nodup_flatMap.mp (h.formed_once fresh)).1 v.batch hformed
    have hlt : j < (v.batch.map (·.ticket)).length := by
      rw [List.length_map]
      exact (List.getElem?_eq_some_iff.mp hj).1
    refine (List.getElem?_inj hlt hnodup).mp ?_
    rw [List.getElem?_map, List.getElem?_map, hj, hi]
    exact congrArg some hq
  refine ⟨p, harrived, rfl, v.batch, i, v, k, call, response, ?_, hi, hplace, ?_, hv, rfl, hk,
    hcame, fun other hother => h.came_once fresh hmember hother hcame, hholds⟩
  · exact filter_holding (fun b : List Pending => b.map (·.ticket)) (h.formed_once fresh) hformed
      (List.mem_map.mpr ⟨p, hmember, rfl⟩)
  · exact filter_holding (fun x => (carried x).map (·.ticket)) (h.calls_once fresh) hcall hcarried

/-- a document that takes two requests in the other order, in the second round of its merger -/
theorem own_result_swapped :
    let merger : Merger := ⟨fun round _ => .done [⟨default, [round, 1 - round], .null⟩],
      fun _ _ _ response => match response with | .array parts => .done parts | _ => .crashed⟩
    let c : Scheduler := ⟨⟨"accounts", "http://accounts", none, .single merger, 0⟩,
      ⟨.indiscriminate, .single, 50, 2, 20⟩⟩
    let p (ticket : Nat) : Pending := ⟨ticket, { request := default, caller := default }, 0⟩
    let es : List Event := [.execute 0 .silent (p 0), .execute 0 .silent (p 1),
      .scheduled (.take 0), .scheduled (.serve 0 ⟨fun _ _ => none, 1⟩),
      .scheduled (.finish 0 0 (.done (.array [.bool true, .bool false])))]
    ((es.flatMap Event.arrivals).map (·.ticket)).Nodup ∧
      (1, .ok (.bool true)) ∈ answers (run (.batched c) {} es).2 ∧
      ∃ (batch : List Pending) (i : Nat), batch[i]? = some (p 1) ∧
        ((formed c (moments c {} es)).filter fun b => 1 ∈ b.map (·.ticket)) = [batch] := by
  intro merger c p es
  have fresh : ((es.flatMap Event.arrivals).map (·.ticket)).Nodup := by decide
  have told : answers (run (.batched c) {} es).2
      = [(0, .ok (.bool false)), (1, .ok (.bool true))] := rfl
  have answered : (1, .ok (.bool true)) ∈ answers (run (.batched c) {} es).2 := by
    rw [told]
    exact List.mem_cons_of_mem _ (List.mem_singleton_self _)
  obtain ⟨q, hq, hticket, batch, i, _, _, _, _, hformed, hi, _⟩ :=
    own_result c es fresh 1 _ answered
  have hsame : q = p 1 := by
    rcases List.mem_cons.mp hq with rfl | hq
    · cases hticket
    · exact List.mem_singleton.mp hq
  rw [hsame] at hi
  exact ⟨fresh, answered, batch, i, hi, hformed⟩

end Lane

end Coalesce
