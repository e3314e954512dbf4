import Coalesce.Proofs.Codec.Merging
import Coalesce.Proofs.Gateway.Isolation

/-!
# Documents that are refused

* `Scheduler.Serving.Refused`  no call is started for a batch, and an error is all that comes of it;
* `Scheduler.Serving.refused`  that is so when the documents for the batch are refused;
* `Lane.merge_exact`           documents are accepted just if they share out the requests, which is
                               just if their results can be put back in order; if they are refused,
                               no batch of these requests is ever sent.

A deadline is looked at before requests are merged, so it may be the first to end a batch.  A
request that is alone in its batch is not merged at all.
-/

namespace Coalesce

namespace Scheduler

/-- No call is started for a batch, and all that comes of it is that there is no time left, or else
some error. -/
structure Serving.Refused (c : Scheduler) (v : Serving) (cause : Error) : Prop where
  uncalled : v.called c = []
  ends : v.progress c = .ended (.failed
    (match callTimeout c.target.timeout (earliestDeadline (v.batch.map (·.item))) v.now
        c.target.padding with
      | .ok _ => cause
      | .error late => late))

theorem Serving.refused {c : Scheduler} {m : Merger} (merges : c.target.codec = .single m)
    {v : Serving} (some : v.batch ≠ []) (several : (v.batch.map (·.item.request)).length ≠ 1)
    {cause : Error}
    (bad : m.mergeChecked v.transport.round (v.batch.map (·.item.request)) = .failed cause) :
    v.Refused c cause := by
  have hitems : v.batch.map (·.item) ≠ [] := fun hnil => some (List.map_eq_nil_iff.mp hnil)
  have hrequests : (v.batch.map (·.item)).map (·.request) = v.batch.map (·.item.request) :=
    List.map_map
  have hencode : c.target.codec.encode ((v.batch.map (·.item)).map (·.request)) v.transport.round
      = .failed cause := by
    rw [merges, hrequests]
    exact Codec.encode_merged_failed several bad
  have hends : c.target.start v.now v.transport (v.batch.map (·.item)) = ([], .ended (.failed
      (match callTimeout c.target.timeout (earliestDeadline (v.batch.map (·.item))) v.now
          c.target.padding with
        | .ok _ => cause
        | .error late => late))) := by
    cases htime : callTimeout c.target.timeout (earliestDeadline (v.batch.map (·.item))) v.now
        c.target.padding with
    | ok limit => exact Target.start_unwritten htime hencode hitems
    | error late => exact Target.start_late htime hitems
  exact ⟨congrArg Prod.fst hends, congrArg Prod.snd hends⟩

end Scheduler

namespace Lane

theorem formed_nonempty {c : Scheduler} {past : List Moment} {b : List Pending}
    (hb : b ∈ formed c past) : b ≠ [] := by
  rcases List.mem_append.mp ((formed_perm c past).mem_iff.mp hb) with hb | hb
  · obtain ⟨live, hlive⟩ := Scheduler.formed_batches hb
    exact c.batches_nonempty hlive
  · obtain ⟨v, hv, rfl⟩ := List.mem_map.mp hb
    obtain ⟨moment, _, hsending⟩ := List.mem_filterMap.mp hv
    obtain ⟨p, hp⟩ := sending?_single hsending
    rw [hp]
    exact List.cons_ne_nil p []

/-- **Merging is checked exactly.**  Whatever documents a merger makes for requests in some round, as
many as they are: they are accepted, as they are, just if their members are the positions of all
requests, each one once; and that is so just if a layout of their members has that size and restores
all results that fit.  Otherwise the error is that of the first member that does not fit, or that
some are missing; and then, whatever happens at a target that uses the merger, no call is started
for a batch of these requests in that round, and every such batch ends with that error unless there
is no time left.  A call for these requests is one of a batch that was served in another round. -/
theorem merge_exact (m : Merger) (round : Nat) (requests : List Request)
    (documents : List MergedDocument) (made : m.merge round requests = .done documents) :
    let layout : Layout := ⟨documents.map (·.members)⟩
    let shared := (documents.flatMap (·.members)).Perm (List.range requests.length)
    (∀ accepted, m.mergeChecked round requests = .done accepted ↔ accepted = documents ∧ shared) ∧
    (∀ (α : Type) [Nonempty α], shared ↔ layout.size = requests.length ∧
      ∀ results : List (List α), results.map List.length = layout.groups.map List.length →
        ∃ values, layout.restore results = .ok values) ∧
    (¬ shared → ∃ cause, m.mergeChecked round requests = .failed cause ∧
      Merger.Defect requests.length documents cause ∧
      ∀ (c : Scheduler) (es : List Event), c.target.codec = .single m → requests.length ≠ 1 →
        (∀ v ∈ servings (moments c {} es), v.batch.map (·.item.request) = requests →
          v.transport.round = round → v.Refused c cause) ∧
        ∀ x ∈ calls (run (.batched c) {} es).2, x.2.map (·.item.request) = requests →
          ∃ v ∈ servings (moments c {} es), v.batch = x.2 ∧ x.1 ∈ v.called c ∧
            v.transport.round ≠ round) := by
  intro layout shared
  refine ⟨fun accepted => Merger.mergeChecked_eq_done made, fun α _ => Merger.restorable_iff.symm,
    fun hshared => ?_⟩
  obtain ⟨cause, hdefect⟩ := Merger.defect_iff.mpr hshared
  have hbad := (Merger.mergeChecked_eq_failed made).mpr hdefect
  refine ⟨cause, hbad, hdefect, fun c es merges several => ?_⟩
  have h := history_run c es
  have hrefused : ∀ v ∈ servings (moments c {} es), v.batch.map (·.item.request) = requests →
      v.transport.round = round → v.Refused c cause := by
    rintro v hv rfl rfl
    exact Scheduler.Serving.refused merges (formed_nonempty (h.batch_formed hv)) several hbad
  refine ⟨hrefused, fun x hx hsame => ?_⟩
  obtain ⟨v, hv, hcall⟩ := List.mem_flatMap.mp (h.calls_perm.mem_iff.mp hx)
  obtain ⟨call, hcalled, rfl⟩ := List.mem_map.mp hcall
  refine ⟨v, hv, rfl, hcalled, fun hround => ?_⟩
  rw [(hrefused v hv hsame hround).uncalled] at hcalled
  exact absurd hcalled List.not_mem_nil

/-- a merger that goes wrong in its second round, with a document without members beside two that
share one -/
theorem merge_exact_overlap :
    let documents : List MergedDocument :=
      [⟨default, [1], .null⟩, ⟨default, [], .null⟩, ⟨default, [0, 1], .null⟩]
    let merger : Merger := ⟨fun round _ => .done (if round = 1 then documents else
      [⟨default, [0, 1], .null⟩]), fun _ _ _ _ => .crashed⟩
    let c : Scheduler := ⟨⟨"accounts", "http://accounts", none, .single merger, 0⟩,
      ⟨.indiscriminate, .single, 50, 2, 20⟩⟩
    let p (ticket : Nat) : Pending := ⟨ticket, { request := default, caller := default }, 0⟩
    let transport : Transport := ⟨fun _ _ => none, 1⟩
    let es : List Event := [.execute 0 .silent (p 0), .execute 0 .silent (p 1),
      .scheduled (.take 0), .scheduled (.serve 0 transport)]
    merger.merge 1 [default, default] = .done documents ∧
      merger.mergeChecked 0 [default, default] = .done [⟨default, [0, 1], .null⟩] ∧
      ∃ v ∈ servings (moments c {} es), v.batch = [p 0, p 1] ∧ v.called c = [] ∧
        v.progress c = .ended (.failed (.runtime (.mergeRepeats 1))) := by
  intro documents merger c p transport es
  have made : merger.merge 1 [default, default] = .done documents := rfl
  obtain ⟨_, _, hrefused⟩ := merge_exact merger 1 [default, default] documents made
  obtain ⟨cause, hcause, _, hnever⟩ := hrefused (by decide)
  have hrepeats : cause = .runtime (.mergeRepeats 1) := by
    cases hcause
    rfl
  obtain ⟨hserved, _⟩ := hnever c es rfl (by decide)
  let v : Scheduler.Serving := ⟨0, transport, [p 0, p 1]⟩
  have hv : v ∈ servings (moments c {} es) := List.mem_singleton_self v
  obtain ⟨huncalled, hends⟩ := hserved v hv rfl rfl
  rw [hrepeats] at hends
  exact ⟨made, rfl, v, hv, rfl, huncalled, hends⟩

end Lane

end Coalesce
