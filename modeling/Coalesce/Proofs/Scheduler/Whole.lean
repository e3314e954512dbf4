import Coalesce.Proofs.Batch.Sizes
import Coalesce.Proofs.Options.Settings
import Coalesce.Proofs.Scheduler.Leaving
import Coalesce.Proofs.Scheduler.Window

/-!
# Windows that stay whole

* `Scheduler.batches_length`   no batch of a window holds more requests than fit;
* `Scheduler.History.formed_sized`
                               so no batch of a run does, and none is empty;
* `Scheduler.batches_whole`    requests that all fit are one batch, when anybody may share it;
* `Scheduler.History.fits`     a window that waits to be taken is no larger than it is waited for;
* `Scheduler.whole_windows`    so a scheduler that batches indiscriminately never cuts a window.

Three parts work together: the options are resolved so that a window waits for as many requests as
fit one batch, the window never holds more, whatever flushes it, and the partition opens no second
batch before the first one is full.
-/

namespace Coalesce

namespace Scheduler

theorem batches_length {c : Scheduler} (pos : 0 < c.settings.maxSize) {live b : List Pending}
    (hb : b ∈ c.batches live) : b.length ≤ c.settings.maxSize := by
  obtain ⟨g, hg, rfl⟩ := List.mem_map.mp hb
  refine (List.length_filterMap_le _ _).trans ?_
  unfold Batch.indices
  rw [List.length_map]
  exact Strategy.partition_length pos hg

theorem batches_whole {c : Scheduler} (mixes : c.settings.strategy = .indiscriminate)
    {live : List Pending} (some : live ≠ []) (fits : live.length ≤ c.settings.maxSize) :
    c.batches live = [live] := by
  have hitems : live.map (·.item) ≠ [] := fun hnil => some (List.map_eq_nil_iff.mp hnil)
  have hlen : (live.map (·.item)).length ≤ c.settings.maxSize := by
    rw [List.length_map]
    exact fits
  unfold batches
  rw [mixes, Strategy.partition_whole hitems hlen, List.map_singleton]
  unfold Batch.indices
  rw [entries_indices, List.length_map, range_filterMap]

section
variable {c : Scheduler} {past : List Moment} {s : State} {effects : List Effect}

theorem History.fits (h : c.History past s effects) (size : 0 < c.settings.waitQueries) {f : Flush}
    (hf : f ∈ s.queue) : f ∈ c.flushes past ∧ f.items.length ≤ c.settings.waitQueries := by
  obtain ⟨_, hcounted⟩ := h.window size
  have hflushed := hcounted.queue.subset hf
  exact ⟨hflushed, hcounted.sizes f (List.mem_filter.mp hflushed).1⟩

/-- A batch is not empty and not too large, and holds nothing but requests that came in. -/
theorem History.formed_sized (h : c.History past s effects) (pos : 0 < c.settings.maxSize)
    {b : List Pending} (hb : b ∈ c.formed past) :
    b ≠ [] ∧ b.length ≤ c.settings.maxSize ∧ b ⊆ arrivals past := by
  obtain ⟨others, hperm⟩ := h.formed_arrivals
  have harrived : b ⊆ arrivals past := fun p hp => hperm.mem_iff.mpr
    (List.mem_append_right _ (List.mem_append_right _
      (List.mem_append_left _ (List.mem_flatten.mpr ⟨b, hb, hp⟩))))
  obtain ⟨m, _, hformed⟩ := List.mem_flatMap.mp hb
  obtain ⟨now, f, takes⟩ := takes_of_formed hformed
  rw [takes.formed] at hformed
  exact ⟨c.batches_nonempty hformed, batches_length pos hformed, harrived⟩

theorem flushes_subset (c : Scheduler) (before after : List Moment) :
    c.flushes before ⊆ c.flushes (before ++ after) := by
  unfold flushes closings
  rw [List.filterMap_append, List.filter_append]
  exact List.subset_append_left _ _

end

/-- the dispatcher goes on with the batches of the window that it takes -/
theorem Takes.working_formed {c : Scheduler} {m : Moment} {now : Int} {f : Flush}
    (takes : Takes m now f) : (c.step m.state m.event).1.worker = .working (m.formed c) := by
  obtain ⟨queue, hqueue⟩ := takes.next
  rw [takes.formed, takes.event]
  show (c.take now m.state).1.worker = _
  rw [c.take_next now takes.working hqueue]
  split
  · rename_i hnone
    rw [List.isEmpty_iff.mp hnone, batches_nil]
    exact takes.working
  · rfl

/-- **An indiscriminate window is one batch.**  Resolve any options of a target that batches
indiscriminately, and take any run of a scheduler with these settings.  Each window that is taken in
it is one that was flushed, with requests in the order of arrival and none left out between them.
All its live requests become one batch, in the same order, or none when nobody is left; that is
what the dispatcher goes on with.  And nothing else is ever served: every batch is all that was live
of some window. -/
theorem whole_windows (o : Options) (mixes : o.strategy = .indiscriminate) (t : Target)
    (es : List Event) :
    let c : Scheduler := ⟨t, o.settings⟩
    let past := c.moments {} es
    (∀ m ∈ past, ∀ now f, Takes m now f →
      let live := f.items.filter (c.live m.state.left now)
      f ∈ c.flushes past ∧ f.items.IsInfix (es.flatMap Event.arrivals) ∧
      m.formed c = (if live = [] then [] else [live]) ∧
      (c.step m.state m.event).1.worker = .working (m.formed c)) ∧
    ∀ v ∈ servings past, ∃ m ∈ past, ∃ now f, Takes m now f ∧
      v.batch = f.items.filter (c.live m.state.left now) := by
  intro c past
  have h : c.History past (c.run {} es).1 (c.run {} es).2 := c.history_run es
  have hsize : c.settings.waitQueries = c.settings.maxSize := o.waitQueries_forced mixes
  have hpos : 0 < c.settings.waitQueries := by
    have := o.maxSize_within.1
    show 0 < o.settings.waitQueries
    rw [o.waitQueries_forced mixes]
    omega
  have hwhole : ∀ m ∈ past, ∀ now f, Takes m now f →
      f ∈ c.flushes past ∧ f.items.IsInfix (arrivals past) ∧
      m.formed c = if f.items.filter (c.live m.state.left now) = [] then []
        else [f.items.filter (c.live m.state.left now)] := by
    intro m hm now f takes
    obtain ⟨before, after, told, hpast, hbefore⟩ := h.before hm
    obtain ⟨queue, hqueue⟩ := takes.next
    have hqueued : f ∈ m.state.queue := by
      rw [hqueue]
      exact List.mem_cons_self
    obtain ⟨hflushed, hlength⟩ := hbefore.fits hpos hqueued
    have hinfix := hbefore.windows_consecutive.1 f hqueued
    rw [hpast]
    refine ⟨c.flushes_subset _ _ hflushed, ?_, ?_⟩
    · rw [arrivals_append]
      exact hinfix.trans (List.prefix_append _ _).isInfix
    · rw [takes.formed_live]
      split
      · rename_i hnone
        rw [hnone, batches_nil]
      · rename_i hsome
        refine batches_whole mixes hsome ?_
        calc (f.items.filter (c.live m.state.left now)).length
            ≤ f.items.length := List.length_filter_le _ _
          _ ≤ c.settings.waitQueries := hlength
          _ = c.settings.maxSize := hsize
  refine ⟨fun m hm now f takes => ?_, fun v hv => ?_⟩
  · obtain ⟨hflushed, hinfix, hformed⟩ := hwhole m hm now f takes
    rw [arrivals_moments] at hinfix
    exact ⟨hflushed, hinfix, hformed, takes.working_formed⟩
  · obtain ⟨m, hm, hformed⟩ := List.mem_flatMap.mp (h.served_formed hv)
    obtain ⟨now, f, takes⟩ := takes_of_formed hformed
    refine ⟨m, hm, now, f, takes, ?_⟩
    rw [(hwhole m hm now f takes).2.2] at hformed
    split at hformed
    · exact absurd hformed List.not_mem_nil
    · exact List.mem_singleton.mp hformed

/-- a window that asked for nine hundred requests and is flushed by the third one, a query; the caller
of a mutation before it has left -/
theorem whole_windows_forced :
    let o : Options :=
      { strategy := .indiscriminate, maxSize := some 3, wait := { queries := some 900 } }
    let t : Target := ⟨"accounts", "http://accounts", none, .array, 0⟩
    let c : Scheduler := ⟨t, ⟨.indiscriminate, .array, 3, 3, 20⟩⟩
    let p (ticket : Nat) (kind : OperationKind) : Pending :=
      ⟨ticket, { request := default, kind, caller := ⟨[], none, ⟨ticket, [], default⟩⟩ }, 0⟩
    let items : List Pending := [p 0 .query, p 1 .mutation, p 2 .query]
    let es : List Event := [.submit (p 0 .query), .submit (p 1 .mutation), .leave 1,
      .submit (p 2 .query), .submit (p 3 .query), .take 0, .serve 0 .silent]
    let m : Moment :=
      ⟨{ pending := [p 3 .query], generation := 1, timers := [⟨0, 20⟩, ⟨1, 20⟩],
         queue := [⟨.size, items⟩], left := [1] }, .take 0⟩
    o.strategy = .indiscriminate ∧ o.settings = c.settings ∧ m ∈ c.moments {} es ∧
      Takes m 0 ⟨.size, items⟩ ∧ m.formed c = [[p 0 .query, p 2 .query]] := by
  intro o t c p items es m
  have resolved : o.settings = c.settings := by decide
  have one : m ∈ c.moments {} es := by
    have hfifth : (c.moments {} es)[5]? = some m := rfl
    exact List.mem_of_getElem? hfifth
  have takes : Takes m 0 ⟨.size, items⟩ := ⟨rfl, rfl, [], rfl⟩
  have hall := whole_windows o rfl t es
  rw [resolved] at hall
  obtain ⟨_, _, hformed, _⟩ := hall.1 m one 0 _ takes
  exact ⟨rfl, resolved, one, takes, hformed⟩

end Scheduler

end Coalesce
