import Coalesce.Proofs.Deadline
import Coalesce.Proofs.Scheduler.Failure
import Coalesce.Proofs.Scheduler.Results

/-!
# Requests that come too late

* `Scheduler.Takes`      a moment in which a window is taken, at some reading of the clock;
* `Scheduler.Late`       a caller waits, but less than nothing is left until its deadline;
* `Scheduler.TimesOut`   a request is told that its time is over: when its window is taken, or
                         because nothing is left for its batch;
* `Scheduler.mem_sift`, `Scheduler.Takes.told`
                         what the filter lets through, and what it tells the others;
* `Scheduler.History.told_then`, `Scheduler.History.queued_unformed`
                         what is told or formed is not held any more, or not queued;
* `Scheduler.Takes.batch_in_time`, `Scheduler.History.late_of_times_out`
                         there is time for each batch of a window, so that only late ones time out;
* `Scheduler.late_alone` the late requests of a window, and no others, are told that their time is
                         over.

The filter looks at each deadline without the timeout of the target, and a batch is given the
earliest of its deadlines and that timeout.  A timeout only shortens what is left, so there is time
for a batch of requests that were let through.
-/

namespace Coalesce

namespace Scheduler

structure Takes (m : Moment) (now : Int) (f : Flush) : Prop where
  event : m.event = .take now
  working : m.state.worker = .working []
  next : ∃ queue, m.state.queue = f :: queue

/-- in exact arithmetic, and after the reserve -/
def Late (c : Scheduler) (s : State) (now : Int) (p : Pending) (d : Int) : Prop :=
  p.ticket ∉ s.left ∧ p.item.deadline = some d ∧ d - now - c.target.padding < 0

inductive TimesOut (c : Scheduler) (past : List Moment) (p : Pending) (cause : Error) : Prop where
  | sifted (m : Moment) (now : Int) (f : Flush) (one : m ∈ past) (takes : Takes m now f)
      (member : p ∈ f.items) (waits : p.ticket ∉ m.state.left)
      (late : c.inTime now p = .error cause)
  | refused (m : Moment) (v : Serving) (one : m ∈ past) (serving : m.serving? = some v)
      (member : p ∈ v.batch) (waits : p.ticket ∉ m.state.left)
      (late : callTimeout c.target.timeout (earliestDeadline (v.batch.map (·.item))) v.now
        c.target.padding = .error cause)

/-! ## the filter -/

theorem inTime_error {c : Scheduler} (reserve : 0 ≤ c.target.padding)
    (fits : c.target.padding ≤ Word.signedMax) {s : State} {now : Int} {p : Pending}
    (waits : p.ticket ∉ s.left) {cause : Error} :
    c.inTime now p = .error cause ↔
      ∃ d, c.Late s now p d ∧ cause = .timeout d (remaining d now c.target.padding) := by
  unfold inTime Late
  rw [callTimeout_error]
  constructor
  · rintro ⟨d, hd, hleft, hcause⟩
    exact ⟨d, ⟨waits, hd, (remaining_neg_iff reserve fits).mp hleft⟩, hcause⟩
  · rintro ⟨d, ⟨_, hd, hleft⟩, hcause⟩
    exact ⟨d, hd, (remaining_neg_iff reserve fits).mpr hleft, hcause⟩

theorem mem_sift {c : Scheduler} {now : Int} {s : State} {items : List Pending} {p : Pending} :
    p ∈ (c.sift now s items).1 ↔
      p ∈ items ∧ p.ticket ∉ s.left ∧ ∃ limit, c.inTime now p = .ok limit := by
  induction items with
  | nil => exact ⟨fun h => absurd h List.not_mem_nil, fun h => absurd h.1 List.not_mem_nil⟩
  | cons q rest ih =>
    -- one that is not let through changes nothing
    have others : (q.ticket ∉ s.left → ∀ limit, c.inTime now q ≠ .ok limit) →
        (p ∈ (c.sift now s rest).1 ↔
          p ∈ q :: rest ∧ p.ticket ∉ s.left ∧ ∃ limit, c.inTime now p = .ok limit) := by
      intro hq
      rw [ih]
      constructor
      · rintro ⟨hp, hlive⟩
        exact ⟨List.mem_cons_of_mem _ hp, hlive⟩
      · rintro ⟨hp, hwaits, limit, hlimit⟩
        rcases List.mem_cons.mp hp with rfl | hp
        · exact absurd hlimit (hq hwaits limit)
        · exact ⟨hp, hwaits, limit, hlimit⟩
    unfold sift
    dsimp only
    split
    · rename_i hleft
      exact others fun hwaits => absurd hleft hwaits
    · rename_i hwaits
      split
      · rename_i limit hlimit
        rw [List.mem_cons, ih, List.mem_cons]
        constructor
        · rintro (rfl | ⟨hp, hrest⟩)
          · exact ⟨Or.inl rfl, hwaits, limit, hlimit⟩
          · exact ⟨Or.inr hp, hrest⟩
        · rintro ⟨rfl | hp, hrest⟩
          · exact Or.inl rfl
          · exact Or.inr ⟨hp, hrest⟩
      · rename_i cause hlate
        refine others fun _ limit hlimit => ?_
        rw [hlate] at hlimit
        cases hlimit

theorem sift_told {c : Scheduler} {now : Int} {s : State} {items : List Pending} {p : Pending}
    (hp : p ∈ items) (waits : p.ticket ∉ s.left) {cause : Error}
    (late : c.inTime now p = .error cause) :
    (p.ticket, .error cause) ∈ answers (c.sift now s items).2 := by
  induction items with
  | nil => exact absurd hp List.not_mem_nil
  | cons q rest ih =>
    unfold sift
    dsimp only
    rcases List.mem_cons.mp hp with rfl | hp
    · rw [if_neg waits, late]
      dsimp only
      rw [answers_append]
      refine List.mem_append_left _ ?_
      unfold answer
      rw [if_neg waits]
      exact List.mem_singleton_self _
    · split
      · exact ih hp
      · split
        · exact ih hp
        · rw [answers_append]
          exact List.mem_append_right _ (ih hp)

section
variable {c : Scheduler} {m : Moment} {now : Int} {f : Flush} (h : Takes m now f)
include h

theorem Takes.formed : m.formed c = c.batches (c.sift now m.state f.items).1 := by
  obtain ⟨queue, hqueue⟩ := h.next
  unfold Moment.formed
  rw [h.event, h.working, hqueue]

theorem Takes.queued {p : Pending} (hp : p ∈ f.items) : p ∈ m.state.queue.flatMap Flush.items := by
  obtain ⟨queue, hqueue⟩ := h.next
  rw [hqueue]
  exact List.mem_flatMap.mpr ⟨f, List.mem_cons_self, hp⟩

/-- The batches of a window hold those that were let through. -/
theorem Takes.mem_formed {p : Pending} : p ∈ (m.formed c).flatten ↔
    p ∈ f.items ∧ p.ticket ∉ m.state.left ∧ ∃ limit, c.inTime now p = .ok limit := by
  rw [h.formed, (c.batches_perm _).mem_iff, mem_sift]

theorem Takes.told {p : Pending} (hp : p ∈ f.items) (waits : p.ticket ∉ m.state.left)
    {cause : Error} (late : c.inTime now p = .error cause) :
    (p.ticket, .error cause) ∈ answers (c.step m.state m.event).2 := by
  obtain ⟨queue, hqueue⟩ := h.next
  have hsift := sift_told (c := c) hp waits late
  rw [h.event]
  show _ ∈ answers (c.take now m.state).2
  unfold take
  rw [h.working, hqueue]
  dsimp only
  split
  · exact hsift
  · rw [answers_append]
    exact List.mem_append_left _ hsift

end

theorem mem_held_of_queued {s : State} {p : Pending} (hp : p ∈ s.queue.flatMap Flush.items) :
    p ∈ s.held := List.mem_append_right _ (List.mem_append_left _ hp)

theorem queued_of_formed {c : Scheduler} {m : Moment} {p : Pending}
    (hp : p ∈ (m.formed c).flatten) : p ∈ m.state.queue.flatMap Flush.items := by
  unfold Moment.formed at hp
  split at hp
  · rename_i hevent hworking hqueue
    have takes : Takes m _ _ := ⟨hevent, hworking, _, hqueue⟩
    rw [(c.batches_perm _).mem_iff, mem_sift] at hp
    exact takes.queued hp.1
  · exact absurd hp List.not_mem_nil

/-! ## once and for all -/

section
variable {c : Scheduler} {past : List Moment} {s : State} {effects : List Effect}
  (h : c.History past s effects)
include h

/-- Who is told something is not held any more. -/
theorem History.told_then {before after : List Moment} {m n : Moment}
    (hpast : past = before ++ m :: after) (fresh : ((arrivals past).map (·.ticket)).Nodup)
    {p : Pending} {result : Except Error Json}
    (told : (p.ticket, result) ∈ answers (c.step m.state m.event).2) (hn : n ∈ after) :
    p ∉ n.state.held := by
  intro held
  obtain ⟨mid, rest, rfl⟩ := List.append_of_mem hn
  have hsplit : past = (before ++ m :: mid) ++ n :: rest := by
    rw [hpast, List.append_assoc, List.cons_append]
  rw [hsplit] at h fresh
  obtain ⟨earlier, _, hearlier, _⟩ := h.split
  have hnone := hearlier.held_untold (fresh_first fresh) held
  obtain ⟨first, more, _, rfl⟩ := hearlier.split
  have hanswer : result ∈ answersTo p.ticket (first ++ ((c.step m.state m.event).2 ++ more)) := by
    rw [mem_answersTo, answers_append, answers_append]
    exact List.mem_append_right _ (List.mem_append_left _ told)
  rw [hnone] at hanswer
  exact absurd hanswer List.not_mem_nil

/-- What waits to be taken is not in a batch yet. -/
theorem History.queued_unformed (fresh : ((arrivals past).map (·.ticket)).Nodup) {p : Pending}
    (hp : p ∈ s.queue.flatMap Flush.items) : p ∉ (c.formed past).flatten := by
  intro hformed
  obtain ⟨others, hperm⟩ := h.formed_arrivals
  have hnodup := (hperm.map (·.ticket)).nodup_iff.mp fresh
  simp only [List.map_append] at hnodup
  have hqueue := (List.nodup_append.mp (List.nodup_append.mp hnodup).2.1).2.2
  exact hqueue _ (List.mem_map_of_mem hp) _
    (List.mem_append_left _ (List.mem_map_of_mem hformed)) rfl

theorem History.same_batch (fresh : ((arrivals past).map (·.ticket)).Nodup) {a b : List Pending}
    (ha : a ∈ c.formed past) (hb : b ∈ c.formed past) {p : Pending} (hpa : p ∈ a) (hpb : p ∈ b) :
    b = a := by
  have hnodup := h.formed_once fresh
  rw [List.map_flatten, ← List.flatMap_def] at hnodup
  have hone := filter_holding (fun b : List Pending => b.map (·.ticket)) hnodup ha
    (List.mem_map_of_mem hpa)
  have hmem : b ∈ (c.formed past).filter fun b => p.ticket ∈ b.map (·.ticket) :=
    List.mem_filter.mpr ⟨hb, decide_eq_true (List.mem_map_of_mem hpb)⟩
  rw [hone] at hmem
  exact List.mem_singleton.mp hmem

theorem History.served_formed {v : Serving} (hv : v ∈ servings past) : v.batch ∈ c.formed past := by
  obtain ⟨rest, hformed, _⟩ := h.formed_eq
  rw [hformed]
  exact List.mem_append_left _ (List.mem_map_of_mem hv)

/-- A request that times out is told so, and nothing else. -/
theorem History.timed_out (fresh : ((arrivals past).map (·.ticket)).Nodup) {p : Pending}
    {cause : Error} (out : c.TimesOut past p cause) :
    answersTo p.ticket effects = [.error cause] := by
  cases out with
  | sifted m now f one takes member waits late =>
    have htold := h.told_once fresh one (mem_held_of_queued (takes.queued member))
      fun hwaits => takes.told member hwaits late
    rw [htold, if_neg waits]
  | refused m v one serving member waits late =>
    have hsome : v.batch.map (·.item) ≠ [] := by
      intro hnil
      rw [List.map_eq_nil_iff.mp hnil] at member
      exact absurd member List.not_mem_nil
    have hends : c.Ends m v.batch (.failed cause) :=
      .atOnce m v _ serving (congrArg Prod.snd (Target.start_late late hsome))
    rw [h.failed fresh one hends rfl member, if_neg waits]

/-- Who is told something when its window is taken is in no batch. -/
theorem History.late_unformed {m : Moment} (one : m ∈ past)
    (fresh : ((arrivals past).map (·.ticket)).Nodup) {now : Int} {f : Flush} (takes : Takes m now f)
    {p : Pending} (member : p ∈ f.items) (waits : p.ticket ∉ m.state.left) {cause : Error}
    (late : c.inTime now p = .error cause) : p ∉ (c.formed past).flatten := by
  obtain ⟨before, after, rfl⟩ := List.append_of_mem one
  intro hformed
  rw [List.append_cons, formed_append, formed_snoc, List.flatten_append, List.flatten_append,
    List.mem_append, List.mem_append] at hformed
  rcases hformed with (hbefore | hnow) | hafter
  · obtain ⟨told, _, htold, _⟩ := h.split
    exact htold.queued_unformed (fresh_first fresh) (takes.queued member) hbefore
  · obtain ⟨_, _, limit, hlimit⟩ := takes.mem_formed.mp hnow
    rw [late] at hlimit
    cases hlimit
  · obtain ⟨b, hb, hpb⟩ := List.mem_flatten.mp hafter
    obtain ⟨n, hn, hbn⟩ := List.mem_flatMap.mp hb
    have hqueued : p ∈ n.state.queue.flatMap Flush.items :=
      queued_of_formed (List.mem_flatten.mpr ⟨b, hbn, hpb⟩)
    exact h.told_then rfl fresh (takes.told member waits late) hn (mem_held_of_queued hqueued)

/-- One that was let through may only time out with its batch. -/
theorem History.live_refused {m : Moment} (one : m ∈ past)
    (fresh : ((arrivals past).map (·.ticket)).Nodup) {p : Pending} {b : List Pending}
    (hb : b ∈ m.formed c) (hpb : p ∈ b) {cause : Error} (out : c.TimesOut past p cause) :
    ∃ v ∈ servings past, v.batch = b ∧
      callTimeout c.target.timeout (earliestDeadline (v.batch.map (·.item))) v.now c.target.padding
        = .error cause := by
  have hformed : b ∈ c.formed past := List.mem_flatMap.mpr ⟨m, one, hb⟩
  cases out with
  | sifted n now f one' takes member waits late =>
    have hnone := h.late_unformed one' fresh takes member waits late
    exact absurd (List.mem_flatten.mpr ⟨b, hformed, hpb⟩) hnone
  | refused n v one' serving member waits late =>
    have hv : v ∈ servings past := List.mem_filterMap.mpr ⟨n, one', serving⟩
    exact ⟨v, hv, h.same_batch fresh hformed (h.served_formed hv) hpb member, late⟩

end

/-- There is time for every batch of those that were let through. -/
theorem Takes.batch_in_time {c : Scheduler} {m : Moment} {now : Int} {f : Flush}
    (takes : Takes m now f) {b : List Pending} (hb : b ∈ m.formed c) :
    ∃ limit, callTimeout c.target.timeout (earliestDeadline (b.map (·.item))) now c.target.padding
      = .ok limit := by
  refine callTimeout_aggregate fun d hd => ?_
  obtain ⟨i, hi, rfl⟩ := List.mem_map.mp hd
  obtain ⟨p, hp, rfl⟩ := List.mem_map.mp hi
  exact (takes.mem_formed.mp (List.mem_flatten.mpr ⟨b, hb, hp⟩)).2.2

/-- What the batches of a window hold, told by the deadlines. -/
theorem Takes.mem_batches {c : Scheduler} (reserve : 0 ≤ c.target.padding)
    (fits : c.target.padding ≤ Word.signedMax) {m : Moment} {now : Int} {f : Flush}
    (takes : Takes m now f) {p : Pending} : (∃ b ∈ m.formed c, p ∈ b) ↔
      p ∈ f.items ∧ p.ticket ∉ m.state.left ∧ ∀ d, ¬ c.Late m.state now p d := by
  rw [← List.mem_flatten, takes.mem_formed]
  refine and_congr_right fun _ => and_congr_right fun waits => ?_
  constructor
  · rintro ⟨limit, hlimit⟩ d hlate
    have herror := (inTime_error reserve fits waits).mpr ⟨d, hlate, rfl⟩
    rw [hlimit] at herror
    cases herror
  · intro hnone
    cases hp : c.inTime now p with
    | ok limit => exact ⟨limit, rfl⟩
    | error cause =>
      obtain ⟨d, hlate, _⟩ := (inTime_error reserve fits waits).mp hp
      exact absurd hlate (hnone d)

section
variable {c : Scheduler} {past : List Moment} {s : State} {effects : List Effect}
  (h : c.History past s effects) (reserve : 0 ≤ c.target.padding)
  (fits : c.target.padding ≤ Word.signedMax) {m : Moment} (one : m ∈ past)
  (fresh : ((arrivals past).map (·.ticket)).Nodup) {now : Int} {f : Flush} (takes : Takes m now f)
include reserve fits one takes

theorem Late.times_out {p : Pending} (member : p ∈ f.items) {d : Int}
    (late : c.Late m.state now p d) :
    c.TimesOut past p (.timeout d (remaining d now c.target.padding)) :=
  .sifted m now f one takes member late.1 ((inTime_error reserve fits late.1).mpr ⟨d, late, rfl⟩)

include h fresh

/-- A request that times out is late, since there is time for each batch of the window. -/
theorem History.late_of_times_out
    (shared : ∀ v ∈ servings past, v.batch ∈ m.formed c → v.now = now) {p : Pending}
    (member : p ∈ f.items) {cause : Error} (out : c.TimesOut past p cause) :
    ∃ d, c.Late m.state now p d ∧ cause = .timeout d (remaining d now c.target.padding) := by
  have htold := h.timed_out fresh out
  have hheld : p ∈ m.state.held := mem_held_of_queued (takes.queued member)
  by_cases hleft : p.ticket ∈ m.state.left
  · -- whoever has left by then is told nothing
    have htells : p.ticket ∉ m.state.left →
        (p.ticket, .error cause) ∈ answers (c.step m.state m.event).2 :=
      fun hwaits => absurd hleft hwaits
    have hnone := h.told_once fresh one hheld htells
    rw [if_pos hleft, htold] at hnone
    cases hnone
  · by_cases hnone : ∀ d, ¬ c.Late m.state now p d
    · obtain ⟨b, hb, hpb⟩ := (takes.mem_batches reserve fits).mpr ⟨member, hleft, hnone⟩
      obtain ⟨v, hv, rfl, hrefused⟩ := h.live_refused one fresh hb hpb out
      obtain ⟨limit, hlimit⟩ := takes.batch_in_time hb
      rw [shared v hv hb, hlimit] at hrefused
      cases hrefused
    · obtain ⟨d, hlate⟩ := not_forall_not.mp hnone
      have hsame := h.timed_out fresh (hlate.times_out reserve fits one takes member)
      rw [htold] at hsame
      cases hsame
      exact ⟨d, hlate, rfl⟩

/-- No call is started for a late request. -/
theorem History.late_uncalled {p : Pending} (member : p ∈ f.items) {d : Int}
    (late : c.Late m.state now p d) : ∀ x ∈ calls effects, p ∉ x.2 := by
  intro x hx hpx
  rw [h.calls_eq] at hx
  obtain ⟨v, hv, hcall⟩ := List.mem_flatMap.mp hx
  obtain ⟨call, _, rfl⟩ := List.mem_map.mp hcall
  have hrefused := (inTime_error reserve fits late.1).mpr ⟨d, late, rfl⟩
  have hformed : p ∈ (c.formed past).flatten :=
    List.mem_flatten.mpr ⟨v.batch, h.served_formed hv, hpx⟩
  exact h.late_unformed one fresh takes member late.1 hrefused hformed

end

/-- **Late requests fail alone.**  Take any run of requests with different tickets, and a window
that is taken in it, at some reading of the clock, whose batches are served at the same reading.
The requests of the window that are told, then or ever, that their time is over are those whose
callers wait and whose own deadlines leave less than nothing after the reserve, in exact arithmetic,
and each of them is told its own deadline; they are told nothing else, and no call is started for
them.  The batches of the window hold all others whose callers wait, and there is time for each
batch, whatever its deadlines and the timeout of the target. -/
theorem late_alone (c : Scheduler) (reserve : 0 ≤ c.target.padding)
    (fits : c.target.padding ≤ Word.signedMax) (es : List Event)
    (fresh : ((es.flatMap Event.arrivals).map (·.ticket)).Nodup) (m : Moment)
    (one : m ∈ c.moments {} es) (now : Int) (f : Flush) (takes : Takes m now f)
    (shared : ∀ v ∈ servings (c.moments {} es), v.batch ∈ m.formed c → v.now = now) :
    let past := c.moments {} es
    let effects := (c.run {} es).2
    (∀ p ∈ f.items, ∀ cause, c.TimesOut past p cause ↔
      ∃ d, c.Late m.state now p d ∧ cause = .timeout d (remaining d now c.target.padding)) ∧
    (∀ p ∈ f.items, ∀ d, c.Late m.state now p d →
      answersTo p.ticket effects = [.error (.timeout d (remaining d now c.target.padding))] ∧
      ∀ x ∈ calls effects, p ∉ x.2) ∧
    (∀ p, (∃ b ∈ m.formed c, p ∈ b) ↔
      p ∈ f.items ∧ p.ticket ∉ m.state.left ∧ ∀ d, ¬ c.Late m.state now p d) ∧
    ∀ b ∈ m.formed c, ∃ limit, callTimeout c.target.timeout (earliestDeadline (b.map (·.item))) now
      c.target.padding = .ok limit := by
  intro past effects
  have h : c.History past (c.run {} es).1 effects := c.history_run es
  rw [← arrivals_moments c es] at fresh
  refine ⟨fun p hp cause => ⟨?_, ?_⟩, fun p hp d hlate => ⟨?_, ?_⟩, fun p => ?_, fun b hb => ?_⟩
  · intro hout
    exact h.late_of_times_out reserve fits one fresh takes shared hp hout
  · rintro ⟨d, hlate, rfl⟩
    exact hlate.times_out reserve fits one takes hp
  · exact h.timed_out fresh (hlate.times_out reserve fits one takes hp)
  · exact h.late_uncalled reserve fits one fresh takes hp hlate
  · exact takes.mem_batches reserve fits
  · exact takes.batch_in_time hb

/-- one request is late by a millisecond, though its caller would wait longer; the caller of another
late one has left, and the last ones travel together, just in time -/
theorem late_alone_just_in_time :
    let c : Scheduler := ⟨⟨"accounts", "http://accounts", some (.ofMillis 30000), .array, 5⟩,
      ⟨.indiscriminate, .array, 50, 4, 20⟩⟩
    let p (ticket : Nat) (override : Option Deadline) : Pending :=
      ⟨ticket, { request := default, caller := ⟨[], some 9000, default⟩, override }, 0⟩
    let items : List Pending := [p 0 (some 1004), p 1 (some 7), p 2 (some 1005), p 3 none]
    let before : List Event := items.map .submit ++ [.leave 1]
    let es : List Event := before ++ [.take 1000, .serve 1000 .silent]
    let m : Moment :=
      ⟨{ generation := 1, timers := [⟨0, 20⟩], queue := [⟨.size, items⟩], left := [1] }, .take 1000⟩
    ((es.flatMap Event.arrivals).map (·.ticket)).Nodup ∧ m ∈ c.moments {} es ∧
      Takes m 1000 ⟨.size, items⟩ ∧
      (∀ v ∈ servings (c.moments {} es), v.batch ∈ m.formed c → v.now = 1000) ∧
      m.formed c = [[p 2 (some 1005), p 3 none]] ∧
      answersTo 0 (c.run {} es).2 = [.error (.timeout 1004 (-1))] ∧
      ∃ limit, callTimeout (some (.ofMillis 30000)) (some 1005) 1000 5 = .ok limit := by
  intro c p items before es m
  have opened : (c.run {} before).1 = m.state := rfl
  have fresh : ((es.flatMap Event.arrivals).map (·.ticket)).Nodup := by decide
  have moments : c.moments {} es
      = c.moments {} before ++ c.moments m.state [.take 1000, .serve 1000 .silent] := by
    rw [moments_append, opened]
  have one : m ∈ c.moments {} es := by
    rw [moments]
    exact List.mem_append_right _ List.mem_cons_self
  have takes : Takes m 1000 ⟨.size, items⟩ := ⟨rfl, rfl, [], rfl⟩
  have formed : m.formed c = [[p 2 (some 1005), p 3 none]] := rfl
  have served : servings (c.moments m.state [.take 1000, .serve 1000 .silent])
      = [⟨1000, .silent, [p 2 (some 1005), p 3 none]⟩] := rfl
  have unserved : servings (c.moments {} before) = [] := rfl
  have shared : ∀ v ∈ servings (c.moments {} es), v.batch ∈ m.formed c → v.now = 1000 := by
    intro v hv _
    rw [moments, servings_append, unserved, served] at hv
    rw [List.mem_singleton.mp hv]
  obtain ⟨_, hlate, _, htime⟩ :=
    c.late_alone (by decide) (by decide) es fresh m one 1000 _ takes shared
  have left : remaining 1004 1000 c.target.padding = -1 := by decide
  have late : c.Late m.state 1000 (p 0 (some 1004)) 1004 := ⟨by decide, rfl, by decide⟩
  have told := (hlate (p 0 (some 1004)) List.mem_cons_self 1004 late).1
  rw [left] at told
  have batch : [p 2 (some 1005), p 3 none] ∈ m.formed c := by
    rw [formed]
    exact List.mem_singleton_self _
  exact ⟨fresh, one, takes, shared, formed, told, htime _ batch⟩

end Scheduler

end Coalesce
