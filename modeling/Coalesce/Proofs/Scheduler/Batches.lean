import Coalesce.Proofs.Batch.Strategy
import Coalesce.Proofs.Scheduler.Change
import Mathlib.Data.List.Nodup

/-!
# The batches of a scheduler

* `Scheduler.batches_perm`, `Scheduler.batches_nonempty`, `Scheduler.batches_fit`
                               the batches hold every request once, none is empty, and their members
                               fit;
* `Scheduler.History.formed_eq`
                               batches are served in the order in which they are formed;
* `Scheduler.Kept`             a delivery is what was started when its batch was served, with the
                               responses that came back since;
* `Scheduler.History.orderly`  all deliveries are kept, under different numbers.
-/

namespace Coalesce

namespace Scheduler

/-! ## forming -/

theorem range_filterMap {α : Type} (l : List α) :
    (List.range l.length).filterMap (fun i => l[i]?) = l := by
  have hmap : (List.range l.length).map (fun i => l[i]?) = l.map some := by
    apply List.ext_getElem?
    intro i
    rw [List.getElem?_map, List.getElem?_map]
    by_cases hi : i < l.length
    · rw [List.getElem?_range hi, List.getElem?_eq_getElem hi]
      exact congrArg some (List.getElem?_eq_getElem hi)
    · rw [List.getElem?_eq_none (by rw [List.length_range]; omega),
        List.getElem?_eq_none (by omega)]
      rfl
  calc (List.range l.length).filterMap (fun i => l[i]?)
      = ((List.range l.length).map fun i => l[i]?).filterMap id := by
        rw [List.filterMap_map]
        rfl
    _ = (l.map some).filterMap id := by rw [hmap]
    _ = l := by
        rw [List.filterMap_map]
        exact List.filterMap_some

theorem batches_perm (c : Scheduler) (live : List Pending) :
    (c.batches live).flatten.Perm live := by
  let items := live.map (·.item)
  have hflat : (c.batches live).flatten
      = ((c.settings.strategy.partition c.settings.maxSize items).flatten.map Entry.index).filterMap
          fun i => live[i]? := by
    unfold batches
    rw [List.map_flatten, List.filterMap_flatten, List.map_map]
    rfl
  have hperm := (c.settings.strategy.partition_perm c.settings.maxSize items).map Entry.index
  rw [entries_indices, List.length_map] at hperm
  rw [hflat]
  have h := hperm.filterMap fun i => live[i]?
  rwa [range_filterMap] at h

/-- A batch holds the requests of the entries that the strategy puts together. -/
theorem batch_entries (c : Scheduler) {live b : List Pending} (hb : b ∈ c.batches live) :
    ∃ g ∈ c.settings.strategy.partition c.settings.maxSize (live.map (·.item)),
      ∀ p ∈ b, ∃ e ∈ g, e.value = p.item := by
  obtain ⟨g, hg, rfl⟩ := List.mem_map.mp hb
  refine ⟨g, hg, fun r hr => ?_⟩
  -- a member is the request at the position of an entry
  obtain ⟨i, hi, hlive⟩ := List.mem_filterMap.mp hr
  obtain ⟨e, he, rfl⟩ := List.mem_map.mp hi
  refine ⟨e, he, ?_⟩
  have hget := Strategy.getElem?_of_mem_partition hg he
  rw [List.getElem?_map, hlive] at hget
  exact (Option.some.inj hget).symm

theorem batches_nonempty (c : Scheduler) {live b : List Pending} (hb : b ∈ c.batches live) :
    b ≠ [] := by
  obtain ⟨g, hg, rfl⟩ := List.mem_map.mp hb
  obtain ⟨e, he⟩ := List.exists_mem_of_ne_nil g (Strategy.partition_nonempty hg)
  have hget := Strategy.getElem?_of_mem_partition hg he
  rw [List.getElem?_map] at hget
  obtain ⟨p, hp, _⟩ := Option.map_eq_some_iff.mp hget
  exact List.ne_nil_of_mem
    (List.mem_filterMap.mpr ⟨e.index, List.mem_map_of_mem (f := Entry.index) he, hp⟩)

theorem batches_fit (c : Scheduler) {live b : List Pending} (hb : b ∈ c.batches live)
    {p q : Pending} (hp : p ∈ b) (hq : q ∈ b) : c.settings.strategy.Fits p.item q.item := by
  obtain ⟨g, hg, hentry⟩ := c.batch_entries hb
  obtain ⟨x, hx, hxp⟩ := hentry p hp
  obtain ⟨y, hy, hyq⟩ := hentry q hq
  rw [← hxp, ← hyq]
  exact Strategy.partition_fits hg hx hy

/-! ## serving -/

theorem serving?_ofWindow {s : State} {e : Event} (h : e.ofWindow) :
    Moment.serving? ⟨s, e⟩ = none := by
  cases e <;> first | rfl | cases h

theorem formed_ofWindow {c : Scheduler} {s : State} {e : Event} (h : e.ofWindow) :
    Moment.formed c ⟨s, e⟩ = [] := by
  cases e <;> first | rfl | cases h

theorem servings_quiet {past : List Moment} {m : Moment} (h : m.serving? = none) :
    servings (past ++ [m]) = servings past := by
  rw [servings_snoc, h]
  exact List.append_nil _

theorem serving?_serve {s : State} (now : Int) (transport : Transport) {members : List Pending}
    {rest : List (List Pending)} (working : s.worker = .working (members :: rest)) :
    Moment.serving? ⟨s, .serve now transport⟩ = some ⟨now, transport, members⟩ := by
  unfold Moment.serving?
  dsimp only
  rw [working]

theorem serving?_eq_some {m : Moment} {v : Serving} (h : m.serving? = some v) :
    m.event = .serve v.now v.transport ∧ ∃ rest, m.state.worker = .working (v.batch :: rest) := by
  unfold Moment.serving? at h
  split at h
  · rename_i hevent hworker
    cases h
    exact ⟨hevent, _, hworker⟩
  · cases h

theorem servings_serve (past : List Moment) {s : State} (now : Int) (transport : Transport)
    {members : List Pending} {rest : List (List Pending)}
    (working : s.worker = .working (members :: rest)) :
    servings (past ++ [⟨s, .serve now transport⟩])
      = servings past ++ [⟨now, transport, members⟩] := by
  rw [servings_snoc, serving?_serve now transport working]
  rfl

theorem formed_quiet {c : Scheduler} {past : List Moment} {m : Moment} (h : m.formed c = []) :
    c.formed (past ++ [m]) = c.formed past := by
  rw [formed_snoc, h]
  exact List.append_nil _

/-- Batches are served in the order in which they are formed; those that the dispatcher holds come
next. -/
theorem History.formed_eq {c : Scheduler} {past : List Moment} {s : State} {effects : List Effect}
    (h : c.History past s effects) :
    ∃ rest, c.formed past = (servings past).map (·.batch) ++ rest ∧
      ∀ batches, s.worker = .working batches → rest = batches := by
  induction h using History.by_changes with
  | start => exact ⟨[], rfl, fun batches hb => by cases hb; rfl⟩
  | next past s effects e s' more h _ change ih =>
    obtain ⟨rest, hformed, hrest⟩ := ih
    -- an event that neither forms nor serves a batch
    have quiet : ∀ s' : State, Moment.serving? ⟨s, e⟩ = none → Moment.formed c ⟨s, e⟩ = [] →
        s'.worker = s.worker → ∃ rest, c.formed (past ++ [⟨s, e⟩])
          = (servings (past ++ [⟨s, e⟩])).map (·.batch) ++ rest ∧
            ∀ batches, s'.worker = .working batches → rest = batches := by
      intro s' hserving hform hworker
      refine ⟨rest, ?_, fun batches hb => hrest batches (hworker.symm.trans hb)⟩
      rw [formed_quiet hform, servings_quiet hserving, hformed]
    -- an event that serves the next one
    have serves : ∀ (now : Int) (transport : Transport) (members : List Pending)
        (others : List (List Pending)) (s' : State), e = .serve now transport →
        s.worker = .working (members :: others) →
        (∀ batches, s'.worker = .working batches → batches = others) →
        ∃ rest, c.formed (past ++ [⟨s, e⟩])
          = (servings (past ++ [⟨s, e⟩])).map (·.batch) ++ rest ∧
            ∀ batches, s'.worker = .working batches → rest = batches := by
      intro now transport members others s' he hworking hothers
      subst he
      refine ⟨others, ?_, fun batches hb => (hothers batches hb).symm⟩
      rw [formed_quiet rfl, servings_serve past now transport hworking, hformed, hrest _ hworking,
        List.map_append, List.append_assoc]
      rfl
    cases change with
    | waits _ window => exact quiet _ (serving?_ofWindow window) (formed_ofWindow window) rfl
    | flushed _ window => exact quiet _ (serving?_ofWindow window) (formed_ofWindow window) rfl
    | lost _ window => exact quiet _ (serving?_ofWindow window) (formed_ofWindow window) rfl
    | left ticket => exact quiet _ rfl rfl rfl
    | taken now f queue working next =>
      refine ⟨c.batches (c.sift now s f.items).1, ?_, fun batches hb => by cases hb; rfl⟩
      have hnew : Moment.formed c ⟨s, .take now⟩ = c.batches (c.sift now s f.items).1 := by
        unfold Moment.formed
        dsimp only
        rw [working, next]
      rw [formed_snoc, hnew, servings_quiet rfl, hformed, hrest [] working, List.append_nil]
    | idle _ served formed => exact quiet _ served formed rfl
    | started now transport members others working =>
      exact serves now transport members others _ rfl working fun batches hb => by cases hb; rfl
    | ended now transport members others working =>
      exact serves now transport members others _ rfl working fun batches hb => by cases hb; rfl
    | crashed now transport members others working =>
      exact serves now transport members others _ rfl working fun batches hb => by cases hb
    | resumed => exact quiet _ rfl rfl rfl
    | finished => exact quiet _ rfl rfl rfl

/-! ## waiting for calls -/

/-- A delivery is what was started when its batch was served, with the responses that came back
since. -/
structure Kept (c : Scheduler) (past : List Moment) (d : Delivery) : Prop where
  served : ∃ v s, (servings past)[d.id]? = some v ∧ v.batch = d.members ∧
    c.target.Ships v.transport.round (d.members.map (·.item)) s ∧ d.exchange.calls = s.calls ∧
    v.called c = s.calls.map (c.target.call s)
  backed : d.exchange.Backed c.target.codec (c.CameBack past d.id)

theorem Kept.mono {c : Scheduler} {past : List Moment} {d : Delivery} (h : c.Kept past d)
    (more : List Moment) : c.Kept (past ++ more) d where
  served := by
    obtain ⟨v, s, hv, hrest⟩ := h.served
    refine ⟨v, s, ?_, hrest⟩
    rw [servings_append, List.getElem?_append_left (List.getElem?_eq_some_iff.mp hv).1]
    exact hv
  backed := h.backed.mono fun k response hcame => hcame.mono more

theorem Kept.id_lt {c : Scheduler} {past : List Moment} {d : Delivery} (h : c.Kept past d) :
    d.id < (servings past).length := by
  obtain ⟨v, s, hv, _⟩ := h.served
  exact (List.getElem?_eq_some_iff.mp hv).1

/-- All deliveries are kept, under different numbers. -/
structure Orderly (c : Scheduler) (past : List Moment) (s : State) : Prop where
  next : s.nextDelivery = (servings past).length
  ids : (s.deliveries.map (·.id)).Nodup
  kept : ∀ d ∈ s.deliveries, c.Kept past d

theorem Orderly.found {c : Scheduler} {past : List Moment} {s : State} (h : c.Orderly past s)
    {id : Nat} {d d' : Delivery} (hfound : s.deliveries.find? (fun d => d.id = id) = some d)
    (hd' : d' ∈ s.deliveries) (hid : d'.id = id) : d' = d := by
  have hsame : d.id = id := by simpa using List.find?_some hfound
  exact List.inj_on_of_nodup_map h.ids hd' (List.mem_of_find?_eq_some hfound) (hid.trans hsame.symm)

/-- an event that leaves deliveries alone -/
theorem Orderly.quiet {c : Scheduler} {past : List Moment} {s s' : State} {e : Event}
    (h : c.Orderly past s) (hserving : Moment.serving? ⟨s, e⟩ = none)
    (hnext : s'.nextDelivery = s.nextDelivery) (hsub : s'.deliveries.Sublist s.deliveries) :
    c.Orderly (past ++ [⟨s, e⟩]) s' where
  next := by rw [hnext, h.next, servings_quiet hserving]
  ids := (hsub.map _).nodup h.ids
  kept d hd := (h.kept d (hsub.subset hd)).mono _

/-- a batch that is served and ends at once -/
theorem Orderly.serve {c : Scheduler} {past : List Moment} {s s' : State} {now : Int}
    {transport : Transport} {members : List Pending} {rest : List (List Pending)}
    (h : c.Orderly past s) (working : s.worker = .working (members :: rest))
    (hnext : s'.nextDelivery = s.nextDelivery + 1) (hsame : s'.deliveries = s.deliveries) :
    c.Orderly (past ++ [⟨s, .serve now transport⟩]) s' where
  next := by
    rw [hnext, h.next, servings_serve past now transport working, List.length_append]
    rfl
  ids := by
    rw [hsame]
    exact h.ids
  kept d hd := by
    rw [hsame] at hd
    exact (h.kept d hd).mono _

/-- a batch whose calls are waited for -/
theorem Orderly.start {c : Scheduler} {past : List Moment} {s : State} {now : Int}
    {transport : Transport} {members : List Pending} {rest : List (List Pending)}
    (h : c.Orderly past s) (working : s.worker = .working (members :: rest)) {exchange : Exchange}
    (running : Serving.progress c ⟨now, transport, members⟩ = .running exchange) :
    c.Orderly (past ++ [⟨s, .serve now transport⟩]) { s with
      worker := .working rest, nextDelivery := s.nextDelivery + 1,
      deliveries := s.deliveries ++ [⟨s.nextDelivery, members, exchange⟩] } := by
  have hall := servings_serve past now transport working
  have hlast : (servings (past ++ [⟨s, .serve now transport⟩]))[s.nextDelivery]?
      = some ⟨now, transport, members⟩ := by
    rw [hall, h.next, List.getElem?_append_right (Nat.le_refl _), Nat.sub_self]
    rfl
  refine ⟨?_, ?_, ?_⟩
  · show s.nextDelivery + 1 = _
    rw [hall, h.next, List.length_append]
    rfl
  · show ((s.deliveries ++ [(⟨s.nextDelivery, members, exchange⟩ : Delivery)]).map (·.id)).Nodup
    rw [List.map_append]
    refine List.nodup_append.mpr ⟨h.ids, List.nodup_singleton _, ?_⟩
    intro i hi j hj
    obtain ⟨d, hd, rfl⟩ := List.mem_map.mp hi
    rw [List.mem_singleton.mp hj]
    have hlt := (h.kept d hd).id_lt
    rw [← h.next] at hlt
    exact Nat.ne_of_lt hlt
  · intro d hd
    rcases List.mem_append.mp hd with hd | hd
    · exact (h.kept d hd).mono _
    · rw [List.mem_singleton.mp hd]
      have hstart : c.target.start now transport (members.map (·.item))
          = (Serving.called c ⟨now, transport, members⟩, .running exchange) := Prod.ext rfl running
      obtain ⟨ship, hships, hcalls, hcalled, hbacked, _⟩ := Target.start_running hstart
      rw [hcalls] at hcalled
      refine ⟨⟨_, ship, hlast, rfl, hships, hcalls, hcalled⟩, ?_⟩
      exact hbacked.mono fun k response hcame => .atOnce _ hlast hcame

/-- a call that comes back to a batch that waits for more -/
theorem Orderly.resume {c : Scheduler} {past : List Moment} {s : State} {id call : Nat}
    {outcome : Outcome Json} (h : c.Orderly past s) {d : Delivery}
    (found : s.deliveries.find? (fun d => d.id = id) = some d) {exchange : Exchange}
    (running : d.exchange.resume c.target.codec call outcome = .running exchange) :
    c.Orderly (past ++ [⟨s, .finish id call outcome⟩]) { s with
      deliveries := s.deliveries.map fun d => if d.id = id then { d with exchange } else d } := by
  have hids : (s.deliveries.map fun d => if d.id = id then { d with exchange } else d).map (·.id)
      = s.deliveries.map (·.id) := by
    rw [List.map_map]
    refine List.map_congr_left fun d _ => ?_
    show (if d.id = id then { d with exchange } else d).id = d.id
    split <;> rfl
  refine ⟨?_, ?_, ?_⟩
  · show s.nextDelivery = _
    rw [servings_quiet rfl, h.next]
  · show ((s.deliveries.map fun d => if d.id = id then { d with exchange } else d).map _).Nodup
    rw [hids]
    exact h.ids
  · intro d₁ hd₁
    obtain ⟨d₀, hd₀, rfl⟩ := List.mem_map.mp hd₁
    split
    · rename_i hid
      have hkept := (h.kept d₀ hd₀).mono [⟨s, .finish id call outcome⟩]
      obtain rfl := h.found found hd₀ hid
      have hnew : ∀ response, d₀.exchange.slots[call]? = some .waiting →
          outcome = .done response →
          c.CameBack (past ++ [⟨s, .finish id call outcome⟩]) d₀.id call response := by
        rintro response hwaits rfl
        refine .later _ d₀ (List.mem_append_right _ (List.mem_singleton_self _)) ?_ hd₀ rfl hwaits
        rw [hid]
      obtain ⟨hcalls, hbacked⟩ := Exchange.resume_running hkept.backed
        (fun k response hcame => hcame) hnew running
      refine ⟨?_, hbacked⟩
      obtain ⟨v, ship, hv, hbatch, hships, hc, hcalled⟩ := hkept.served
      exact ⟨v, ship, hv, hbatch, hships, hcalls.trans hc, hcalled⟩
    · exact (h.kept d₀ hd₀).mono _

theorem History.orderly {c : Scheduler} {past : List Moment} {s : State} {effects : List Effect}
    (h : c.History past s effects) : c.Orderly past s := by
  induction h using History.by_changes with
  | start => exact ⟨rfl, List.nodup_nil, fun d hd => absurd hd List.not_mem_nil⟩
  | next past s effects e s' more h _ change ih =>
    cases change with
    | waits _ window => exact ih.quiet (serving?_ofWindow window) rfl (List.Sublist.refl _)
    | flushed _ window => exact ih.quiet (serving?_ofWindow window) rfl (List.Sublist.refl _)
    | lost _ window => exact ih.quiet (serving?_ofWindow window) rfl (List.Sublist.refl _)
    | left ticket => exact ih.quiet rfl rfl (List.Sublist.refl _)
    | taken now f queue working next => exact ih.quiet rfl rfl (List.Sublist.refl _)
    | idle _ served => exact ih.quiet served rfl (List.Sublist.refl _)
    | started now transport members rest working exchange running => exact ih.start working running
    | ended now transport members rest working => exact ih.serve working rfl rfl
    | crashed now transport members rest working => exact ih.serve working rfl rfl
    | resumed id call outcome d found exchange running => exact ih.resume found running
    | finished => exact ih.quiet rfl rfl List.filter_sublist

/-! ## endings -/

/-- A batch that ends well has a result for each of its members, out of the responses to the calls
that were started when it was served. -/
theorem History.answers_of_ends {c : Scheduler} {before : List Moment} {m : Moment}
    {effects : List Effect} (h : c.History before m.state effects) {members : List Pending}
    {results : List Json} (hends : c.Ends m members (.done results)) :
    results.length = members.length ∧ (members ≠ [] → ∃ id v ship,
      (servings (before ++ [m]))[id]? = some v ∧ v.batch = members ∧
      c.target.Ships v.transport.round (members.map (·.item)) ship ∧
      v.called c = ship.calls.map (c.target.call ship) ∧
      Exchange.Answers c.target.codec ((members.map (·.item)).map (·.request)) v.transport.round
        ship.calls (c.CameBack (before ++ [m]) id) results) := by
  cases hends with
  | atOnce _ v _ hserving hended =>
    have hstart : c.target.start v.now v.transport (v.batch.map (·.item))
        = (v.called c, .ended (.done results)) := Prod.ext rfl hended
    obtain ⟨hlen, hanswers⟩ := Target.start_done hstart
    rw [List.length_map] at hlen
    refine ⟨hlen, fun hne => ?_⟩
    obtain ⟨ship, hships, hcalled, hanswers⟩ :=
      hanswers fun hnil => hne (List.map_eq_nil_iff.mp hnil)
    have hlast : (servings (before ++ [m]))[(servings before).length]? = some v := by
      rw [servings_snoc, hserving, List.getElem?_append_right (Nat.le_refl _), Nat.sub_self]
      rfl
    refine ⟨_, v, ship, hlast, rfl, hships, hcalled, fun i value hi => ?_⟩
    obtain ⟨k, call, response, hk, hmem, hcame, hholds⟩ := hanswers i value hi
    exact ⟨k, call, response, hk, hmem, .atOnce v hlast hcame, hholds⟩
  | later s id call came d _ hfound hended =>
    have hd : d ∈ s.deliveries := List.mem_of_find?_eq_some hfound
    have hid : d.id = id := by simpa using List.find?_some hfound
    have hkept := (h.orderly.kept d hd).mono [⟨s, .finish id call came⟩]
    obtain ⟨v, ship, hv, hbatch, hships, hcalls, hcalled⟩ := hkept.served
    have hnew : ∀ response, d.exchange.slots[call]? = some .waiting → came = .done response →
        c.CameBack (before ++ [⟨s, .finish id call came⟩]) d.id call response := by
      rintro response hwaits rfl
      refine .later _ d (List.mem_append_right _ (List.mem_singleton_self _)) ?_ hd rfl hwaits
      rw [hid]
    have hencode : c.target.codec.encode ((d.members.map (·.item)).map (·.request))
        v.transport.round = .done d.exchange.calls := by
      rw [hcalls]
      exact hships.encode
    obtain ⟨hlen, hanswers⟩ := Exchange.resume_done hkept.backed (fun k response hcame => hcame)
      hnew hencode hended
    rw [List.length_map, List.length_map] at hlen
    rw [hcalls] at hanswers
    exact ⟨hlen, fun _ => ⟨d.id, v, ship, hv, hbatch, hships, hcalled, hanswers⟩⟩

end Scheduler

end Coalesce
