import Coalesce.Proofs.Dispatch.Shares
import Coalesce.Proofs.Gateway.Build
import Coalesce.Proofs.Gateway.Lanes
import Coalesce.Proofs.Scheduler.Whole

/-!
# What calls are made of

* `Route.Sends`              what a target may send when an event happens;
* `Lane.Composed`            how the calls are composed that an event starts;
* `Lane.step_composed`       so they are, if the batches are that the dispatcher holds,
* `Lane.run_ready`           and these are after any run in which no subscription evades the check;
* `Lane.run_carried`         no request is sent twice by a lane,
* `Gateway.run_carried`      nor by a gateway;
* `Gateway.calls_composed`   all of it, for gateways that were built from a configuration.
-/

namespace Coalesce

/-- What is in one list no more often than in the other, key by key, is so altogether. -/
theorem subperm_of_keys {α β κ : Type} [DecidableEq κ] (key : α → κ) (f g : α → List β)
    (l : List α) (each : ∀ k, ((l.filter fun a => key a = k).flatMap f).Subperm
      ((l.filter fun a => key a = k).flatMap g)) : (l.flatMap f).Subperm (l.flatMap g) := by
  induction hn : l.length using Nat.strong_induction_on generalizing l with
  | _ n ih =>
    cases l with
    | nil => exact List.nil_subperm
    | cons a rest =>
      let own (x : α) : Bool := key x = key a
      have hsplit : ((a :: rest).filter own ++ (a :: rest).filter fun x => !own x).Perm
          (a :: rest) := List.filter_append_perm own (a :: rest)
      have hown : own a = true := decide_eq_true rfl
      have hshorter : ((a :: rest).filter fun x => !own x).length < n := by
        have hlength := hsplit.length_eq
        rw [List.length_append, List.filter_cons_of_pos hown, List.length_cons] at hlength
        omega
      -- the others have no element to this key, and all elements to any other one
      have hapart : ∀ k, (((a :: rest).filter fun x => !own x).filter fun x => key x = k)
          = if k = key a then [] else (a :: rest).filter fun x => key x = k := by
        intro k
        rw [List.filter_filter]
        split
        · rename_i hk
          refine List.filter_eq_nil_iff.mpr fun x _ hx => ?_
          simp [own, hk] at hx
        · rename_i hk
          refine List.filter_congr fun x _ => ?_
          by_cases hx : key x = k <;> simp [own, hx, hk]
      have hothers := ih _ hshorter ((a :: rest).filter fun x => !own x) (fun k => by
        rw [hapart k]
        split
        · exact List.nil_subperm
        · exact each k) rfl
      have hall := (each (key a)).append hothers
      rw [← List.flatMap_append, ← List.flatMap_append] at hall
      have hfirst := (hsplit.flatMap_right f).symm.subperm.trans hall
      exact hfirst.trans (hsplit.flatMap_right g).subperm

theorem calls_flatMap {α : Type} (l : List α) (effects : α → List Effect) :
    calls (l.flatMap effects) = l.flatMap fun a => calls (effects a) := List.filterMap_flatMap

/-! ## what may be sent -/

/-- What a target may send when an event happens. -/
inductive Route.Sends : Route → Lane.Event → Scheduler.Serving → Prop where
  /-- a subscription, alone and at once -/
  | subscription (r : Route) (now : Int) (transport : Transport) (p : Pending)
      (subscription : p.item.isSubscription = true) :
      Sends r (.execute now transport p) ⟨now, transport, [p]⟩
  /-- any request to a target that does not batch, likewise -/
  | unbatched (t : Target) (now : Int) (transport : Transport) (p : Pending) :
      Sends (.alone t) (.execute now transport p) ⟨now, transport, [p]⟩
  /-- a batch of a window: some requests, but no more than fit, and no subscription -/
  | batch (c : Scheduler) (v : Scheduler.Serving) (some : 1 ≤ v.batch.length)
      (fits : v.batch.length ≤ c.settings.maxSize)
      (queries : ∀ p ∈ v.batch, p.item.isSubscription = false) :
      Sends (.batched c) (.scheduled (.serve v.now v.transport)) v

theorem Route.Sends.nonempty {r : Route} {e : Lane.Event} {v : Scheduler.Serving}
    (h : r.Sends e v) : v.batch ≠ [] := by
  cases h with
  | subscription | unbatched => exact List.cons_ne_nil _ _
  | batch c v some => exact List.length_pos_iff.mp some

/-- What is sent with a subscription is the subscription. -/
theorem Route.Sends.apart {r : Route} {e : Lane.Event} {v : Scheduler.Serving} (h : r.Sends e v)
    {p : Pending} (hp : p ∈ v.batch) (subscription : p.item.isSubscription = true) :
    v.batch = [p] ∧ e = .execute v.now v.transport p := by
  cases h with
  | subscription _ now transport q =>
    obtain rfl := List.mem_singleton.mp hp
    exact ⟨rfl, rfl⟩
  | unbatched _ now transport q =>
    obtain rfl := List.mem_singleton.mp hp
    exact ⟨rfl, rfl⟩
  | batch c v some fits queries =>
    rw [queries p hp] at subscription
    cases subscription

namespace Lane

/-- How the calls are composed that an event starts at a lane, and where it leads. -/
structure Composed (r : Route) (l : Lane) (e : Event) (next : Lane)
    (started : List (Call × List Pending)) : Prop where
  /-- nothing is called but for what is sent -/
  none : l.serving? r e = none → started = []
  /-- the calls for what is sent share out its positions, each of them to one call -/
  sent : ∀ v, l.serving? r e = some v → r.Sends e v ∧ (∀ x ∈ started, x.2 = v.batch) ∧
    r.target.Shares v.now v.transport (v.batch.map (·.item)) (started.map (·.1))
  /-- a call that carries a subscription answers for nothing else -/
  apart : ∀ x ∈ started, ∀ p ∈ x.2, p.item.isSubscription = true →
    x.2 = [p] ∧ x.1.members = [0] ∧ ∃ now transport, e = .execute now transport p
  /-- it is sent when the subscription comes in, and window and queue stay as they are -/
  subscription : ∀ now transport p, e = .execute now transport p →
    p.item.isSubscription = true → next.scheduler = l.scheduler ∧
      r.target.SendsAlone now p.item (started.map (·.1))

/-- The dispatcher holds nothing but batches that may be sent. -/
def Ready (c : Scheduler) (l : Lane) : Prop :=
  ∀ b ∈ l.scheduler.worker.batches, 1 ≤ b.length ∧ b.length ≤ c.settings.maxSize ∧
    ∀ p ∈ b, p.item.isSubscription = false

section
variable {r : Route} {l : Lane} {e : Event}

theorem serving?_sends (ready : ∀ c, r = .batched c → l.Ready c) {v : Scheduler.Serving}
    (h : l.serving? r e = some v) : r.Sends e v := by
  cases e with
  | execute now transport p =>
    cases r with
    | alone t =>
      cases h
      exact .unbatched t now transport p
    | batched c =>
      unfold serving? at h
      dsimp only at h
      split at h
      · rename_i hsubscription
        cases h
        exact .subscription _ now transport p hsubscription
      · cases h
  | resume ticket call outcome => cases h
  | leave ticket => cases h
  | scheduled e =>
    cases r with
    | alone t => cases h
    | batched c =>
      obtain ⟨rfl, rest, hworking⟩ : e = .serve v.now v.transport ∧ _ :=
        Scheduler.serving?_eq_some h
      have hheld : v.batch ∈ l.scheduler.worker.batches := by
        rw [hworking]
        exact List.mem_cons_self
      obtain ⟨hsome, hfits, hqueries⟩ := ready c rfl v.batch hheld
      exact .batch c v hsome hfits hqueries

theorem step_subscription (r : Route) (l : Lane) (now : Int) (transport : Transport) {p : Pending}
    (subscription : p.item.isSubscription = true) :
    l.step r (.execute now transport p) = l.sendAlone r.target now transport p := by
  cases r with
  | alone t => rfl
  | batched c =>
    unfold step
    dsimp only
    rw [if_pos subscription]
    rfl

theorem sendAlone_scheduler (t : Target) (now : Int) (transport : Transport) (p : Pending)
    (l : Lane) : (l.sendAlone t now transport p).1.scheduler = l.scheduler := by
  unfold sendAlone
  dsimp only
  split <;> rfl

theorem callsFor_calls (t : Target) (v : Scheduler.Serving) :
    (t.callsFor v).map (·.1) = (t.start v.now v.transport (v.batch.map (·.item))).1 := by
  unfold Target.callsFor
  rw [List.map_map]
  exact List.map_id _

/-- What a step starts is composed as it should be, if the batches are that it finds. -/
theorem step_composed (ready : ∀ c, r = .batched c → l.Ready c) :
    Composed r l e (l.step r e).1 (calls (l.step r e).2) := by
  have started : ∀ v, l.serving? r e = some v → calls (l.step r e).2 = r.target.callsFor v := by
    intro v hv
    rw [calls_step, hv, Option.toList_some, List.flatMap_singleton]
  have nothing : l.serving? r e = none → calls (l.step r e).2 = [] := by
    intro hnone
    rw [calls_step, hnone]
    rfl
  have hbatch : ∀ v, ∀ x ∈ r.target.callsFor v, x.2 = v.batch := by
    intro v x hx
    obtain ⟨call, _, rfl⟩ := List.mem_map.mp hx
    rfl
  refine ⟨nothing, fun v hv => ?_, fun x hx p hp hsubscription => ?_,
    fun now transport p he hp => ?_⟩
  · have hsends := serving?_sends ready hv
    have hsome : v.batch.map (·.item) ≠ [] := fun hnil =>
      hsends.nonempty (List.map_eq_nil_iff.mp hnil)
    rw [started v hv, callsFor_calls]
    exact ⟨hsends, hbatch v, r.target.start_shares v.now v.transport hsome⟩
  · cases hserving : l.serving? r e with
    | none =>
      rw [nothing hserving] at hx
      exact absurd hx List.not_mem_nil
    | some v =>
      rw [started v hserving] at hx
      rw [hbatch v x hx] at hp ⊢
      obtain ⟨halone, he⟩ := (serving?_sends ready hserving).apart hp hsubscription
      have hcall : x.1 ∈ (r.target.start v.now v.transport (v.batch.map (·.item))).1 :=
        callsFor_calls r.target v ▸ List.mem_map_of_mem hx
      rw [halone] at hcall
      exact ⟨halone, (r.target.start_alone v.now v.transport p.item).members hcall, _, _, he⟩
  · subst he
    rw [step_subscription r l now transport hp]
    refine ⟨sendAlone_scheduler r.target now transport p l, ?_⟩
    rw [calls_sendAlone, List.map_map]
    have hcalls := r.target.start_alone now transport p.item
    rwa [← List.map_id (r.target.start now transport [p.item]).1] at hcalls

end

/-! ## runs -/

/-- Requests come in by `execute`: what is put into a window without it is not a subscription. -/
def Event.Proper (e : Event) : Prop :=
  ∀ p, e = .scheduled (.submit p) → p.item.isSubscription = false

theorem scheduled_queries {past : List Moment} (proper : ∀ m ∈ past, m.event.Proper) {p : Pending}
    (hp : p ∈ Scheduler.arrivals (scheduled past)) : p.item.isSubscription = false := by
  obtain ⟨m', hm', hp⟩ := List.mem_flatMap.mp hp
  obtain ⟨⟨l, e⟩, hm, hscheduled⟩ := List.mem_filterMap.mp hm'
  obtain ⟨e', he', rfl⟩ := Option.map_eq_some_iff.mp hscheduled
  have he' : e.scheduled? = some e' := he'
  have hproper : e.Proper := proper _ hm
  cases e with
  | execute now transport q =>
    unfold Event.scheduled? at he'
    dsimp only at he'
    split at he'
    · cases he'
    · rename_i hquery
      cases he'
      rw [List.mem_singleton.mp hp]
      exact Bool.eq_false_iff.mpr hquery
  | resume ticket call outcome => cases he'
  | leave ticket =>
    cases he'
    exact absurd hp List.not_mem_nil
  | scheduled e =>
    cases he'
    cases e' with
    | submit q =>
      rw [List.mem_singleton.mp hp]
      exact hproper q rfl
    | _ => exact absurd hp List.not_mem_nil

theorem History.ready {c : Scheduler} {past : List Moment} {l : Lane} {effects : List Effect}
    (h : History c past l effects) (proper : ∀ m ∈ past, m.event.Proper)
    (pos : 0 < c.settings.maxSize) : l.Ready c := by
  intro b hb
  obtain ⟨own, hown, _⟩ := h.scheduler
  obtain ⟨rest, hformed, hrest⟩ := hown.formed_eq
  have hmem : b ∈ c.formed (scheduled past) := by
    rw [hformed]
    refine List.mem_append_right _ ?_
    cases hworker : l.scheduler.worker with
    | working batches =>
      rw [hrest batches hworker]
      rw [hworker] at hb
      exact hb
    | gone =>
      rw [hworker] at hb
      exact absurd hb List.not_mem_nil
  obtain ⟨hsome, hfits, hcame⟩ := hown.formed_sized pos hmem
  exact ⟨List.length_pos_iff.mpr hsome, hfits, fun p hp => scheduled_queries proper (hcame hp)⟩

theorem mem_moments {c : Scheduler} {l : Lane} {es : List Event} {m : Moment}
    (hm : m ∈ moments c l es) : m.event ∈ es := by
  induction es generalizing l with
  | nil => exact absurd hm List.not_mem_nil
  | cons e rest ih =>
    rcases List.mem_cons.mp hm with rfl | hm
    · exact List.mem_cons_self
    · exact List.mem_cons_of_mem _ (ih hm)

theorem run_ready {c : Scheduler} (pos : 0 < c.settings.maxSize) {es : List Event}
    (proper : ∀ e ∈ es, e.Proper) : (run (.batched c) {} es).1.Ready c :=
  (history_run c es).ready (fun _ hm => proper _ (mem_moments hm)) pos

/-! ## once -/

theorem alone_carried (t : Target) (l : Lane) (e : Event) :
    ((calls (l.step (.alone t) e).2).flatMap carried).Subperm e.arrivals := by
  rw [calls_step]
  cases e with
  | execute now transport p =>
    obtain ⟨others, hperm⟩ := t.callsFor_carries ⟨now, transport, [p]⟩
    show ((t.callsFor ⟨now, transport, [p]⟩ ++ []).flatMap carried).Subperm [p]
    rw [List.append_nil]
    exact (List.sublist_append_left _ others).subperm.trans hperm.symm.subperm
  | _ => exact List.nil_subperm

/-- The requests that all calls of a lane answer for are requests that came in, each one once. -/
theorem run_carried (r : Route) (es : List Event) :
    ((calls (run r {} es).2).flatMap carried).Subperm (es.flatMap Event.arrivals) := by
  cases r with
  | alone t =>
    induction es using List.reverseRecOn with
    | nil => exact List.nil_subperm
    | append_singleton es e ih =>
      rw [run_snoc, calls_append, List.flatMap_append, List.flatMap_append,
        List.flatMap_singleton]
      exact ih.append (alone_carried t _ e)
  | batched c =>
    have h := history_run c es
    obtain ⟨unsent, hcarried⟩ := h.carried_formed
    obtain ⟨unformed, hformed⟩ := h.formed_arrivals
    rw [arrivals_moments] at hformed
    have hsent : ((calls (run (.batched c) {} es).2).flatMap carried).Subperm
        (formed c (moments c {} es)).flatten :=
      (List.sublist_append_left _ unsent).subperm.trans hcarried.symm.subperm
    have hcame : (formed c (moments c {} es)).flatten.Subperm (es.flatMap Event.arrivals) :=
      (List.sublist_append_left _ unformed).subperm.trans hformed.symm.subperm
    exact hsent.trans hcame

theorem log_carried (r : Route) (es : List Event) :
    ((log r {} es).flatMap fun x => (calls x.2).flatMap carried).Subperm
      ((log r {} es).flatMap fun x => x.1.arrivals) := by
  have hcalls : ((log r {} es).flatMap fun x => (calls x.2).flatMap carried)
      = (calls (run r {} es).2).flatMap carried := by
    rw [← log_effects, calls_flatMap, List.flatMap_assoc]
  have hcame : ((log r {} es).flatMap fun x => x.1.arrivals) = es.flatMap Event.arrivals := by
    conv_rhs => rw [← log_events r {} es, List.flatMap_map]
  rw [hcalls, hcame]
  exact run_carried r es

end Lane

namespace Gateway

/-! ## gateways -/

theorem step_unknown {g : Gateway} {e : Event} (unknown : g.route? e.target = none) (s : State) :
    calls (g.step s e).2 = [] := by
  unfold step
  rw [unknown]
  dsimp only
  split <;> rfl

theorem log_unknown {g : Gateway} {target : String} (unknown : g.route? target = none) (s : State)
    (es : List Event) : ∀ x ∈ g.log s es, x.1.target = target → calls x.2 = [] := by
  induction es generalizing s with
  | nil => exact fun x hx => absurd hx List.not_mem_nil
  | cons e rest ih =>
    intro x hx htarget
    rcases List.mem_cons.mp hx with rfl | hx
    · exact step_unknown (htarget.symm ▸ unknown) s
    · exact ih _ x hx htarget

/-- The requests that all calls of a gateway answer for are requests that came in, each one once. -/
theorem run_carried (g : Gateway) (es : List Event) :
    ((calls (g.run {} es).2).flatMap carried).Subperm (es.flatMap fun e => e.event.arrivals) := by
  -- target by target, as it is logged there
  have each : ∀ target, (((g.log {} es).filter fun x => x.1.target = target).flatMap fun x =>
      (calls x.2).flatMap carried).Subperm
        (((g.log {} es).filter fun x => x.1.target = target).flatMap fun x =>
          x.1.event.arrivals) := by
    intro target
    cases found : g.route? target with
    | none =>
      have hnone : (((g.log {} es).filter fun x => x.1.target = target).flatMap fun x =>
          (calls x.2).flatMap carried) = [] := by
        refine List.flatMap_eq_nil_iff.mpr fun x hx => ?_
        obtain ⟨hx, htarget⟩ := List.mem_filter.mp hx
        rw [log_unknown found {} es x hx (of_decide_eq_true htarget)]
        rfl
      rw [hnone]
      exact List.nil_subperm
    | some r =>
      have hlog : ((g.log {} es).filter fun x => x.1.target = target)
          = (Lane.log r {} (ofTarget target es)).map fun x => (⟨target, x.1⟩, x.2) :=
        log_at found {} es
      rw [hlog, List.flatMap_map, List.flatMap_map]
      exact Lane.log_carried r (ofTarget target es)
  have hcalls : ((g.log {} es).flatMap fun x => (calls x.2).flatMap carried)
      = (calls (g.run {} es).2).flatMap carried := by
    rw [← log_effects, calls_flatMap, List.flatMap_assoc]
  have hcame : ((g.log {} es).flatMap fun x => x.1.event.arrivals)
      = es.flatMap fun e => e.event.arrivals := by
    conv_rhs => rw [← log_events g {} es, List.flatMap_map]
  rw [← hcalls, ← hcame]
  exact subperm_of_keys (fun x => x.1.target) _ _ (g.log {} es) each

/-- **Composition of calls.**  Take any run of a gateway that was built from a configuration, in
which no subscription is put into a window past `execute`, and any event that happens next.

The calls that it starts are those for one thing that its target sends: a subscription, or any
request if the target does not batch, alone and at once; or a batch of a window, with one request at
least and no more than fit, none of them a subscription.  Room is for two up to a hundred, as the
options of the target are resolved.  The positions of what is sent are shared out to its calls, each
one to one of them, unless calls are left out behind one that failed at once, or there is no time
left for any or none can be written.  A call that carries a subscription answers for nothing else;
it is written by the codec of its own target, and the scheduler of the target stays as it is.

Taken together, the requests that the calls of the run answer for are requests that came in, each
one once: none is ever sent twice. -/
theorem calls_composed (urlFault : String → Option String) (config : Config) (mergers : Mergers)
    {notices : List Notice} {g : Gateway}
    (built : build urlFault config mergers = (notices, .ok g)) (before : List Event)
    (proper : ∀ e ∈ before, e.event.Proper) :
    let s := (g.run {} before).1
    (∀ e r, g.route? e.target = some r →
      (Lane.Composed r (s.lane e.target) e.event ((g.step s e).1.lane e.target)
        (calls (g.step s e).2)) ∧
      ∃ t, config.targets.find? (fun t => t.name = e.target) = some t ∧
        Route.Built config mergers t r ∧
        ∀ c, r = .batched c → 2 ≤ c.settings.maxSize ∧ c.settings.maxSize ≤ 100) ∧
    (∀ e, g.route? e.target = none → calls (g.step s e).2 = []) ∧
    ((calls (g.run {} before).2).flatMap carried).Subperm
      (before.flatMap fun e => e.event.arrivals) := by
  intro s
  refine ⟨fun e r found => ?_, fun e unknown => step_unknown unknown s, g.run_carried before⟩
  obtain ⟨_, hroutes⟩ := build_built built
  obtain ⟨t, ht, hbuilt⟩ := hroutes e.target r found
  have hbounds : ∀ c, r = .batched c → 2 ≤ c.settings.maxSize ∧ c.settings.maxSize ≤ 100 := by
    intro c hc
    subst hc
    cases hbuilt with
    | batched options => exact options.maxSize_within
  refine ⟨?_, t, ht, hbuilt, hbounds⟩
  have hproper : ∀ e' ∈ ofTarget e.target before, e'.Proper := by
    intro e' he'
    obtain ⟨x, hx, rfl⟩ := List.mem_map.mp he'
    exact proper x (List.mem_filter.mp hx).1
  have hready : ∀ c, r = .batched c → (s.lane e.target).Ready c := by
    intro c hc
    subst hc
    have hpos : 0 < c.settings.maxSize := Nat.lt_of_lt_of_le Nat.zero_lt_two (hbounds c rfl).1
    show ((g.run {} before).1.lane e.target).Ready c
    rw [lane_run found]
    exact Lane.run_ready hpos hproper
  rw [step_found found, State.lane_withLane]
  exact Lane.step_composed hready

/-- a window of three queries with a subscription between them; a merger makes two documents of
them, and the call for the first one fails at once -/
theorem calls_composed_cut :
    let m : Merger := ⟨fun _ _ => .done [⟨default, [2, 0], .null⟩, ⟨default, [1], .null⟩],
      fun _ _ _ response => .done [response]⟩
    let accounts : TargetConfig :=
      { name := "accounts", url := "http://accounts"
        batching := some
          { strategy := .byCaller, style := .single, wait := { queries := some 3 } } }
    let config : Config := { targets := [accounts] }
    let c : Scheduler := ⟨.ofConfig accounts (.single m) 5, ⟨.byCaller, .single, 50, 3, 20⟩⟩
    let g : Gateway := ⟨[("accounts", .batched c)]⟩
    let p (ticket : Nat) (kind : OperationKind) : Pending :=
      ⟨ticket, { request := default, kind, caller := ⟨[], none, ⟨1, [], default⟩⟩ }, 0⟩
    let broken : Transport := ⟨fun _ _ => some (.failed (.protocol "http" 1 0 none)), 0⟩
    let before : List Event := [⟨"accounts", .execute 0 .silent (p 0 .query)⟩,
      ⟨"accounts", .execute 0 .silent (p 1 .query)⟩,
      ⟨"accounts", .execute 0 .silent (p 2 .subscription)⟩,
      ⟨"accounts", .execute 0 .silent (p 3 .query)⟩, ⟨"accounts", .scheduled (.take 0)⟩]
    let e : Event := ⟨"accounts", .scheduled (.serve 0 broken)⟩
    let s := (g.run {} before).1
    build (fun _ => none) config { usual := some m } = ([], .ok g) ∧
      (∀ e ∈ before, e.event.Proper) ∧
      (calls (g.run {} before).2).map (fun x => (x.1.members, x.2.map (·.ticket))) = [([0], [2])] ∧
      (calls (g.step s e).2).map (fun x => (x.1.members, x.2.map (·.ticket)))
        = [([2, 0], [0, 1, 3])] ∧
      Lane.Composed (.batched c) (s.lane "accounts") e.event ((g.step s e).1.lane "accounts")
        (calls (g.step s e).2) := by
  intro m accounts config c g p broken before e s
  have built : build (fun _ => none) config { usual := some m } = ([], .ok g) := by
    simp only [config, g, c, accounts]
    rfl
  have proper : ∀ e ∈ before, e.event.Proper := by
    simp [before, Lane.Event.Proper]
  obtain ⟨hall, _⟩ := calls_composed (fun _ => none) config { usual := some m } built before proper
  obtain ⟨hcomposed, _⟩ := hall e (.batched c) rfl
  exact ⟨built, proper, by decide +kernel, by decide +kernel, hcomposed⟩

end Gateway

end Coalesce
