import Coalesce.Proofs.Config.Validation
import Coalesce.Proofs.Gateway.Deadline
import Coalesce.Proofs.Gateway.Renaming
import Coalesce.Proofs.Lending

/-!
# Targets are independent

* `Route.buildAll_mem`       the route to a target is built from its own part of the configuration;
* `Gateway.build_alone`      so a gateway for this target alone has the same route;
* `Gateway.log`              the events of a gateway, each with its effects;
* `Gateway.log_at`           what is logged at one target is the log of its lane;
* `Gateway.targets_independent`
                             a target is served as if there were no other, but for the numbers of
                             tokens.
-/

namespace Coalesce

/-! ## a gateway for one target -/

namespace Config

/-- the configuration with one target left -/
def alone (c : Config) (t : TargetConfig) : Config := { c with targets := [t] }

theorem validate_alone {urlFault : String → Option String} {c : Config}
    (h : c.validate urlFault = .ok ()) {t : TargetConfig} (ht : t ∈ c.targets) :
    (c.alone t).validate urlFault = .ok () := by
  obtain ⟨reserve, sound⟩ := validate_eq_ok.mp h
  exact validate_eq_ok.mpr ⟨reserve, List.forall_mem_singleton.mpr (sound.named t ht),
    List.nodup_singleton t.name, List.forall_mem_singleton.mpr (sound.addressed t ht)⟩

end Config

namespace Route

theorem buildAll_mem {c : Config} {mergers : Mergers} {ts : List TargetConfig}
    {notices : List Notice} {routes : List (String × Route)}
    (h : buildAll c mergers ts = (notices, .ok routes)) (distinct : (ts.map (·.name)).Nodup)
    {t : TargetConfig} (ht : t ∈ ts) :
    ∃ notices' r, build c mergers t = (notices', .ok r) ∧ routes.lookup t.name = some r := by
  induction ts generalizing notices routes with
  | nil => exact absurd ht List.not_mem_nil
  | cons first rest ih =>
    obtain ⟨hnew, hrest⟩ := List.nodup_cons.mp distinct
    unfold buildAll at h
    split at h
    · cases h
    · rename_i before route hroute
      dsimp only at h
      rcases hmore : buildAll c mergers rest with ⟨more, routes' | routes'⟩
      · rw [hmore] at h
        cases h
      · rw [hmore] at h
        cases h
        rcases List.mem_cons.mp ht with rfl | ht
        · exact ⟨before, route, hroute, List.lookup_cons_self⟩
        · obtain ⟨notices', r, hr, hlookup⟩ := ih hmore hrest ht
          have hother : t.name ≠ first.name := by
            intro hname
            exact hnew (List.mem_map.mpr ⟨t, ht, hname⟩)
          refine ⟨notices', r, hr, ?_⟩
          rw [List.lookup_cons, beq_false_of_ne hother]
          exact hlookup

end Route

namespace Gateway

theorem build_alone {urlFault : String → Option String} {c : Config} {mergers : Mergers}
    {notices : List Notice} {g : Gateway} (built : build urlFault c mergers = (notices, .ok g))
    {t : TargetConfig} (ht : t ∈ c.targets) :
    ∃ notices' r, build urlFault (c.alone t) mergers = (notices', .ok ⟨[(t.name, r)]⟩) ∧
      g.route? t.name = some r := by
  unfold build at built
  split at built
  · cases built
  · rename_i hvalid
    obtain ⟨_, sound⟩ := Config.validate_eq_ok.mp hvalid
    dsimp only at built
    rcases hroutes : Route.buildAll c mergers c.targets with ⟨more, routes | routes⟩
    · rw [hroutes] at built
      cases built
    · rw [hroutes] at built
      cases built
      obtain ⟨notices', r, hr, hlookup⟩ := Route.buildAll_mem hroutes sound.distinct ht
      have hone : Route.build (c.alone t) mergers t = (notices', .ok r) := hr
      refine ⟨notices' ++ [], r, ?_, hlookup⟩
      unfold build
      rw [Config.validate_alone hvalid ht]
      show ((Route.buildAll (c.alone t) mergers [t]).1,
        (Route.buildAll (c.alone t) mergers [t]).2.map mk) = _
      unfold Route.buildAll
      rw [hone]
      rfl

/-! ## logs -/

/-- every event with its effects -/
def log (g : Gateway) (s : State) : List Event → List (Event × List Effect)
  | [] => []
  | e :: rest => (e, (g.step s e).2) :: g.log (g.step s e).1 rest

theorem log_effects (g : Gateway) (s : State) (es : List Event) :
    (g.log s es).flatMap (·.2) = (g.run s es).2 := by
  induction es generalizing s with
  | nil => rfl
  | cons e rest ih => rw [log, List.flatMap_cons, ih, run_cons]

theorem log_events (g : Gateway) (s : State) (es : List Event) :
    (g.log s es).map (·.1) = es := by
  induction es generalizing s with
  | nil => rfl
  | cons e rest ih => rw [log, List.map_cons, ih]

theorem State.lane_withLane (s : State) (target : String) (l : Lane) :
    (s.withLane target l).lane target = l := by
  unfold State.lane State.withLane
  rw [List.lookup_cons_self]
  rfl

theorem State.lane_withLane_ne (s : State) {target other : String} (h : other ≠ target)
    (l : Lane) : (s.withLane target l).lane other = s.lane other := by
  unfold State.lane State.withLane
  rw [List.lookup_cons, beq_false_of_ne h]
  dsimp only
  refine congrArg (fun found : Option Lane => found.getD {}) ?_
  induction s.lanes with
  | nil => rfl
  | cons x rest ih =>
    by_cases hx : x.1 = target
    · rw [List.filter_cons_of_neg (by simpa using hx), ih, List.lookup_cons,
        beq_false_of_ne (hx ▸ h)]
    · rw [List.filter_cons_of_pos (by simpa using hx), List.lookup_cons, List.lookup_cons, ih]

/-- the events of one target -/
def Event.at (target : String) (e : Event) : Bool := e.target = target

/-- What is logged at one target is the log of its lane. -/
theorem log_at {g : Gateway} {target : String} {r : Route} (found : g.route? target = some r)
    (s : State) (es : List Event) :
    (g.log s es).filter (fun x => x.1.at target)
      = ((s.lane target).log r ((es.filter (Event.at target)).map (·.event))).map fun x =>
          (⟨target, x.1⟩, x.2) := by
  induction es generalizing s with
  | nil => rfl
  | cons e rest ih =>
    rw [log]
    by_cases hown : e.target = target
    · have hat : e.at target = true := decide_eq_true hown
      subst hown
      have hstep : g.step s e = (s.withLane e.target ((s.lane e.target).step r e.event).1,
          ((s.lane e.target).step r e.event).2) := by
        unfold step
        rw [found]
      rw [List.filter_cons_of_pos hat,
        List.filter_cons_of_pos (p := fun x : Event × List Effect => x.1.at e.target) hat,
        ih, hstep, State.lane_withLane]
      rfl
    · have hat : ¬ e.at target = true := fun h => hown (of_decide_eq_true h)
      have hstep : (g.step s e).1.lane target = s.lane target := by
        unfold step
        split
        · exact s.lane_withLane_ne (Ne.symm hown) _
        · split <;> rfl
      rw [List.filter_cons_of_neg hat,
        List.filter_cons_of_neg (p := fun x : Event × List Effect => x.1.at target) hat, ih, hstep]

/-! ## other callers -/

end Gateway

def Pending.withCaller (p : Pending) (caller : Caller) : Pending :=
  { p with item := { p.item with caller } }

def Lane.Event.withCallers (callers : Pending → Caller) : Lane.Event → Lane.Event
  | .execute now transport p => .execute now transport (p.withCaller (callers p))
  | .scheduled (.submit p) => .scheduled (.submit (p.withCaller (callers p)))
  | e => e

theorem Lane.Event.withCallers_eq {callers : Pending → Caller} {ρ : Nat → Nat} {e : Lane.Event}
    (h : ∀ p ∈ e.arrivals, callers p = p.item.caller.retoken ρ) :
    e.withCallers callers = e.retoken ρ := by
  have hone : ∀ p ∈ e.arrivals, p.withCaller (callers p) = p.retoken ρ := by
    intro p hp
    rw [h p hp]
    rfl
  cases e with
  | execute now transport p =>
    exact congrArg (Lane.Event.execute now transport) (hone p (List.mem_singleton_self p))
  | scheduled e =>
    cases e with
    | submit p =>
      exact congrArg (fun p => Lane.Event.scheduled (.submit p)) (hone p (List.mem_singleton_self p))
    | _ => rfl
  | _ => rfl

namespace Gateway

def Event.withCallers (callers : Pending → Caller) (e : Event) : Event :=
  { e with event := e.event.withCallers callers }

def Entry.retoken (ρ : Nat → Nat) (x : Event × List Effect) : Event × List Effect :=
  ({ x.1 with event := x.1.event.retoken ρ }, x.2.map (Effect.retoken ρ))

/-- what an entry shows: the reading of the clock, the calls started then, and who was told what -/
def Entry.shown (x : Event × List Effect) :
    Option Int × List Call × List (Nat × Except Error Json) :=
  (x.1.event.clock?, (calls x.2).map (·.1), answers x.2)

theorem shown_retoken (ρ : Nat → Nat) (x : Event × List Effect) :
    Entry.shown (Entry.retoken ρ x) = Entry.shown x := by
  have hclock : (x.1.event.retoken ρ).clock? = x.1.event.clock? := by
    cases x.1.event with
    | scheduled e => cases e <;> rfl
    | _ => rfl
  unfold Entry.shown Entry.retoken
  dsimp only
  rw [hclock, calls_retoken, answers_retoken]

/-- the requests that come in for one target -/
def requests (target : String) (es : List Event) : List Pending :=
  (es.filter (Event.at target)).flatMap (·.event.arrivals)

section
variable {hash : List UInt8 → List UInt8} {target : String} {es : List Event}
  {changes changes' : List Registry.Event} {context time context' time' : Pending → Nat}
  {callers : Pending → Caller}

/-- Callers that are lent the same contexts are renamed alike. -/
theorem callers_renamed
    (lent : ∀ p ∈ requests target es, ∃ x x', x.bare = x'.bare ∧
      Registry.Lends hash changes (context p) (time p) x p.item.caller ∧
      Registry.Lends hash changes' (context' p) (time' p) x' (callers p))
    (same : ∀ p ∈ requests target es, ∀ q ∈ requests target es,
      context p = context q ↔ context' p = context' q) :
    ∃ ρ : Nat → Nat, Function.Injective ρ ∧
      ∀ p ∈ requests target es, callers p = p.item.caller.retoken ρ := by
  let pair (p : Pending) : Nat × Nat := (p.item.caller.state.token, (callers p).state.token)
  -- tokens are told apart as contexts are
  have htold : ∀ a ∈ (requests target es).map pair, ∀ b ∈ (requests target es).map pair,
      a.1 = b.1 ↔ a.2 = b.2 := by
    intro a ha b hb
    obtain ⟨p, hp, rfl⟩ := List.mem_map.mp ha
    obtain ⟨q, hq, rfl⟩ := List.mem_map.mp hb
    obtain ⟨_, _, _, hp₁, hp₂⟩ := lent p hp
    obtain ⟨_, _, _, hq₁, hq₂⟩ := lent q hq
    constructor
    · intro htoken
      have hcontext := (same p hp q hq).mp (Registry.context_of_token hp₁.given hq₁.given htoken)
      exact congrArg BatchingState.token (Registry.state_of_run hp₂.given (hcontext ▸ hq₂.given))
    · intro htoken
      have hcontext := (same p hp q hq).mpr (Registry.context_of_token hp₂.given hq₂.given htoken)
      exact congrArg BatchingState.token (Registry.state_of_run hp₁.given (hcontext ▸ hq₁.given))
  obtain ⟨ρ, inj, hρ⟩ := Registry.exists_renaming _ htold
  refine ⟨ρ, inj, fun p hp => ?_⟩
  obtain ⟨x, x', hbare, hfirst, hsecond⟩ := lent p hp
  exact hfirst.alike hsecond hbare (hρ (pair p) (List.mem_map_of_mem hp))

end

/-- **Targets are independent.**  Take any run of a gateway that was built from a configuration, and
one of its targets.  Then a gateway for this target alone can be built, and its run on the events of
this target logs what was logged at this target, event by event, but for the numbers of tokens:
in particular the same calls are started at the same readings of the clock, and the same is told to
the same requests.

The callers of the one run are lent by one registry, and those of the other by another one, of which
nothing is asked but that each request comes with the same context as it was handed over, and that
requests share contexts in the one where they do in the other.  So whatever happens at other targets
makes no difference, and neither does who first asks for the state of a context that is shared with
them. -/
theorem targets_independent (hash : List UInt8 → List UInt8) (urlFault : String → Option String)
    (config : Config) (mergers : Mergers) {notices : List Notice} {g : Gateway}
    (built : build urlFault config mergers = (notices, .ok g)) {t : TargetConfig}
    (known : t ∈ config.targets) (es : List Event) (changes changes' : List Registry.Event)
    (context time context' time' : Pending → Nat) (callers : Pending → Caller)
    (lent : ∀ p ∈ requests t.name es, ∃ x x', x.bare = x'.bare ∧
      Registry.Lends hash changes (context p) (time p) x p.item.caller ∧
      Registry.Lends hash changes' (context' p) (time' p) x' (callers p))
    (same : ∀ p ∈ requests t.name es, ∀ q ∈ requests t.name es,
      context p = context q ↔ context' p = context' q) :
    ∃ notices' alone ρ, build urlFault (config.alone t) mergers = (notices', .ok alone) ∧
      Function.Injective ρ ∧
      alone.log {} ((es.filter (Event.at t.name)).map (Event.withCallers callers))
        = ((g.log {} es).filter fun x => x.1.at t.name).map (Entry.retoken ρ) ∧
      (alone.log {} ((es.filter (Event.at t.name)).map (Event.withCallers callers))).map Entry.shown
        = ((g.log {} es).filter fun x => x.1.at t.name).map Entry.shown := by
  obtain ⟨notices', r, halone, hroute⟩ := build_alone built known
  obtain ⟨ρ, inj, hρ⟩ := callers_renamed lent same
  let own : List Event := (es.filter (Event.at t.name)).map (Event.withCallers callers)
  have hown : own.map (·.event)
      = ((es.filter (Event.at t.name)).map (·.event)).map (Lane.Event.retoken ρ) := by
    rw [List.map_map, List.map_map]
    refine List.map_congr_left fun e he => Lane.Event.withCallers_eq fun p hp => ?_
    exact hρ p (List.mem_flatMap.mpr ⟨e, he, hp⟩)
  have hat : ∀ e ∈ own, e.at t.name = true := by
    intro e he
    obtain ⟨e', he', rfl⟩ := List.mem_map.mp he
    exact (List.mem_filter.mp he').2
  let alone : Gateway := ⟨[(t.name, r)]⟩
  have hall : (alone.log {} own).filter (fun x => x.1.at t.name) = alone.log {} own := by
    refine List.filter_eq_self.mpr fun x hx => hat x.1 ?_
    rw [← alone.log_events {} own]
    exact List.mem_map_of_mem hx
  have hlog : alone.log {} own
      = ((g.log {} es).filter fun x => x.1.at t.name).map (Entry.retoken ρ) := by
    have hfound : alone.route? t.name = some r := List.lookup_cons_self
    rw [← hall, log_at hfound, log_at hroute, List.filter_eq_self.mpr hat, hown]
    have hlane := Lane.log_retoken inj r {} ((es.filter (Event.at t.name)).map (·.event))
    refine (congrArg (List.map _) hlane).trans ?_
    rw [List.map_map, List.map_map]
    rfl
  refine ⟨notices', alone, ρ, halone, inj, hlog, ?_⟩
  show (alone.log {} own).map Entry.shown = _
  rw [hlog, List.map_map]
  exact List.map_congr_left fun x _ => shown_retoken ρ x

/-- two callers at a target that batches by caller, one of which is known to another target first,
where its call crashes -/
theorem targets_independent_shared :
    let hash (_ : List UInt8) : List UInt8 := []
    let shared : List Registry.Event := [.enter, .withHeader 0 "X-User" "a", .enter]
    let changes := shared ++ [.ask 1, .ask 0]
    let changes' := shared ++ [.ask 0, .ask 1]
    let caller (changes : List Registry.Event) (k : Nat) : Caller :=
      (((Registry.run hash {} changes).contexts.getD k {}).caller hash 3).1
    let accounts : TargetConfig :=
      { name := "accounts", url := "http://accounts"
        batching := some { strategy := .byCaller, wait := { queries := some 3 } } }
    let config : Config := { targets := [{ name := "users", url := "http://users" }, accounts] }
    let g : Gateway := ⟨[("users", .alone ⟨"users", "http://users", none, .plain, 5⟩),
      ("accounts", .batched ⟨.ofConfig accounts .array 5, ⟨.byCaller, .array, 50, 3, 20⟩⟩)]⟩
    let p (ticket : Nat) : Pending :=
      ⟨ticket, { request := default, caller := caller changes (ticket % 2) }, 0⟩
    let es : List Event := [⟨"users", .execute 0 .silent (p 3)⟩,
      ⟨"accounts", .execute 0 .silent (p 0)⟩, ⟨"accounts", .execute 0 .silent (p 1)⟩,
      ⟨"accounts", .execute 0 .silent (p 2)⟩, ⟨"users", .resume 3 0 .crashed⟩,
      ⟨"accounts", .scheduled (.take 1)⟩, ⟨"accounts", .scheduled (.serve 2 .silent)⟩,
      ⟨"accounts", .scheduled (.serve 3 .silent)⟩]
    build (fun _ => none) config {} = ([], .ok g) ∧
      (caller changes 0).state.token = 2 ∧ (caller changes' 0).state.token = 1 ∧
      ((g.log {} es).filter fun x => x.1.at "accounts").map
          (fun x => (x.1.event.clock?, (calls x.2).map (·.2.map (·.ticket))))
        = [(some 0, []), (some 0, []), (some 0, []), (some 1, []), (some 2, [[0, 2]]),
            (some 3, [[1]])] ∧
      ∃ notices' alone, build (fun _ => none) (config.alone accounts) {} = (notices', .ok alone) ∧
        (alone.log {} ((es.filter (Event.at "accounts")).map
            (Event.withCallers fun p => caller changes' (p.ticket % 2)))).map Entry.shown
          = ((g.log {} es).filter fun x => x.1.at "accounts").map Entry.shown := by
  intro hash shared changes changes' caller accounts config g p es
  have built : build (fun _ => none) config {} = ([], .ok g) := by
    simp only [config, g, accounts]
    rfl
  have known : accounts ∈ config.targets := List.mem_cons_of_mem _ List.mem_cons_self
  let x (k : Nat) : Context := (Registry.run hash {} shared).contexts.getD k {}
  have fixed : ∀ cs ∈ [changes, changes'], ∀ e ∈ cs.drop 3, e.changes? = none := by decide
  have handed : ∀ cs ∈ [changes, changes'], ∀ k < 2,
      Registry.Lends hash cs k 5 (x k) (caller cs k) := by
    intro cs hcs k hk
    have hfixed : ∀ e ∈ cs.drop 3, e.changes? ≠ some k := by
      intro e he
      rw [fixed cs hcs e he]
      exact Option.some_ne_none k |>.symm
    have hk : k = 0 ∨ k = 1 := by omega
    have hcs : cs = changes ∨ cs = changes' := by simpa using hcs
    rcases hcs with rfl | rfl <;> rcases hk with rfl | rfl <;>
      exact ⟨⟨_, rfl, rfl, rfl⟩, 3, by decide, rfl, hfixed⟩
  have lent : ∀ q ∈ requests accounts.name es, ∃ y y', y.bare = y'.bare ∧
      Registry.Lends hash changes (q.ticket % 2) 5 y q.item.caller ∧
      Registry.Lends hash changes' (q.ticket % 2) 5 y' (caller changes' (q.ticket % 2)) := by
    intro q hq
    have hmod : q.ticket % 2 < 2 := Nat.mod_lt _ (by decide)
    have hcaller : q.item.caller = caller changes (q.ticket % 2) := by
      have hown : requests accounts.name es = [p 0, p 1, p 2] := rfl
      rw [hown] at hq
      obtain ⟨n, _, rfl⟩ : ∃ n ∈ [0, 1, 2], p n = q := List.mem_map.mp hq
      rfl
    rw [hcaller]
    exact ⟨_, _, rfl, handed changes (by simp) _ hmod, handed changes' (by simp) _ hmod⟩
  obtain ⟨notices', alone, _, halone, _, _, hshown⟩ :=
    targets_independent hash (fun _ => none) config {} built known es changes changes'
      (fun q => q.ticket % 2) (fun _ => 5) (fun q => q.ticket % 2) (fun _ => 5)
      (fun q => caller changes' (q.ticket % 2)) lent (fun _ _ _ _ => Iff.rfl)
  have told : ((g.log {} es).filter fun x => x.1.at "accounts").map
      (fun x => (x.1.event.clock?, (calls x.2).map (·.2.map (·.ticket))))
        = [(some 0, []), (some 0, []), (some 0, []), (some 1, []), (some 2, [[0, 2]]),
            (some 3, [[1]])] := by decide +kernel
  exact ⟨built, rfl, rfl, told, notices', alone, halone, hshown⟩

end Gateway

end Coalesce
