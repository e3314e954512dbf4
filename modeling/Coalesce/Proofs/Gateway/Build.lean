import Coalesce.Gateway.Build

/-!
# What gateways are built from

* `Route.Built`             a route as it is built for a target: with settings that were resolved from
                            its options, and the codec of their style, or without batches;
* `Route.buildAll_lookup`   the route to a name is built for the first target of that name;
* `Gateway.build_built`     so it is in a gateway, and every reserve is that of the configuration,
                            which is not negative;
* `Gateway.build_route`     what that means for the target alone.
-/

namespace Coalesce

theorem Config.resolveBatching_ok {c : Config} {t : TargetConfig} {settings : Option Settings}
    (h : c.resolveBatching t = .ok settings) :
    settings = t.batching.map Options.settings := by
  unfold resolveBatching at h
  cases hoptions : t.batching with
  | none =>
    rw [hoptions] at h
    cases h
    rfl
  | some options =>
    rw [hoptions] at h
    dsimp only at h
    split at h
    · -- strict options are refused, or they resolve as all others do
      split at h
      · rename_i s hs
        cases h
        unfold Options.resolveStrict at hs
        split at hs
        · cases hs
          rfl
        · cases hs
      · cases h
    · cases h
      rfl

namespace Route

inductive Built (c : Config) (mergers : Mergers) (t : TargetConfig) : Route → Prop where
  | alone (none : t.batching = none) : Built c mergers t (.alone (.ofConfig t .plain c.padding))
  | batched (options : Options) (some : t.batching = some options) (codec : Codec)
      (made : Codec.ofStyle options.settings.style (mergers.find? t.name) = .ok codec) :
      Built c mergers t (.batched ⟨.ofConfig t codec c.padding, options.settings⟩)

theorem build_built {c : Config} {mergers : Mergers} {t : TargetConfig} {notices : List Notice}
    {r : Route} (h : build c mergers t = (notices, .ok r)) : Built c mergers t r := by
  unfold build at h
  dsimp only at h
  split at h
  · cases h
  · rename_i hnone
    cases h
    exact .alone (Option.map_eq_none_iff.mp (Config.resolveBatching_ok hnone).symm)
  · rename_i settings hsome
    obtain ⟨options, hoptions, rfl⟩ :=
      Option.map_eq_some_iff.mp (Config.resolveBatching_ok hsome).symm
    split at h
    · cases h
    · rename_i codec hcodec
      cases h
      unfold Route.codec at hcodec
      split at hcodec
      · rename_i hmade
        cases hcodec
        exact .batched options hoptions codec hmade
      · cases hcodec

theorem Built.target {c : Config} {mergers : Mergers} {t : TargetConfig} {r : Route}
    (h : Built c mergers t r) : ∃ codec, r.target = .ofConfig t codec c.padding := by
  cases h with
  | alone none => exact ⟨.plain, rfl⟩
  | batched options some codec made => exact ⟨codec, rfl⟩

theorem buildAll_lookup {c : Config} {mergers : Mergers} {ts : List TargetConfig}
    {notices : List Notice} {routes : List (String × Route)} {name : String} {r : Route}
    (h : buildAll c mergers ts = (notices, .ok routes)) (found : routes.lookup name = some r) :
    ∃ t, ts.find? (fun t => t.name = name) = some t ∧ Built c mergers t r := by
  induction ts generalizing notices routes with
  | nil =>
    cases h
    cases found
  | cons t rest ih =>
    unfold buildAll at h
    split at h
    · cases h
    · rename_i before route hroute
      dsimp only at h
      rcases hrest : buildAll c mergers rest with ⟨more, routes' | routes'⟩
      · rw [hrest] at h
        cases h
      · rw [hrest] at h
        cases h
        rw [List.find?_cons]
        rw [List.lookup_cons] at found
        by_cases hname : t.name = name
        · rw [show (name == t.name) = true from beq_iff_eq.mpr hname.symm] at found
          cases found
          exact ⟨t, by rw [decide_eq_true hname], build_built hroute⟩
        · rw [show (name == t.name) = false from beq_eq_false_iff_ne.mpr (Ne.symm hname)] at found
          obtain ⟨t', ht', hbuilt⟩ := ih hrest found
          exact ⟨t', by rw [decide_eq_false hname]; exact ht', hbuilt⟩

end Route

namespace Gateway

variable {urlFault : String → Option String} {c : Config} {mergers : Mergers}
  {notices : List Notice} {g : Gateway} (built : build urlFault c mergers = (notices, .ok g))
include built

theorem build_built : 0 ≤ c.padding ∧ ∀ name r, g.route? name = some r →
    ∃ t, c.targets.find? (fun t => t.name = name) = some t ∧ Route.Built c mergers t r := by
  unfold build at built
  split at built
  · cases built
  · rename_i hvalid
    refine ⟨Int.not_lt.mp fun hneg => ?_, fun name r hr => ?_⟩
    · unfold Config.validate at hvalid
      rw [if_pos hneg] at hvalid
      cases hvalid
    · dsimp only at built
      rcases hroutes : Route.buildAll c mergers c.targets with ⟨more, routes | routes⟩
      · rw [hroutes] at built
        cases built
      · rw [hroutes] at built
        cases built
        exact Route.buildAll_lookup hroutes hr

theorem build_route : 0 ≤ c.padding ∧ ∀ name r, g.route? name = some r →
    ∃ t codec, c.targets.find? (fun t => t.name = name) = some t ∧
      r.target = .ofConfig t codec c.padding := by
  obtain ⟨hpadding, hroute⟩ := build_built built
  refine ⟨hpadding, fun name r hr => ?_⟩
  obtain ⟨t, ht, hbuilt⟩ := hroute name r hr
  obtain ⟨codec, htarget⟩ := hbuilt.target
  exact ⟨t, codec, ht, htarget⟩

end Gateway

end Coalesce
