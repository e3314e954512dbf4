import Coalesce.Proofs.Except
import Coalesce.Proofs.Gateway.Lanes

/-!
# When gateways are built

* `Route.Barred`            why there is no route to a target;
* `Route.Serves`            a route to a target as its configuration wants it;
* `Route.build_eq_ok`, `Route.build_eq_error`
                            what building a route comes to;
* `Gateway.Refused`         the first thing that stands against a gateway;
* `Gateway.build_eq_ok`, `Gateway.build_eq_error`
                            what building a gateway comes to;
* `Builder.build_exact`     so a gateway is built just if nothing stands against it, and then it has
                            one route for each target, and no others.
-/

namespace Coalesce

namespace Mergers

variable {mergers : Mergers} {name : String}

theorem find?_eq_some {m : Merger} (h : mergers.find? name = some m) :
    mergers.special.lookup name = some m ∨ mergers.usual = some m := by
  unfold find? at h
  cases hspecial : mergers.special.lookup name with
  | some m' =>
    rw [hspecial] at h
    exact .inl h
  | none =>
    rw [hspecial] at h
    exact .inr h

theorem find?_eq_none :
    mergers.find? name = none ↔ mergers.special.lookup name = none ∧ mergers.usual = none := by
  unfold find?
  cases mergers.special.lookup name with
  | some m => exact ⟨nofun, fun h => h.1⟩
  | none => exact ⟨fun h => ⟨rfl, h⟩, fun h => h.2⟩

end Mergers

/-! ## one route -/

namespace Route

inductive Barred (c : Config) (mergers : Mergers) (t : TargetConfig) : Error → Prop where
  | unresolved {e : Error} (h : c.resolveBatching t = .error e) : Barred c mergers t e
  | merger {options : Options} (batched : t.batching = some options)
      (resolved : c.resolveBatching t = .ok (some options.settings))
      (single : options.style = .single) (none : mergers.find? t.name = none) :
      Barred c mergers t (.configuration (.mergerMissing (some t.name)))

structure Serves (c : Config) (mergers : Mergers) (t : TargetConfig) (r : Route) : Prop where
  name : r.target.name = t.name
  url : r.target.url = t.url
  timeout : r.target.timeout = t.timeout
  padding : r.target.padding = c.padding
  settings : c.resolveBatching t = .ok r.settings?
  plain : r.settings? = none → r.target.codec = .plain
  codec : ∀ s, r.settings? = some s →
    Codec.ofStyle s.style (mergers.find? t.name) = .ok r.target.codec

variable {c : Config} {mergers : Mergers} {t : TargetConfig} {e : Error} {r : Route}

theorem codec_eq_ok {name : String} {style : Style} {k : Codec} :
    codec mergers name style = .ok k ↔ Codec.ofStyle style (mergers.find? name) = .ok k := by
  unfold codec
  cases Codec.ofStyle style (mergers.find? name) with
  | ok k' => exact Iff.rfl
  | error e => exact ⟨nofun, nofun⟩

/-- Only the single style may be without a codec. -/
theorem codec_eq_error {name : String} {style : Style} :
    codec mergers name style = .error e ↔ (style = .single ∧ mergers.find? name = none) ∧
      e = .configuration (.mergerMissing (some name)) := by
  unfold codec Codec.ofStyle
  cases style <;> cases mergers.find? name <;> simp [eq_comm]

/-- the route, without the notices -/
theorem build_eq (c : Config) (mergers : Mergers) (t : TargetConfig) :
    (build c mergers t).2 = c.resolveBatching t >>= fun settings =>
      match settings with
      | none => .ok (.alone (.ofConfig t .plain c.padding))
      | some s => (codec mergers t.name s.style).map fun k =>
          .batched ⟨.ofConfig t k c.padding, s⟩ := by
  unfold build
  cases c.resolveBatching t with
  | error e => rfl
  | ok settings =>
    cases settings with
    | none => rfl
    | some s =>
      dsimp only
      cases hcodec : codec mergers t.name s.style with
      | error e =>
        show _ = (codec mergers t.name s.style).map _
        rw [hcodec]
        rfl
      | ok k =>
        show _ = (codec mergers t.name s.style).map _
        rw [hcodec]
        rfl

theorem build_serves (h : (build c mergers t).2 = .ok r) : Serves c mergers t r := by
  rw [build_eq, except_bind_eq_ok] at h
  obtain ⟨settings, hsettings, h⟩ := h
  cases settings with
  | none =>
    cases h
    exact ⟨rfl, rfl, rfl, rfl, hsettings, fun _ => rfl, nofun⟩
  | some s =>
    obtain ⟨k, hk, rfl⟩ := except_map_eq_ok.mp h
    refine ⟨rfl, rfl, rfl, rfl, hsettings, nofun, fun s' hs => ?_⟩
    cases hs
    exact codec_eq_ok.mp hk

theorem build_eq_error : (build c mergers t).2 = .error e ↔ Barred c mergers t e := by
  rw [build_eq, except_bind_eq_error]
  constructor
  · rintro (h | ⟨settings, hsettings, h⟩)
    · exact .unresolved h
    · cases settings with
      | none => cases h
      | some s =>
        obtain ⟨⟨hsingle, hmerger⟩, rfl⟩ := codec_eq_error.mp (except_map_eq_error.mp h)
        obtain ⟨options, hoptions, rfl⟩ :=
          Option.map_eq_some_iff.mp (Config.resolveBatching_ok hsettings).symm
        exact .merger hoptions hsettings hsingle hmerger
  · rintro (h | ⟨hoptions, hsettings, hsingle, hmerger⟩)
    · exact .inl h
    · exact .inr ⟨_, hsettings, except_map_eq_error.mpr
        (codec_eq_error.mpr ⟨⟨hsingle, hmerger⟩, rfl⟩)⟩

/-- There is a route, or something bars it. -/
theorem exists_build_iff : (∃ r, (build c mergers t).2 = .ok r) ↔ ∀ e, ¬ Barred c mergers t e := by
  simp only [← build_eq_error]
  cases (build c mergers t).2 with
  | error e => exact ⟨nofun, fun h => absurd rfl (h e)⟩
  | ok r => exact ⟨fun _ => nofun, fun _ => ⟨r, rfl⟩⟩

theorem not_barred_iff : (∀ e, ¬ Barred c mergers t e) ↔
    (∃ settings, c.resolveBatching t = .ok settings) ∧
      ∀ options, t.batching = some options → options.style = .single →
        (∃ m, mergers.special.lookup t.name = some m) ∨ ∃ m, mergers.usual = some m := by
  constructor
  · intro h
    obtain ⟨settings, hsettings⟩ : ∃ settings, c.resolveBatching t = .ok settings := by
      cases hresolved : c.resolveBatching t with
      | error e => exact absurd (.unresolved hresolved) (h e)
      | ok settings => exact ⟨settings, rfl⟩
    refine ⟨⟨settings, hsettings⟩, fun options hoptions hsingle => ?_⟩
    rw [Config.resolveBatching_ok hsettings, hoptions] at hsettings
    cases hmerger : mergers.find? t.name with
    | none => exact absurd (.merger hoptions hsettings hsingle hmerger) (h _)
    | some m => exact (Mergers.find?_eq_some hmerger).imp (fun h => ⟨m, h⟩) fun h => ⟨m, h⟩
  · rintro ⟨⟨settings, hsettings⟩, hmergers⟩ e (h | ⟨hoptions, _, hsingle, hnone⟩)
    · rw [hsettings] at h
      cases h
    · obtain ⟨hspecial, husual⟩ := Mergers.find?_eq_none.mp hnone
      rcases hmergers _ hoptions hsingle with ⟨m, hm⟩ | ⟨m, hm⟩
      · rw [hspecial] at hm
        cases hm
      · rw [husual] at hm
        cases hm

/-! ## all routes -/

theorem buildAll_eq (c : Config) (mergers : Mergers) (ts : List TargetConfig) :
    (buildAll c mergers ts).2
      = ts.mapM fun t => (build c mergers t).2.map fun r => (t.name, r) := by
  induction ts with
  | nil => rfl
  | cons t rest ih =>
    unfold buildAll
    rw [List.mapM_cons, ← ih]
    rcases build c mergers t with ⟨notices, e | r⟩
    · rfl
    · rcases buildAll c mergers rest with ⟨more, e | routes⟩ <;> rfl

end Route

namespace Gateway

inductive Refused (urlFault : String → Option String) (c : Config) (mergers : Mergers) :
    Error → Prop where
  | invalid {cause : ConfigurationError} (h : c.Invalid urlFault cause) :
      Refused urlFault c mergers (.configuration cause)
  | barred (reserve : 0 ≤ c.padding) (sound : Config.Sound urlFault c.targets)
      {before after : List TargetConfig} {t : TargetConfig}
      (split : c.targets = before ++ t :: after)
      (served : ∀ t ∈ before, ∀ e, ¬ Route.Barred c mergers t e) {e : Error}
      (h : Route.Barred c mergers t e) : Refused urlFault c mergers e

variable {urlFault : String → Option String} {c : Config} {mergers : Mergers} {e : Error}
  {g : Gateway}

theorem build_eq (urlFault : String → Option String) (c : Config) (mergers : Mergers) :
    (build urlFault c mergers).2 = c.validate urlFault >>= fun _ =>
      (Route.buildAll c mergers c.targets).2.map Gateway.mk := by
  unfold build
  cases c.validate urlFault with
  | error e => rfl
  | ok _ => rfl

theorem build_eq_ok : (build urlFault c mergers).2 = .ok g ↔
    0 ≤ c.padding ∧ Config.Sound urlFault c.targets ∧
      List.Forall₂ (fun t x => x.1 = t.name ∧ (Route.build c mergers t).2 = .ok x.2)
        c.targets g.routes := by
  have hrow : ∀ (t : TargetConfig) (x : String × Route),
      (Route.build c mergers t).2.map (fun r => (t.name, r)) = .ok x ↔
        x.1 = t.name ∧ (Route.build c mergers t).2 = .ok x.2 := by
    intro t x
    rw [except_map_eq_ok]
    constructor
    · rintro ⟨r, hr, rfl⟩
      exact ⟨rfl, hr⟩
    · rintro ⟨hname, hr⟩
      exact ⟨x.2, hr, Prod.ext hname.symm rfl⟩
  rw [build_eq, except_bind_eq_ok]
  simp only [except_map_eq_ok, Route.buildAll_eq, mapM_eq_ok, hrow]
  constructor
  · rintro ⟨_, hvalid, routes, hroutes, rfl⟩
    obtain ⟨reserve, sound⟩ := Config.validate_eq_ok.mp hvalid
    exact ⟨reserve, sound, hroutes⟩
  · rintro ⟨reserve, sound, hroutes⟩
    exact ⟨(), Config.validate_eq_ok.mpr ⟨reserve, sound⟩, g.routes, hroutes, rfl⟩

theorem build_eq_error :
    (build urlFault c mergers).2 = .error e ↔ Refused urlFault c mergers e := by
  have hserved : ∀ t, (∃ x, (Route.build c mergers t).2.map (fun r => (t.name, r)) = .ok x) ↔
      ∀ e, ¬ Route.Barred c mergers t e := by
    intro t
    rw [← Route.exists_build_iff]
    cases (Route.build c mergers t).2 with
    | error e => exact ⟨nofun, nofun⟩
    | ok r => exact ⟨fun _ => ⟨r, rfl⟩, fun _ => ⟨(t.name, r), rfl⟩⟩
  rw [build_eq, except_bind_eq_error]
  constructor
  · rintro (h | ⟨_, hvalid, h⟩)
    · obtain ⟨cause, hinvalid, rfl⟩ := Config.validate_eq_error.mp h
      exact .invalid hinvalid
    · obtain ⟨reserve, sound⟩ := Config.validate_eq_ok.mp hvalid
      rw [except_map_eq_error, Route.buildAll_eq, mapM_eq_error] at h
      obtain ⟨before, t, after, split, served, hbarred⟩ := h
      exact .barred reserve sound split (fun t ht => (hserved t).mp (served t ht))
        (Route.build_eq_error.mp (except_map_eq_error.mp hbarred))
  · rintro (hinvalid | ⟨reserve, sound, split, served, hbarred⟩)
    · exact .inl (Config.validate_eq_error.mpr ⟨_, hinvalid, rfl⟩)
    · refine .inr ⟨(), Config.validate_eq_ok.mpr ⟨reserve, sound⟩, ?_⟩
      rw [except_map_eq_error, Route.buildAll_eq, mapM_eq_error]
      exact ⟨_, _, _, split, fun t ht => (hserved t).mpr (served t ht),
        except_map_eq_error.mpr (Route.build_eq_error.mpr hbarred)⟩

section
variable (built : (build urlFault c mergers).2 = .ok g)
include built

theorem build_names : g.routes.map (·.1) = c.targets.map (·.name) := by
  obtain ⟨_, _, hroutes⟩ := build_eq_ok.mp built
  have hnames : List.Forall₂ (fun t x => x.1 = t.name) c.targets g.routes :=
    hroutes.imp fun _ _ h => h.1
  rw [← List.forall₂_eq_eq_eq]
  exact List.forall₂_map_left_iff.mpr (List.forall₂_map_right_iff.mpr hnames.flip)

/-- The route of each target is built for it. -/
theorem build_found {t : TargetConfig} (ht : t ∈ c.targets) :
    ∃ r, g.route? t.name = some r ∧ (Route.build c mergers t).2 = .ok r := by
  have hall : (Route.buildAll c mergers c.targets).2 = .ok g.routes := by
    rw [build_eq, except_bind_eq_ok] at built
    obtain ⟨_, _, h⟩ := built
    obtain ⟨routes, hroutes, rfl⟩ := except_map_eq_ok.mp h
    exact hroutes
  obtain ⟨_, sound, _⟩ := build_eq_ok.mp built
  obtain ⟨notices, r, hr, hlookup⟩ := Route.buildAll_mem (Prod.ext rfl hall) sound.distinct ht
  exact ⟨r, hlookup, congrArg Prod.snd hr⟩

/-- Nobody answers for a name that no target has. -/
theorem step_unnamed {name : String} (unnamed : name ∉ c.targets.map (·.name)) (s : State)
    (now : Int) (transport : Transport) (p : Pending) :
    g.step s ⟨name, .execute now transport p⟩
      = (s, [.answered p.ticket (.error (.runtime (.unknownTarget name)))]) := by
  have hnone : g.route? name = none := by
    rw [← build_names built] at unnamed
    refine List.lookup_eq_none_iff.mpr fun x hx => bne_iff_ne.mpr fun h => unnamed ?_
    exact h ▸ List.mem_map_of_mem hx
  unfold step
  rw [hnone]

end

/-- A gateway is built, or something stands against it. -/
theorem exists_build_iff : (∃ g, (build urlFault c mergers).2 = .ok g) ↔
    0 ≤ c.padding ∧ Config.Sound urlFault c.targets ∧
      ∀ t ∈ c.targets, ∀ e, ¬ Route.Barred c mergers t e := by
  constructor
  · rintro ⟨g, built⟩
    obtain ⟨reserve, sound, _⟩ := build_eq_ok.mp built
    refine ⟨reserve, sound, fun t ht => Route.exists_build_iff.mp ?_⟩
    obtain ⟨r, _, hr⟩ := build_found built ht
    exact ⟨r, hr⟩
  · rintro ⟨reserve, sound, served⟩
    cases hbuilt : (build urlFault c mergers).2 with
    | ok g => exact ⟨g, rfl⟩
    | error e =>
      have hvalid := Config.validate_eq_ok.mpr ⟨reserve, sound⟩
      obtain ⟨hinvalid⟩ | ⟨_, _, split, _, hbarred⟩ := build_eq_error.mp hbuilt
      · rw [Config.validate_eq_error.mpr ⟨_, hinvalid, rfl⟩] at hvalid
        cases hvalid
      · exact absurd hbarred (served _ (split ▸ List.mem_append_right _ List.mem_cons_self) e)

end Gateway

/-! ## builders -/

namespace Builder

theorem foldl_withTarget (b : Builder) (extra : List TargetConfig) :
    extra.foldl withTarget b
      = ⟨{ b.config with targets := b.config.targets ++ extra }, b.mergers⟩ := by
  induction extra generalizing b with
  | nil => rw [List.foldl_nil, List.append_nil]
  | cons t rest ih => rw [List.foldl_cons, ih, withTarget, List.append_assoc]; rfl

/-- **Gateways are built just from sound parts.**  For any configuration, targets that are added to
it and mergers: there is a gateway just if the reserve is not negative, all names are there and
different, all addresses can be read, all options resolve, and every target of the single style has
a merger, its own or the usual one.

The gateway then has a route for each target and for no other name: a request goes over the route of
its target's name, with the address, timeout, settings, codec and reserve of this target, and one to
any other name is answered with an error.  Otherwise the error is that of the first thing that stands
against the gateway: the reserve, then the first target with a flaw, whose position and field are
told, then the first target without a route. -/
theorem build_exact (urlFault : String → Option String) (b : Builder)
    (extra : List TargetConfig) :
    let c : Config := { b.config with targets := b.config.targets ++ extra }
    let built : Except Error Gateway := ((extra.foldl withTarget b).build urlFault).2
    ((∃ g, built = .ok g) ↔ 0 ≤ c.padding ∧ (∀ t ∈ c.targets, Text.isBlank t.name = false) ∧
      (c.targets.map (·.name)).Nodup ∧ (∀ t ∈ c.targets, urlFault t.url = none) ∧
      (∀ t ∈ c.targets, ∃ settings, c.resolveBatching t = .ok settings) ∧
      ∀ t ∈ c.targets, ∀ options, t.batching = some options → options.style = .single →
        (∃ m, b.mergers.special.lookup t.name = some m) ∨ ∃ m, b.mergers.usual = some m) ∧
    (∀ g, built = .ok g → g.routes.map (·.1) = c.targets.map (·.name) ∧
      (∀ t ∈ c.targets, ∃ r, r.Serves c b.mergers t ∧ ∀ (s : Gateway.State) (e : Lane.Event),
        g.step s ⟨t.name, e⟩ = (s.withLane t.name ((s.lane t.name).step r e).1,
          ((s.lane t.name).step r e).2)) ∧
      ∀ name ∉ c.targets.map (·.name), ∀ (s : Gateway.State) (now : Int) (transport : Transport)
        (p : Pending), g.step s ⟨name, .execute now transport p⟩
          = (s, [.answered p.ticket (.error (.runtime (.unknownTarget name)))])) ∧
    (∀ e, built = .error e ↔ Gateway.Refused urlFault c b.mergers e) ∧
    ∀ before t after place cause, c.targets = before ++ t :: after → 0 ≤ c.padding →
      Config.Sound urlFault before → Config.Flaw urlFault before t place cause →
        built = .error (.configuration cause) ∧
          cause.context.field = some ("upstreams[" ++ toString before.length ++ "]." ++ place) := by
  intro c built
  have hbuilt : built = (Gateway.build urlFault c b.mergers).2 := by
    show ((extra.foldl withTarget b).build urlFault).2 = _
    rw [foldl_withTarget]
    rfl
  rw [hbuilt]
  refine ⟨?_, fun g hg => ⟨Gateway.build_names hg, fun t ht => ?_,
    fun name unnamed => Gateway.step_unnamed hg unnamed⟩, fun e => Gateway.build_eq_error,
    fun before t after place cause split reserve sound flaw => ⟨?_, flaw.field⟩⟩
  · rw [Gateway.exists_build_iff]
    constructor
    · rintro ⟨reserve, ⟨named, distinct, addressed⟩, served⟩
      exact ⟨reserve, named, distinct, addressed,
        fun t ht => (Route.not_barred_iff.mp (served t ht)).1,
        fun t ht => (Route.not_barred_iff.mp (served t ht)).2⟩
    · rintro ⟨reserve, named, distinct, addressed, resolved, merged⟩
      exact ⟨reserve, ⟨named, distinct, addressed⟩,
        fun t ht => Route.not_barred_iff.mpr ⟨resolved t ht, merged t ht⟩⟩
  · obtain ⟨r, found, hr⟩ := Gateway.build_found hg ht
    exact ⟨r, Route.build_serves hr, fun s e => Gateway.step_found found s⟩
  · exact Gateway.build_eq_error.mpr (.invalid (.target reserve split sound flaw))

/-- a target of the single style that has its own merger, and others added to it: with a name of
their own; with a blank address behind a repeated name -/
theorem build_exact_repeated :
    let urlFault : String → Option String := fun url => if url = "" then some "no scheme" else none
    let merger : Merger := ⟨fun _ _ => .crashed, fun _ _ _ _ => .crashed⟩
    let accounts : TargetConfig :=
      ⟨"accounts", "http://accounts", none, some { strategy := .byCaller, style := .single }⟩
    let b : Builder := ⟨{ targets := [accounts] }, ⟨none, [("accounts", merger)]⟩⟩
    let reviews : TargetConfig := { name := "reviews", url := "http://reviews" }
    let again : TargetConfig := { name := "accounts", url := "http://accounts" }
    let nowhere : TargetConfig := { name := "nowhere", url := "" }
    (∃ g, (([reviews].foldl withTarget b).build urlFault).2 = .ok g ∧
      g.routes.map (·.1) = ["accounts", "reviews"]) ∧
    (([reviews, again, nowhere].foldl withTarget b).build urlFault).2
      = .error (.configuration (.duplicateName 2 "accounts")) ∧
    (ConfigurationError.duplicateName 2 "accounts").context.field = some "upstreams[2].name" := by
  intro urlFault merger accounts b reviews again nowhere
  obtain ⟨hgood, hroutes, _⟩ := build_exact urlFault b [reviews]
  obtain ⟨_, _, _, hflaw⟩ := build_exact urlFault b [reviews, again, nowhere]
  have hsound : Config.Sound urlFault [accounts, reviews] := ⟨by decide, by decide, by decide⟩
  obtain ⟨g, hg⟩ := hgood.mpr ⟨by decide, hsound.named, hsound.distinct, hsound.addressed,
    List.forall_mem_cons.mpr ⟨⟨_, rfl⟩, List.forall_mem_singleton.mpr ⟨none, rfl⟩⟩,
    List.forall_mem_cons.mpr ⟨fun _ _ _ => .inl ⟨merger, rfl⟩, List.forall_mem_singleton.mpr nofun⟩⟩
  obtain ⟨herror, hfield⟩ := hflaw [accounts, reviews] again [nowhere] "name" _ rfl (by decide)
    hsound (.taken (by decide) (by decide))
  exact ⟨⟨g, hg, (hroutes g hg).1⟩, herror, hfield.trans (by decide)⟩

end Builder

end Coalesce
