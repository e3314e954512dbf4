import Coalesce.Proofs.Dispatch.Answered
import Coalesce.Proofs.Dispatch.Guards
import Coalesce.Proofs.Gateway.Build
import Coalesce.Proofs.Gateway.Lanes
import Coalesce.Proofs.Scheduler.Told

/-!
# Requests are answered all, or none of them

* `Lane.Event.Gives`, `Mergers.Gives`   the errors that foreign code gives to a gateway;
* `Route.Permits`                       what may be told at a target: what its codec refuses, that
                                        there is no time left, and that no reply will come;
* `Lane.step_told`, `Lane.run_told`     nothing else is told at its lane, but what foreign code gives;
* `Gateway.all_or_nothing`              so nothing fails a check of the order of results, or of their
                                        number.

A target that does not batch sends one request a call, and a target that batches has a codec for
many.
-/

namespace Coalesce

/-- an error that some merger may come to -/
def Mergers.Gives (mergers : Mergers) (cause : Error) : Prop :=
  ∃ name m, mergers.find? name = some m ∧ m.Gives cause

/-- What may be told at a target, whatever foreign code gives. -/
structure Route.Permits (r : Route) (P : Error → Prop) : Prop where
  reads : ∀ call response cause, r.target.codec.decode call response = .failed cause → P cause
  writes : ∀ requests, (∀ t, r = .alone t → requests.length = 1) →
    ∀ round cause, r.target.codec.encode requests round = .failed cause → P cause
  late : ∀ deadline remaining, P (.timeout deadline remaining)
  dropped : ∀ target, P (.runtime (.replyDropped target))

namespace Lane

/-- an error that comes in with an event -/
def Event.Gives : Event → Error → Prop
  | .execute _ transport _, cause => transport.Gives cause
  | .resume _ _ outcome, cause => outcome = .failed cause
  | .leave _, _ => False
  | .scheduled e, cause => e.Gives cause

/-- all exchanges that are waited for are sound -/
structure Sound (r : Route) (P : Error → Prop) (l : Lane) : Prop where
  solos : ∀ solo ∈ l.solos, solo.exchange.Sound r.target.codec [solo.request.item.request] P
  scheduler : ∀ c, r = .batched c → c.Sound P l.scheduler

section
variable {r : Route} {P : Error → Prop} {l : Lane}

/-- a request that was sent alone has one result -/
theorem told_conclude {codec : Codec} {request : Request} (ticket : Nat)
    {result : Outcome (List Json)} (fine : Progress.Fine codec [request] P (.ended result)) :
    Told P [conclude ticket result] := by
  intro x hx cause hcause
  rw [List.mem_singleton.mp hx] at hcause
  cases fine with
  | done values each =>
    obtain ⟨value, rfl⟩ := List.length_eq_one_iff.mp each
    exact absurd hcause List.not_mem_nil
  | failed cause' told =>
    rw [List.mem_singleton.mp hcause]
    exact told
  | crashed => exact absurd hcause List.not_mem_nil

theorem nothing_told (P : Error → Prop) : Told P [] := fun _ hx => absurd hx List.not_mem_nil

section
variable (permits : r.Permits P) (sound : l.Sound r P)
include permits sound

theorem sendAlone_told (now : Int) {transport : Transport} (p : Pending)
    (given : ∀ cause, transport.Gives cause → P cause) :
    (l.sendAlone r.target now transport p).1.Sound r P ∧
      Told P (l.sendAlone r.target now transport p).2 := by
  have hfine : (r.target.start now transport [p.item]).2.Fine r.target.codec
      ([p.item].map (·.request)) P :=
    Target.start_fine permits.reads permits.late
      (permits.writes ([p.item].map (·.request)) fun _ _ => rfl) now given
  unfold sendAlone
  dsimp only
  split
  · rename_i exchange hrunning
    rw [hrunning] at hfine
    refine ⟨⟨fun solo hsolo => ?_, sound.scheduler⟩, told_called P _ _⟩
    rcases List.mem_append.mp hsolo with hsolo | hsolo
    · exact sound.solos solo hsolo
    · rw [List.mem_singleton.mp hsolo]
      cases hfine with
      | running _ hsound => exact hsound
  · rename_i result hended
    rw [hended] at hfine
    exact ⟨sound, Told.append (told_called P _ _) (told_conclude p.ticket hfine)⟩

theorem resume_told (ticket call : Nat) {outcome : Outcome Json}
    (given : ∀ cause, outcome = .failed cause → P cause) :
    (l.resume r.target ticket call outcome).1.Sound r P ∧
      Told P (l.resume r.target ticket call outcome).2 := by
  unfold resume
  split
  · exact ⟨sound, nothing_told P⟩
  · rename_i solo hfound
    have hfine := Exchange.resume_fine permits.reads
      (sound.solos solo (List.mem_of_find?_eq_some hfound)) call given
    have others : ∀ other ∈ l.solos.filter fun s => s.request.ticket ≠ ticket,
        other.exchange.Sound r.target.codec [other.request.item.request] P := fun other hother =>
      sound.solos other (List.mem_filter.mp hother).1
    dsimp only
    split
    · rename_i exchange hrunning
      rw [hrunning] at hfine
      refine ⟨⟨fun solo' hsolo' => ?_, sound.scheduler⟩, nothing_told P⟩
      rcases List.mem_append.mp hsolo' with hsolo' | hsolo'
      · exact others solo' hsolo'
      · rw [List.mem_singleton.mp hsolo']
        cases hfine with
        | running _ hsound => exact hsound
    · rename_i result hended
      rw [hended] at hfine
      exact ⟨⟨others, sound.scheduler⟩, told_conclude ticket hfine⟩

variable (ids : ∀ c, r = .batched c → (l.scheduler.deliveries.map (·.id)).Nodup)
include ids

theorem schedule_told {e : Scheduler.Event} (given : ∀ cause, e.Gives cause → P cause) :
    (l.schedule r e).1.Sound r P ∧ Told P (l.schedule r e).2 := by
  cases r with
  | alone t => exact ⟨sound, nothing_told P⟩
  | batched c =>
    have hwrites : ∀ requests round cause,
        c.target.codec.encode requests round = .failed cause → P cause := fun requests =>
      permits.writes requests fun t h => by cases h
    obtain ⟨hsound, htold⟩ := (c.step_change l.scheduler e).told permits.reads hwrites permits.late
      (permits.dropped _) (ids c rfl) (sound.scheduler c rfl) given
    refine ⟨⟨sound.solos, fun c' h => ?_⟩, htold⟩
    cases h
    exact hsound

theorem step_told {e : Event} (given : ∀ cause, e.Gives cause → P cause) :
    (l.step r e).1.Sound r P ∧ Told P (l.step r e).2 := by
  cases e with
  | execute now transport p =>
    cases r with
    | alone t => exact sendAlone_told permits sound now p given
    | batched c =>
      unfold step
      dsimp only
      split
      · exact sendAlone_told permits sound now p given
      · exact schedule_told permits sound ids fun cause h => False.elim h
  | resume ticket call outcome => exact resume_told permits sound ticket call given
  | leave ticket =>
    have hsound : Sound r P { l with solos := l.solos.filter fun s => s.request.ticket ≠ ticket } :=
      ⟨fun solo hsolo => sound.solos solo (List.mem_filter.mp hsolo).1, sound.scheduler⟩
    exact schedule_told permits hsound ids fun cause h => False.elim h
  | scheduled e => exact schedule_told permits sound ids given

end

/-- What may be told is all that is told at a lane. -/
theorem run_told (permits : r.Permits P) (es : List Event)
    (given : ∀ e ∈ es, ∀ cause, e.Gives cause → P cause) :
    (run r {} es).1.Sound r P ∧ Told P (run r {} es).2 := by
  induction es using List.reverseRecOn with
  | nil =>
    refine ⟨⟨fun solo h => absurd h List.not_mem_nil, fun c _ d hd => ?_⟩, nothing_told P⟩
    exact absurd hd List.not_mem_nil
  | append_singleton es e ih =>
    obtain ⟨hsound, htold⟩ := ih fun e' he' => given e' (List.mem_append_left _ he')
    have hids : ∀ c, r = .batched c →
        ((run r {} es).1.scheduler.deliveries.map (·.id)).Nodup := by
      rintro c rfl
      obtain ⟨own, hown, _⟩ := (history_run c es).scheduler
      exact hown.orderly.ids
    obtain ⟨hsound', htold'⟩ := step_told permits hsound hids
      (given e (List.mem_append_right _ (List.mem_singleton_self e)))
    rw [run_snoc]
    exact ⟨hsound', Told.append htold htold'⟩

end

end Lane

/-! ## gateways -/

/-- the codec of a style has the merger that it was given, and it writes batches -/
theorem Codec.ofStyle_ok {style : Style} {merger : Option Merger} {k : Codec}
    (h : ofStyle style merger = .ok k) : k ≠ .plain ∧ ∀ m, k = .single m → merger = some m := by
  unfold ofStyle at h
  split at h
  · cases h
    exact ⟨(by intro hk; cases hk), (by intro m hk; cases hk)⟩
  · cases h
    exact ⟨(by intro hk; cases hk), (by intro m hk; cases hk)⟩
  · cases h
    refine ⟨(by intro hk; cases hk), fun m hk => ?_⟩
    cases hk
    rfl
  · cases h

/-- A route as it is built comes to no error of a check, unless its merger gives it. -/
theorem Route.Built.permits {config : Config} {mergers : Mergers} {t : TargetConfig} {r : Route}
    (h : Built config mergers t r) {foreign : Error → Prop}
    (merged : ∀ cause, mergers.Gives cause → foreign cause) :
    r.Permits fun cause => cause.OfGuard → foreign cause := by
  have given : ∀ cause, r.target.codec.Gives cause → foreign cause := by
    rintro cause ⟨m, hm, hgives⟩
    cases h with
    | alone none => cases hm
    | batched options some codec made =>
      exact merged cause ⟨t.name, m, (Codec.ofStyle_ok made).2 m hm, hgives⟩
  refine ⟨fun call response cause hdecode hguard => ?_,
    fun requests one round cause hencode hguard => ?_,
    fun deadline remaining hguard => ?_, fun target hguard => ?_⟩
  · exact given cause (Codec.decode_guarded hdecode hguard)
  · obtain hgives | ⟨hplain, hmany, _⟩ := Codec.encode_guarded hencode hguard
    · exact given cause hgives
    · cases h with
      | alone none => exact absurd (one _ rfl) hmany
      | batched options some codec made => exact absurd hplain (Codec.ofStyle_ok made).1
  · cases hguard with
    | layout hlayout => cases hlayout
  · cases hguard with
    | layout hlayout => cases hlayout

/-- **Requests are answered all, or none of them, and nothing fails the checks that see to it.**
Whatever codec a target has, whatever its merger does, and whatever comes back for its calls, at
once or later: if some requests are answered, there is a result for each.  They are answered if there
is time for their calls, and every call is answered with results, at once or by the first that comes
back for it; then the results are these, put back in order.  Results that were decoded for all calls
can always be put back in order.  So the errors which say that they cannot, and putting them back
comes to no others, are told only when foreign code gives them.

And whatever happens at a gateway that was built from a configuration: nobody is told such an error,
or that a target without batches got too many requests, or that a request was left without a result,
unless it came in with an event, or from a merger. -/
theorem Gateway.all_or_nothing (urlFault : String → Option String) (config : Config)
    (mergers : Mergers) {notices : List Notice} {g : Gateway}
    (built : build urlFault config mergers = (notices, .ok g)) :
    (∀ (t : Target) (now : Int) (transport : Transport) (items : List Item)
        (back : List (Nat × Outcome Json)),
      (∀ values, t.execute now transport items back = .ended (.done values) →
        values.length = items.length) ∧
      (∀ (first : Item) (rest : List Item) (s : Shipment) (parts : List (List Json)),
        items = first :: rest → t.prepare now transport.round first rest = .done s →
        parts.length = s.calls.length →
        (∀ (k : Nat) (call : EncodedCall) (part : List Json), s.calls[k]? = some call →
          parts[k]? = some part → ∃ response,
            (transport k (t.call s call)).or (back.lookup k) = some (.done response) ∧
              t.codec.decode call response = .done part) →
        ∃ values, Exchange.restore s.calls parts = .done values ∧
          t.execute now transport items back = .ended (.done values)) ∧
      ∀ cause, t.execute now transport items back = .ended (.failed cause) → cause.OfLayout →
        transport.Gives cause ∨ (∃ index, (index, .failed cause) ∈ back) ∨ t.codec.Gives cause) ∧
    (∀ (k : Codec) (requests : List Request) (round : Nat) (calls : List EncodedCall)
        (parts : List (List Json)), k.encode requests round = .done calls →
      List.Forall₂ (fun call part => ∃ response, k.decode call response = .done part) calls parts →
      ∃ values, Exchange.restore calls parts = .done values ∧ values.length = requests.length) ∧
    (∀ (l : Layout) (parts : List (List Json)) (cause : Error),
      l.restore parts = .error cause → cause.OfLayout) ∧
    ∀ es, ∀ x ∈ (g.run {} es).2, ∀ cause ∈ x.errors, cause.OfGuard →
      (∃ e ∈ es, e.event.Gives cause) ∨ mergers.Gives cause := by
  refine ⟨fun t now transport items back => ⟨fun values h => Target.execute_done h,
    fun first rest s parts hitems prepared size answered =>
      hitems ▸ Target.execute_all prepared size answered,
    fun cause h layout => Target.execute_failed h layout⟩,
    fun k requests round calls parts encode decoded =>
      Exchange.restore_whole encode (Exchange.decoded_lengths decoded),
    fun l parts cause h => Layout.restore_error h, fun es x hx cause hcause guard => ?_⟩
  obtain ⟨target, r, hfound, hx⟩ | ⟨ticket, target, rfl⟩ := mem_effects hx
  · obtain ⟨_, hroute⟩ := build_built built
    obtain ⟨t, _, hbuilt⟩ := hroute target r hfound
    have permits : r.Permits fun cause => cause.OfGuard →
        (∃ e ∈ es, e.event.Gives cause) ∨ mergers.Gives cause :=
      hbuilt.permits fun cause hgives => .inr hgives
    refine (Lane.run_told permits (ofTarget target es) fun e he cause hgives _ => ?_).2 x hx cause
      hcause guard
    obtain ⟨e', he', rfl⟩ := List.mem_map.mp he
    exact .inl ⟨e', (List.mem_filter.mp he').1, hgives⟩
  · rw [List.mem_singleton.mp hcause] at guard
    cases guard with
    | layout hlayout => cases hlayout

/-- a merger that writes one document for each request, in reverse, and a server without batches
that says that results cannot be put back in order -/
theorem Gateway.all_or_nothing_reverse :
    let document (i : Nat) : MergedDocument := { request := default, members := [i] }
    let m : Merger := ⟨fun _ _ => .done [document 1, document 0],
      fun _ _ _ response => .done [response]⟩
    let accounts : TargetConfig :=
      { name := "accounts", url := "http://accounts"
        batching := some { strategy := .byCaller, style := .single, wait := { queries := some 2 } } }
    let config : Config := { targets := [{ name := "users", url := "http://users" }, accounts] }
    let g : Gateway := ⟨[("users", .alone ⟨"users", "http://users", none, .plain, 5⟩),
      ("accounts", .batched ⟨.ofConfig accounts (.single m) 5, ⟨.byCaller, .single, 50, 2, 20⟩⟩)]⟩
    let p (ticket : Nat) : Pending :=
      ⟨ticket, { request := default, caller := ⟨[], none, ⟨1, [], default⟩⟩ }, 0⟩
    let counted : Transport := ⟨fun index _ => some (.done (.nat index)), 0⟩
    let cause : Error := .protocol "batch" 1 0 none
    let es : List Event := [⟨"users", .execute 0 .silent (p 2)⟩,
      ⟨"accounts", .execute 0 .silent (p 0)⟩, ⟨"accounts", .execute 0 .silent (p 1)⟩,
      ⟨"accounts", .scheduled (.take 0)⟩, ⟨"accounts", .scheduled (.serve 0 counted)⟩,
      ⟨"users", .resume 2 0 (.failed cause)⟩]
    build (fun _ => none) config { usual := some m } = ([], .ok g) ∧
      answers (g.run {} es).2 = [(0, .ok (.nat 1)), (1, .ok (.nat 0)), (2, .error cause)] ∧
      cause.OfGuard ∧ ((∃ e ∈ es, e.event.Gives cause) ∨ Mergers.Gives { usual := some m } cause) := by
  intro document m accounts config g p counted cause es
  have built : build (fun _ => none) config { usual := some m } = ([], .ok g) := by
    simp only [config, g, accounts]
    rfl
  have told : answers (g.run {} es).2
      = [(0, .ok (.nat 1)), (1, .ok (.nat 0)), (2, .error cause)] := rfl
  have guard : cause.OfGuard := .layout (.results 1 0 none)
  have last : Effect.answered 2 (.error cause) ∈ (g.run {} es).2 := by
    have hlast : (g.run {} es).2.getLast? = some (.answered 2 (.error cause)) := rfl
    exact List.mem_of_getLast? hlast
  obtain ⟨_, _, _, hall⟩ := all_or_nothing (fun _ => none) config { usual := some m } built
  exact ⟨built, told, guard, hall es _ last cause (List.mem_singleton_self cause) guard⟩

end Coalesce
