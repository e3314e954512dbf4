import Coalesce.Proofs.Dispatch.Covering

/-!
# Which calls are started

* `Exchange.failure?_snoc`   the next call ends an exchange only by failing itself;
* `Exchange.Starts`          the calls that are started are the first ones, up to one that fails at
                             once;
* `Target.Shares`            how the calls that are started for some requests share them out;
* `Target.start_shares`      each request travels in one call, once, unless that one is left out;
* `Target.start_alone`       a request on its own travels in one call, whatever the codec.
-/

namespace Coalesce

namespace Exchange

/-- The next call ends an exchange only by failing itself. -/
theorem failure?_snoc {inOrder : Bool} {slots : List Slot} {slot : Slot} {cause : Error}
    (before : failure? inOrder slots = none) (h : failure? inOrder (slots ++ [slot]) = some cause) :
    ∃ cause', slot = .failed cause' := by
  induction slots with
  | nil =>
    cases slot with
    | failed cause' => exact ⟨cause', rfl⟩
    | done results => cases h
    | waiting => cases inOrder <;> cases h
  | cons s rest ih =>
    cases s with
    | failed cause' => cases before
    | done results => exact ih before h
    | waiting =>
      cases inOrder with
      | true => cases h
      | false => exact ih before h

/-- What comes back for a call as soon as it is started has no results. -/
def FailsAtOnce (codec : Codec) (reply : EncodedCall → Nat → Option (Outcome Json)) (k : Nat)
    (call : EncodedCall) : Prop :=
  ∃ outcome, reply call k = some outcome ∧
    ∀ results, outcome.bind (codec.decode call) ≠ .done results

/-- The calls that are started of some calls, of which the first one has the position `k`. -/
inductive Starts (codec : Codec) (reply : EncodedCall → Nat → Option (Outcome Json)) (k : Nat)
    (rest : List EncodedCall) : List EncodedCall → Prop where
  | all : Starts codec reply k rest rest
  | upTo (front : List EncodedCall) (call : EncodedCall) (unsent : List EncodedCall)
      (split : rest = front ++ call :: unsent)
      (fails : FailsAtOnce codec reply (k + front.length) call) :
      Starts codec reply k rest (front ++ [call])

theorem Starts.cons {codec : Codec} {reply : EncodedCall → Nat → Option (Outcome Json)} {k : Nat}
    {rest started : List EncodedCall} (h : Starts codec reply (k + 1) rest started)
    (call : EncodedCall) : Starts codec reply k (call :: rest) (call :: started) := by
  cases h with
  | all => exact .all
  | upTo front last unsent split fails =>
    refine .upTo (call :: front) last unsent (by rw [split]; rfl) ?_
    rwa [List.length_cons, Nat.add_comm front.length, ← Nat.add_assoc]

theorem launch_starts (codec : Codec) (all : List EncodedCall)
    (reply : EncodedCall → Nat → Option (Outcome Json)) {slots : List Slot}
    (before : failure? (inOrder all) slots = none) (rest : List EncodedCall) :
    Starts codec reply slots.length rest (launch codec all reply slots rest).1 := by
  induction rest generalizing slots with
  | nil => exact .all
  | cons call rest ih =>
    -- as long as nothing fails, the others follow
    have onward : ∀ slot : Slot, failure? (inOrder all) (slots ++ [slot]) = none →
        Starts codec reply slots.length (call :: rest)
          (call :: (launch codec all reply (slots ++ [slot]) rest).1) := by
      intro slot hnone
      have hrest := ih hnone
      rw [List.length_append] at hrest
      exact hrest.cons call
    have last : FailsAtOnce codec reply slots.length call →
        Starts codec reply slots.length (call :: rest) [call] := fun hfails =>
      .upTo [] call rest rfl hfails
    unfold launch
    dsimp only
    split
    · split
      · rename_i cause hcause
        obtain ⟨_, hslot⟩ := failure?_snoc before hcause
        cases hslot
      · rename_i hnone
        exact onward _ hnone
    · rename_i outcome houtcome
      split
      · rename_i hcrashed
        exact last ⟨outcome, houtcome, fun results h => by rw [hcrashed] at h; cases h⟩
      · rename_i cause hcause
        split
        · exact last ⟨outcome, houtcome, fun results h => by rw [hcause] at h; cases h⟩
        · rename_i hnone
          exact onward _ hnone
      · split
        · rename_i cause hcause
          obtain ⟨_, hslot⟩ := failure?_snoc before hcause
          cases hslot
        · rename_i hnone
          exact onward _ hnone

end Exchange

/-- A request on its own is never merged with others. -/
theorem Codec.encode_single (k : Codec) (r : Request) :
    ∃ call, (∀ round, k.encode [r] round = .done [call]) ∧ call.members = [0] := by
  cases k <;> exact ⟨_, fun _ => rfl, rfl⟩

namespace Target

/-- How the calls that are started for some requests share them out. -/
inductive Shares (t : Target) (now : Int) (transport : Transport) (items : List Item) :
    List Call → Prop where
  /-- there is no time left for any -/
  | late (cause : Error)
      (late : callTimeout t.timeout (earliestDeadline items) now t.padding = .error cause) :
      Shares t now transport items []
  /-- none can be written -/
  | refused
      (refused : ∀ calls, t.codec.encode (items.map (·.request)) transport.round ≠ .done calls) :
      Shares t now transport items []
  /-- every position is a member of one call, once -/
  | whole (s : Shipment) (ships : t.Ships transport.round items s)
      (each : (s.calls.flatMap (·.members)).Perm (List.range items.length)) :
      Shares t now transport items (s.calls.map (t.call s))
  /-- as before, but the calls behind one that failed at once are left out -/
  | cut (s : Shipment) (ships : t.Ships transport.round items s)
      (each : (s.calls.flatMap (·.members)).Perm (List.range items.length))
      (front : List EncodedCall) (last : EncodedCall) (unsent : List EncodedCall)
      (split : s.calls = front ++ last :: unsent) (outcome : Outcome Json)
      (came : transport front.length (t.call s last) = some outcome)
      (fails : ∀ results, outcome.bind (t.codec.decode last) ≠ .done results) :
      Shares t now transport items ((front ++ [last]).map (t.call s))

variable (t : Target) (now : Int) (transport : Transport)

theorem start_shares {items : List Item} (some : items ≠ []) :
    t.Shares now transport items (t.start now transport items).1 := by
  cases items with
  | nil => exact absurd rfl some
  | cons first rest =>
    have nothing : (∀ s, t.prepare now transport.round first rest ≠ .done s) →
        (t.start now transport (first :: rest)).1 = [] := by
      intro hnot
      unfold start
      dsimp only
      split
      · rfl
      · rfl
      · rename_i s hs
        exact absurd hs (hnot s)
    cases htime : callTimeout t.timeout (earliestDeadline (first :: rest)) now t.padding with
    | error cause =>
      rw [start_late htime some]
      exact .late cause htime
    | ok limit =>
      by_cases hwritten :
        ∃ calls, t.codec.encode ((first :: rest).map (·.request)) transport.round = .done calls
      · obtain ⟨calls, hencode⟩ := hwritten
        let s : Shipment := ⟨first.caller.headers, limit, calls⟩
        have hprepare : t.prepare now transport.round first rest = .done s :=
          prepare_of htime hencode
        have hships := (prepare_done hprepare).1
        have heach := Codec.encode_members hencode
        rw [List.length_map] at heach
        let reply (c : EncodedCall) (index : Nat) := transport index (t.call s c)
        have hstart : (t.start now transport (first :: rest)).1
            = (Exchange.launch t.codec calls reply [] calls).1.map (t.call s) := by
          unfold start
          dsimp only
          rw [hprepare]
        have hnone : Exchange.failure? (Exchange.inOrder calls) [] = none := rfl
        have hstarts := Exchange.launch_starts t.codec calls reply hnone calls
        rw [hstart]
        generalize (Exchange.launch t.codec calls reply [] calls).1 = started at hstarts ⊢
        cases hstarts with
        | all => exact .whole s hships heach
        | upTo front last unsent split fails =>
          obtain ⟨outcome, hreply, hfails⟩ := fails
          rw [List.length_nil, Nat.zero_add] at hreply
          exact .cut s hships heach front last unsent split outcome hreply hfails
      · have hrefused := not_exists.mp hwritten
        rw [nothing fun s hs => hrefused _ (prepare_done hs).1.encode]
        exact .refused hrefused

/-- The one call for a request on its own, if there is time for it. -/
def SendsAlone (item : Item) (started : List Call) : Prop :=
  ∃ call, (∀ round, t.codec.encode [item.request] round = .done [call]) ∧ call.members = [0] ∧
    started = match callTimeout t.timeout item.deadline now t.padding with
      | .ok limit => [⟨t.name, call.body, item.caller.headers, limit, [0]⟩]
      | .error _ => []

theorem SendsAlone.members {t : Target} {now : Int} {item : Item} {started : List Call}
    (h : t.SendsAlone now item started) {call : Call} (hcall : call ∈ started) :
    call.members = [0] := by
  obtain ⟨_, _, _, rfl⟩ := h
  split at hcall
  · rw [List.mem_singleton.mp hcall]
  · exact absurd hcall List.not_mem_nil

theorem start_alone (item : Item) : t.SendsAlone now item (t.start now transport [item]).1 := by
  obtain ⟨call, hencode, hmembers⟩ := t.codec.encode_single item.request
  have hearliest : earliestDeadline [item] = item.deadline := by
    cases hdeadline : item.deadline <;>
      simp [earliestDeadline, Deadline.aggregate, Deadline.earliest, hdeadline]
  refine ⟨call, hencode, hmembers, ?_⟩
  rw [← hearliest]
  cases htime : callTimeout t.timeout (earliestDeadline [item]) now t.padding with
  | error cause => rw [start_late htime (List.cons_ne_nil _ _)]
  | ok limit =>
    have hprepare : t.prepare now transport.round item []
        = .done ⟨item.caller.headers, limit, [call]⟩ := prepare_of htime (hencode transport.round)
    unfold start
    dsimp only
    rw [hprepare]
    dsimp only
    rw [Exchange.launch_one, ← hmembers]
    rfl

end Target

end Coalesce
