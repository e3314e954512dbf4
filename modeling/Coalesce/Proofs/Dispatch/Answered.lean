import Coalesce.Proofs.Dispatch.Execution

/-!
# Requests whose calls are all answered

* `Exchange.Promised`     the results of every call are there, or they are what comes back next for
                          it;
* `Exchange.Going`        an exchange waits for promised results, or it has ended with them;
* `Exchange.launch_going`, `Exchange.Going.take`
                          so it is from the start, and with everything that comes back;
* `Exchange.Going.ends`   it ends with what comes back last, at the latest;
* `Target.execute_all`    in the end the requests are answered, with these results in their order.

What comes back for a call that does not wait is of no account, and nor is what comes behind the
first outcome for a call.
-/

namespace Coalesce

namespace Exchange

def Promised (codec : Codec) (calls : List EncodedCall) (parts : List (List Json))
    (back : List (Nat × Outcome Json)) (slots : List Slot) : Prop :=
  ∀ (k : Nat) (call : EncodedCall) (part : List Json) (slot : Slot), calls[k]? = some call →
    parts[k]? = some part → slots[k]? = some slot →
    slot = .done part ∨ slot = .waiting ∧ ∃ response, back.lookup k = some (.done response) ∧
      codec.decode call response = .done part

def Going (codec : Codec) (calls : List EncodedCall) (parts : List (List Json))
    (back : List (Nat × Outcome Json)) : Progress → Prop
  | .running e => e.calls = calls ∧ e.slots.length = calls.length ∧
      Promised codec calls parts back e.slots ∧ ∃ k : Nat, e.slots[k]? = some .waiting
  | .ended result => result = restore calls parts

section
variable {codec : Codec} {calls : List EncodedCall} {parts : List (List Json)}
  {back : List (Nat × Outcome Json)} {slots : List Slot}

theorem Promised.snoc (h : Promised codec calls parts back slots) {call : EncodedCall}
    {part : List Json} {slot : Slot} (hcall : calls[slots.length]? = some call)
    (hpart : parts[slots.length]? = some part)
    (hslot : slot = .done part ∨ slot = .waiting ∧ ∃ response,
      back.lookup slots.length = some (.done response) ∧
        codec.decode call response = .done part) :
    Promised codec calls parts back (slots ++ [slot]) := by
  intro k call' part' slot' hk hk' hslot'
  rcases Nat.lt_trichotomy k slots.length with hlt | rfl | hgt
  · rw [List.getElem?_append_left hlt] at hslot'
    exact h k call' part' slot' hk hk' hslot'
  · rw [hcall] at hk
    rw [hpart] at hk'
    rw [List.getElem?_concat_length] at hslot'
    cases hk
    cases hk'
    cases hslot'
    exact hslot
  · rw [List.getElem?_eq_none (by rw [List.length_append, List.length_singleton]; omega)] at hslot'
    cases hslot'

/-- What came back is promised no longer to the other calls. -/
theorem lookup_behind {index k : Nat} (outcome : Outcome Json) (other : k ≠ index) :
    ((index, outcome) :: back).lookup k = back.lookup k := by
  rw [List.lookup_cons, beq_false_of_ne other]

theorem Promised.set {index : Nat} {outcome : Outcome Json} {part : List Json}
    (h : Promised codec calls parts ((index, outcome) :: back) slots)
    (within : index < slots.length) (hpart : parts[index]? = some part) :
    Promised codec calls parts back (slots.set index (.done part)) := by
  intro k call' part' slot hk hk' hslot
  by_cases hsame : index = k
  · subst hsame
    rw [hpart] at hk'
    rw [List.getElem?_set_self within] at hslot
    cases hk'
    exact .inl (Option.some.inj hslot).symm
  · rw [List.getElem?_set_ne hsame] at hslot
    rw [← lookup_behind outcome (Ne.symm hsame)]
    exact h k call' part' slot hk hk' hslot

/-- What comes back for a call that does not wait is of no account. -/
theorem Promised.skip {index : Nat} {outcome : Outcome Json}
    (h : Promised codec calls parts ((index, outcome) :: back) slots)
    (quiet : ∀ call, calls[index]? = some call → slots[index]? = some .waiting → False) :
    Promised codec calls parts back slots := by
  intro k call part slot hk hk' hslot
  obtain hdone | ⟨rfl, hcomes⟩ := h k call part slot hk hk' hslot
  · exact .inl hdone
  · have hother : k ≠ index := by
      rintro rfl
      exact quiet call hk hslot
    rw [lookup_behind outcome hother] at hcomes
    exact .inr ⟨rfl, hcomes⟩

variable (size : parts.length = calls.length)
include size

/-- what stands at the place of a slot -/
theorem Promised.at (h : Promised codec calls parts back slots)
    (within : slots.length ≤ calls.length) {k : Nat} {slot : Slot} (hk : slots[k]? = some slot) :
    ∃ call part, calls[k]? = some call ∧ parts[k]? = some part ∧
      (slot = .done part ∨ slot = .waiting ∧ ∃ response,
        back.lookup k = some (.done response) ∧ codec.decode call response = .done part) := by
  have hlt : k < calls.length := Nat.lt_of_lt_of_le (List.getElem?_eq_some_iff.mp hk).1 within
  have hcall : calls[k]? = some calls[k] := List.getElem?_eq_getElem hlt
  have hltpart : k < parts.length := size ▸ hlt
  have hpart : parts[k]? = some parts[k] := List.getElem?_eq_getElem hltpart
  exact ⟨_, _, hcall, hpart, h k _ _ _ hcall hpart hk⟩

theorem Promised.unfailed (h : Promised codec calls parts back slots)
    (within : slots.length ≤ calls.length) (inOrder : Bool) : failure? inOrder slots = none := by
  cases hfailed : failure? inOrder slots with
  | none => rfl
  | some cause =>
    obtain ⟨k, hk⟩ := List.mem_iff_getElem?.mp (failure?_mem hfailed)
    obtain ⟨_, _, _, _, hdone | ⟨hwaits, _⟩⟩ := h.at size within hk
    · cases hdone
    · cases hwaits

theorem Promised.all_done (h : Promised codec calls parts back slots)
    (length : slots.length = calls.length) (none : ¬ ∃ k : Nat, slots[k]? = some .waiting) :
    slots = parts.map Slot.done := by
  refine List.ext_getElem? fun k => ?_
  rw [List.getElem?_map]
  cases hk : slots[k]? with
  | none =>
    have hle := List.getElem?_eq_none_iff.mp hk
    rw [List.getElem?_eq_none (by omega)]
    rfl
  | some slot =>
    obtain ⟨_, part, _, hpart, rfl | ⟨rfl, _⟩⟩ := h.at size (Nat.le_of_eq length) hk
    · rw [hpart]
      rfl
    · exact absurd ⟨k, hk⟩ none

theorem Promised.progress (h : Promised codec calls parts back slots)
    (length : slots.length = calls.length) :
    Going codec calls parts back (Exchange.progress ⟨calls, slots⟩) := by
  unfold Exchange.progress
  rw [h.unfailed size (Nat.le_of_eq length)]
  by_cases hwaits : ∃ k : Nat, slots[k]? = some .waiting
  · have hnone : results? slots = none := by
      cases hresults : results? slots with
      | none => rfl
      | some results =>
        obtain ⟨k, hk⟩ := hwaits
        rw [results?_eq_some.mp hresults, List.getElem?_map] at hk
        obtain ⟨_, _, hdone⟩ := Option.map_eq_some_iff.mp hk
        cases hdone
    rw [hnone]
    exact ⟨rfl, length, h, hwaits⟩
  · rw [results?_eq_some.mpr (h.all_done size length hwaits)]
    exact rfl

/-- Whatever comes back next, an exchange that waits for promised results goes on to them. -/
theorem Going.take {p : Progress} {x : Nat × Outcome Json}
    (h : Going codec calls parts (x :: back) p) : Going codec calls parts back (p.take codec x) := by
  cases p with
  | ended result => exact h
  | running e =>
    obtain ⟨hcalls, hlength, hpromised, hwaits⟩ := h
    obtain ⟨index, outcome⟩ := x
    rw [Progress.take_running]
    unfold resume
    split
    · rename_i call hcall hslot
      rw [hcalls] at hcall
      obtain ⟨call', part, hcall', hpart, hdone | ⟨_, response, hcame, hdecode⟩⟩ :=
        hpromised.at size (Nat.le_of_eq hlength) hslot
      · cases hdone
      rw [hcall] at hcall'
      cases hcall'
      rw [List.lookup_cons_self] at hcame
      have hbind : outcome.bind (codec.decode call) = .done part := by
        rw [Option.some.inj hcame]
        exact hdecode
      dsimp only
      rw [hbind, hcalls]
      have hkept := hpromised.set (List.getElem?_eq_some_iff.mp hslot).1 hpart
      exact hkept.progress size ((List.length_set ..).trans hlength)
    · rename_i hother
      have hkept := hpromised.skip fun call hcall => hother call (hcalls ▸ hcall)
      exact ⟨hcalls, hlength, hkept, hwaits⟩

/-- Nothing is promised behind the last that comes back. -/
theorem Going.ends {p : Progress} (h : Going codec calls parts back p) :
    back.foldl (Progress.take codec) p = .ended (restore calls parts) := by
  induction back generalizing p with
  | nil =>
    cases p with
    | ended result => exact congrArg Progress.ended h
    | running e =>
      obtain ⟨_, hlength, hpromised, k, hk⟩ := h
      obtain ⟨_, _, _, _, hdone | ⟨_, _, hcame, _⟩⟩ := hpromised.at size (Nat.le_of_eq hlength) hk
      · cases hdone
      · cases hcame
  | cons x back ih => exact ih (h.take size)

/-- The results of calls that come back at once are there, and the others are promised. -/
theorem launch_going {reply : EncodedCall → Nat → Option (Outcome Json)}
    (answered : ∀ (k : Nat) (call : EncodedCall) (part : List Json), calls[k]? = some call →
      parts[k]? = some part → ∃ response, (reply call k).or (back.lookup k) = some (.done response) ∧
        codec.decode call response = .done part)
    (before rest : List EncodedCall) (slots : List Slot) (hall : calls = before ++ rest)
    (length : slots.length = before.length) (promised : Promised codec calls parts back slots) :
    Going codec calls parts back (launch codec calls reply slots rest).2 := by
  induction rest generalizing before slots with
  | nil =>
    rw [List.append_nil] at hall
    exact promised.progress size (hall ▸ length)
  | cons call rest ih =>
    have hcall : calls[slots.length]? = some call := by
      rw [hall, length, List.getElem?_append_right (Nat.le_refl _), Nat.sub_self]
      rfl
    have hlt : slots.length < parts.length := by
      rw [size]
      exact (List.getElem?_eq_some_iff.mp hcall).1
    have hpart : parts[slots.length]? = some parts[slots.length] := List.getElem?_eq_getElem hlt
    obtain ⟨response, hreply, hdecode⟩ := answered slots.length call _ hcall hpart
    have onward : ∀ slot : Slot, (slot = .done parts[slots.length] ∨ slot = .waiting ∧ ∃ response,
        back.lookup slots.length = some (.done response) ∧
          codec.decode call response = .done parts[slots.length]) →
        failure? (inOrder calls) (slots ++ [slot]) = none ∧
          Going codec calls parts back (launch codec calls reply (slots ++ [slot]) rest).2 := by
      intro slot hslot
      have hpromised := promised.snoc hcall hpart hslot
      have hlength : (slots ++ [slot]).length = (before ++ [call]).length := by
        rw [List.length_append, List.length_append, length]
        rfl
      have hwithin : (slots ++ [slot]).length ≤ calls.length := by
        rw [hlength, hall, List.length_append, List.length_append, List.length_cons]
        exact Nat.add_le_add_left (Nat.le_add_left _ _) _
      refine ⟨hpromised.unfailed size hwithin _, ih (before ++ [call]) _ ?_ hlength hpromised⟩
      rw [hall, List.append_assoc]
      rfl
    unfold launch
    dsimp only
    cases hcame : reply call slots.length with
    | none =>
      rw [hcame, Option.none_or] at hreply
      obtain ⟨hunfailed, hrest⟩ := onward .waiting (.inr ⟨rfl, response, hreply, hdecode⟩)
      dsimp only
      rw [hunfailed]
      exact hrest
    | some outcome =>
      rw [hcame, Option.some_or] at hreply
      obtain ⟨hunfailed, hrest⟩ := onward (.done parts[slots.length]) (.inl rfl)
      rw [Option.some.inj hreply]
      have hbind : (Outcome.done response).bind (codec.decode call)
          = .done parts[slots.length] := hdecode
      dsimp only
      rw [hbind]
      dsimp only
      rw [hunfailed]
      exact hrest

end

end Exchange

/-- **If every call is answered, the requests are.**  Each of the calls is answered with results, at
once or by the first that comes back for it; then the requests are answered with these results, put
back in their order. -/
theorem Target.execute_all {t : Target} {now : Int} {transport : Transport} {first : Item}
    {rest : List Item} {s : Shipment} (prepared : t.prepare now transport.round first rest = .done s)
    {parts : List (List Json)} (size : parts.length = s.calls.length)
    {back : List (Nat × Outcome Json)}
    (answered : ∀ (k : Nat) (call : EncodedCall) (part : List Json), s.calls[k]? = some call →
      parts[k]? = some part → ∃ response,
        (transport k (t.call s call)).or (back.lookup k) = some (.done response) ∧
          t.codec.decode call response = .done part) :
    ∃ values, Exchange.restore s.calls parts = .done values ∧
      t.execute now transport (first :: rest) back = .ended (.done values) := by
  have hstart : Exchange.Going t.codec s.calls parts back
      (t.start now transport (first :: rest)).2 := by
    unfold start
    dsimp only
    rw [prepared]
    refine Exchange.launch_going size answered [] s.calls [] rfl rfl ?_
    intro k call part slot _ _ hslot
    cases hslot
  have hdecoded : List.Forall₂
      (fun call part => ∃ response, t.codec.decode call response = .done part) s.calls parts := by
    refine List.forall₂_iff_get.mpr ⟨size.symm, fun k hk hk' => ?_⟩
    obtain ⟨response, _, hdecode⟩ := answered k _ _ (List.getElem?_eq_getElem hk)
      (List.getElem?_eq_getElem hk')
    exact ⟨response, hdecode⟩
  obtain ⟨values, hvalues, _⟩ := Exchange.restore_whole (prepare_done prepared).1.encode
    (Exchange.decoded_lengths hdecoded)
  refine ⟨values, hvalues, ?_⟩
  rw [← hvalues]
  exact hstart.ends size

/-- one document for each of two requests, in reverse: the first call is answered at once, and the
second one later, and then once more -/
example :
    let document (i : Nat) : MergedDocument := { request := default, members := [i] }
    let m : Merger := ⟨fun _ _ => .done [document 1, document 0],
      fun _ _ _ response => .done [response]⟩
    let t : Target := ⟨"accounts", "http://accounts", none, .single m, 5⟩
    let item : Item := { request := default, caller := ⟨[], none, ⟨1, [], default⟩⟩ }
    let first : Transport := ⟨fun index _ => if index = 0 then some (.done (.nat 0)) else none, 0⟩
    t.execute 0 first [item, item] [(1, .done (.nat 1)), (1, .crashed)]
      = .ended (.done [.nat 1, .nat 0]) := rfl

end Coalesce
