import Coalesce.Dispatch.Execution
import Coalesce.Proofs.Codec.Failures
import Coalesce.Proofs.Deadline
import Coalesce.Proofs.Dispatch.Exchange

/-!
# What comes of some requests

* `Exchange.restore_whole`   the results of all calls are put back in order, one for each request;
* `Exchange.Sound`           an exchange with as many results from each call as it answers for, and
                             with failures that may be told;
* `Progress.Fine`            an exchange that is sound, or ended: with a result for each request, or
                             with a failure that may be told;
* `Target.start_fine`, `Exchange.resume_fine`
                             starting and resuming is fine;
* `Target.execute_fine`      and so is all that becomes of some requests;

What may be told is a predicate on errors here: whatever foreign code says, whatever a codec refuses,
and that there is no time left.
-/

namespace Coalesce

/-- an error that may come back for a call when it is started -/
def Transport.Gives (transport : Transport) (cause : Error) : Prop :=
  ∃ index call, transport index call = some (.failed cause)

namespace Exchange

/-- Results that were decoded for all calls are put back in order, one for each request. -/
theorem restore_whole {codec : Codec} {requests : List Request} {round : Nat}
    {calls : List EncodedCall} (encode : codec.encode requests round = .done calls)
    {parts : List (List Json)} (fit : parts.map List.length = calls.map fun c => c.members.length) :
    ∃ values, restore calls parts = .done values ∧ values.length = requests.length := by
  have hmembers := Codec.encode_members encode
  let l : Layout := ⟨calls.map (·.members)⟩
  have hsize : l.size = requests.length := by
    unfold Layout.size
    rw [← List.flatMap_def, hmembers.length_eq, List.length_range]
  have hperm : l.groups.flatten.Perm (List.range l.size) := by
    rw [hsize, ← List.flatMap_def]
    exact hmembers
  obtain ⟨values, hvalues⟩ := Layout.restore_of_perm hperm (by
    rw [fit, List.map_map]
    rfl)
  refine ⟨values, Outcome.ofExcept_eq_done.mpr hvalues, ?_⟩
  rw [← hsize]
  exact (Layout.restore_ok hvalues).2.2.1

theorem decoded_lengths {codec : Codec} {calls : List EncodedCall} {parts : List (List Json)}
    (decoded : List.Forall₂ (fun call part => ∃ response, codec.decode call response = .done part)
      calls parts) : parts.map List.length = calls.map fun c => c.members.length := by
  induction decoded with
  | nil => rfl
  | cons hfirst _ ih =>
    obtain ⟨response, hresponse⟩ := hfirst
    exact congrArg₂ List.cons (Codec.decode_done.mp hresponse).2 ih

/-! ## sound exchanges -/

/-- what may stand in the slot of a call -/
def Fits (P : Error → Prop) (call : EncodedCall) : Slot → Prop
  | .waiting => True
  | .done results => results.length = call.members.length
  | .failed cause => P cause

structure Sound (codec : Codec) (requests : List Request) (P : Error → Prop) (e : Exchange) :
    Prop where
  encode : ∃ round, codec.encode requests round = .done e.calls
  fits : List.Forall₂ (Fits P) e.calls e.slots

end Exchange

/-- How far an exchange may be. -/
inductive Progress.Fine (codec : Codec) (requests : List Request) (P : Error → Prop) :
    Progress → Prop where
  | running (e : Exchange) (sound : e.Sound codec requests P) : Fine codec requests P (.running e)
  | done (values : List Json) (each : values.length = requests.length) :
      Fine codec requests P (.ended (.done values))
  | failed (cause : Error) (told : P cause) : Fine codec requests P (.ended (.failed cause))
  | crashed : Fine codec requests P (.ended .crashed)

namespace Exchange

variable {codec : Codec} {requests : List Request} {P : Error → Prop}

theorem failure?_mem {inOrder : Bool} {slots : List Slot} {cause : Error}
    (h : failure? inOrder slots = some cause) : .failed cause ∈ slots := by
  induction slots with
  | nil => cases h
  | cons s rest ih =>
    cases s with
    | failed cause' =>
      cases h
      exact List.mem_cons_self
    | done results => exact List.mem_cons_of_mem _ (ih h)
    | waiting =>
      unfold failure? at h
      split at h
      · cases h
      · exact List.mem_cons_of_mem _ (ih h)

theorem told_of_failure {calls : List EncodedCall} {slots : List Slot} {inOrder : Bool}
    {cause : Error} (fits : List.Forall₂ (Fits P) calls slots)
    (h : failure? inOrder slots = some cause) : P cause := by
  obtain ⟨i, hi⟩ := List.mem_iff_getElem?.mp (failure?_mem h)
  obtain ⟨hlt, hslot⟩ := List.getElem?_eq_some_iff.mp hi
  have hfit := fits.get (by rw [fits.length_eq]; exact hlt) hlt
  rw [List.get_eq_getElem, List.get_eq_getElem, hslot] at hfit
  exact hfit

theorem lengths_of_fits {calls : List EncodedCall} {parts : List (List Json)}
    (fits : List.Forall₂ (Fits P) calls (parts.map Slot.done)) :
    parts.map List.length = calls.map fun c => c.members.length := by
  rw [List.forall₂_map_right_iff] at fits
  induction fits with
  | nil => rfl
  | cons hfirst _ ih => exact congrArg₂ List.cons hfirst ih

/-- A sound exchange is far enough to be fine: what is decoded can always be put back. -/
theorem Sound.progress {e : Exchange} (h : e.Sound codec requests P) :
    e.progress.Fine codec requests P := by
  unfold Exchange.progress
  split
  · rename_i cause hcause
    exact .failed cause (told_of_failure h.fits hcause)
  · split
    · rename_i parts hparts
      have hfits := h.fits
      rw [results?_eq_some.mp hparts] at hfits
      obtain ⟨round, hencode⟩ := h.encode
      obtain ⟨values, hvalues, hlength⟩ := restore_whole hencode (lengths_of_fits hfits)
      rw [hvalues]
      exact .done values hlength
    · exact .running e h

/-! ## starting and resuming -/

theorem forall₂_set {α β : Type} {R : α → β → Prop} {l : List α} {m : List β}
    (h : List.Forall₂ R l m) {i : Nat} {a : α} (found : l[i]? = some a) {b : β} (fit : R a b) :
    List.Forall₂ R l (m.set i b) := by
  induction h generalizing i with
  | nil => exact .nil
  | cons hfirst hrest ih =>
    cases i with
    | zero =>
      cases found
      exact .cons fit hrest
    | succ i => exact .cons hfirst (ih found)

theorem Sound.set {e : Exchange} (h : e.Sound codec requests P) {index : Nat} {call : EncodedCall}
    (found : e.calls[index]? = some call) {slot : Slot} (fit : Fits P call slot) :
    Sound codec requests P ⟨e.calls, e.slots.set index slot⟩ :=
  ⟨h.encode, forall₂_set h.fits found fit⟩

section
variable (reads : ∀ call response cause, codec.decode call response = .failed cause → P cause)
include reads

/-- what an outcome puts into the slot of its call -/
theorem fits_of_bind (call : EncodedCall) {outcome : Outcome Json}
    (given : ∀ cause, outcome = .failed cause → P cause) :
    (∀ cause, outcome.bind (codec.decode call) = .failed cause → Fits P call (.failed cause)) ∧
      ∀ results, outcome.bind (codec.decode call) = .done results →
        Fits P call (.done results) := by
  refine ⟨fun cause h => ?_, fun results h => ?_⟩
  · obtain hcause | ⟨response, _, hdecode⟩ := Outcome.bind_eq_failed.mp h
    · exact given cause hcause
    · exact reads call response cause hdecode
  · obtain ⟨response, _, hdecode⟩ := Outcome.bind_eq_done.mp h
    exact (Codec.decode_done.mp hdecode).2

theorem launch_fine {all : List EncodedCall} {round : Nat}
    (encode : codec.encode requests round = .done all)
    {reply : EncodedCall → Nat → Option (Outcome Json)}
    (given : ∀ call k cause, reply call k = some (.failed cause) → P cause)
    (before rest : List EncodedCall) (slots : List Slot) (hall : all = before ++ rest)
    (fits : List.Forall₂ (Fits P) before slots) :
    (launch codec all reply slots rest).2.Fine codec requests P := by
  induction rest generalizing before slots with
  | nil =>
    rw [List.append_nil] at hall
    have hsound : Sound codec requests P ⟨all, slots⟩ := ⟨⟨round, encode⟩, hall ▸ fits⟩
    exact hsound.progress
  | cons call rest ih =>
    have onward : ∀ slot : Slot, Fits P call slot →
        List.Forall₂ (Fits P) (before ++ [call]) (slots ++ [slot]) ∧
          (launch codec all reply (slots ++ [slot]) rest).2.Fine codec requests P := by
      intro slot hslot
      have hfits := List.rel_append fits (.cons hslot .nil)
      refine ⟨hfits, ih (before ++ [call]) (slots ++ [slot]) ?_ hfits⟩
      rw [hall, List.append_assoc]
      rfl
    unfold launch
    dsimp only
    split
    · obtain ⟨hfits, hrest⟩ := onward .waiting trivial
      split
      · rename_i cause hcause
        exact .failed cause (told_of_failure hfits hcause)
      · exact hrest
    · rename_i outcome houtcome
      obtain ⟨hfailed, hdone⟩ := fits_of_bind reads call fun cause h =>
        given call slots.length cause (h ▸ houtcome)
      split
      · exact .crashed
      · rename_i cause hcause
        obtain ⟨hfits, hrest⟩ := onward _ (hfailed cause hcause)
        split
        · rename_i cause' hcause'
          exact .failed cause' (told_of_failure hfits hcause')
        · exact hrest
      · rename_i results hresults
        obtain ⟨hfits, hrest⟩ := onward _ (hdone results hresults)
        split
        · rename_i cause' hcause'
          exact .failed cause' (told_of_failure hfits hcause')
        · exact hrest

theorem resume_fine {e : Exchange} (h : e.Sound codec requests P) (index : Nat)
    {outcome : Outcome Json} (given : ∀ cause, outcome = .failed cause → P cause) :
    (e.resume codec index outcome).Fine codec requests P := by
  unfold resume
  split
  · rename_i call hcall hslot
    obtain ⟨hfailed, hdone⟩ := fits_of_bind reads call given
    split
    · exact .crashed
    · rename_i cause hcause
      exact (h.set hcall (hfailed cause hcause)).progress
    · rename_i results hresults
      exact (h.set hcall (hdone results hresults)).progress
  · exact .running e h

end

end Exchange

theorem Progress.Fine.take {codec : Codec} {requests : List Request} {P : Error → Prop}
    {p : Progress} (h : p.Fine codec requests P)
    (reads : ∀ call response cause, codec.decode call response = .failed cause → P cause)
    {back : Nat × Outcome Json} (given : ∀ cause, back.2 = .failed cause → P cause) :
    (p.take codec back).Fine codec requests P := by
  cases h with
  | running e sound => exact Exchange.resume_fine reads sound back.1 given
  | done values each => exact .done values each
  | failed cause told => exact .failed cause told
  | crashed => exact .crashed

namespace Target

section
variable {t : Target} {P : Error → Prop} {items : List Item}
  (reads : ∀ call response cause, t.codec.decode call response = .failed cause → P cause)
  (late : ∀ deadline remaining, P (.timeout deadline remaining))
  (writes : ∀ round cause,
    t.codec.encode (items.map (·.request)) round = .failed cause → P cause)
include reads late writes

theorem start_fine (now : Int) {transport : Transport}
    (given : ∀ cause, transport.Gives cause → P cause) :
    (t.start now transport items).2.Fine t.codec (items.map (·.request)) P := by
  cases items with
  | nil => exact .done [] rfl
  | cons first rest =>
    unfold start
    dsimp only
    split
    · exact .crashed
    · rename_i cause hfailed
      refine .failed cause ?_
      obtain hlate | ⟨_, _, hrest⟩ := Outcome.bind_eq_failed.mp hfailed
      · obtain ⟨d, _, _, rfl⟩ := callTimeout_error.mp (Outcome.ofExcept_eq_failed.mp hlate)
        exact late _ _
      · obtain hencode | ⟨_, _, hret⟩ := Outcome.bind_eq_failed.mp hrest
        · exact writes _ cause hencode
        · cases hret
    · rename_i s hs
      exact Exchange.launch_fine reads (prepare_done hs).1.encode
        (fun call k cause h => given cause ⟨k, t.call s call, h⟩) [] s.calls [] rfl .nil

theorem execute_fine (now : Int) {transport : Transport}
    (given : ∀ cause, transport.Gives cause → P cause) (back : List (Nat × Outcome Json))
    (came : ∀ index cause, (index, .failed cause) ∈ back → P cause) :
    (t.execute now transport items back).Fine t.codec (items.map (·.request)) P := by
  induction back using List.reverseRecOn with
  | nil => exact start_fine reads late writes now given
  | append_singleton back x ih =>
    rw [execute_snoc]
    refine (ih fun index cause h => came index cause (List.mem_append_left _ h)).take reads
      fun cause h => came x.1 cause ?_
    rw [← h]
    exact List.mem_append_right _ (List.mem_singleton_self x)

end

/-- **Requests are answered all, or none of them.** -/
theorem execute_done {t : Target} {now : Int} {transport : Transport} {items : List Item}
    {back : List (Nat × Outcome Json)} {values : List Json}
    (h : t.execute now transport items back = .ended (.done values)) :
    values.length = items.length := by
  have hfine : (t.execute now transport items back).Fine t.codec (items.map (·.request))
      fun _ => True :=
    execute_fine (fun _ _ _ _ => trivial) (fun _ _ => trivial) (fun _ _ _ => trivial) now
      (fun _ _ => trivial) back fun _ _ _ => trivial
  rw [h] at hfine
  cases hfine with
  | done values each => rwa [List.length_map] at each

end Target

end Coalesce
