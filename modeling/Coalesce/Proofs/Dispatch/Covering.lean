import Coalesce.Proofs.Dispatch.Exchange

/-!
# Codecs that write one call

* `Codec.Covers`             all requests travel in one call;
* `Exchange.launch_one`      the only call is started, whatever becomes of it;
* `Target.start_covering`    as long as there is time, it is the call for all requests;
* `Target.start_unseen`      what is started does not depend on what comes back.
-/

namespace Coalesce

/-- All requests travel in one call. -/
def Codec.Covers (k : Codec) : Prop :=
  ∀ requests, ∃ body, ∀ round, k.encode requests round = .done [Codec.covering body requests.length]

theorem Codec.covers_of_list {k : Codec} (h : k = .legacy ∨ k = .array) : k.Covers := by
  intro requests
  rcases h with rfl | rfl
  · exact ⟨_, fun _ => rfl⟩
  · exact ⟨_, fun _ => rfl⟩

theorem Exchange.launch_one (codec : Codec) (all : List EncodedCall)
    (reply : EncodedCall → Nat → Option (Outcome Json)) (slots : List Slot) (call : EncodedCall) :
    (launch codec all reply slots [call]).1 = [call] := by
  unfold launch
  dsimp only [launch]
  split
  · split <;> rfl
  · split
    · rfl
    · split <;> rfl
    · split <;> rfl

namespace Target

variable {t : Target} (covers : t.codec.Covers) {now : Int} {items : List Item}
include covers

/-- There is one call for all requests, and it is started, whatever becomes of it. -/
theorem start_covering (some : items ≠ []) {limit : Option Duration}
    (time : callTimeout t.timeout (earliestDeadline items) now t.padding = .ok limit) :
    ∃ call : Call, call.members = List.range items.length ∧
      ∀ transport, (t.start now transport items).1 = [call] := by
  cases items with
  | nil => exact absurd rfl some
  | cons first rest =>
    obtain ⟨body, hbody⟩ := covers ((first :: rest).map (·.request))
    let encoded := Codec.covering body ((first :: rest).map (·.request)).length
    let s : Shipment := ⟨first.caller.headers, limit, [encoded]⟩
    refine ⟨t.call s encoded, congrArg List.range (List.length_map _), fun transport => ?_⟩
    have hprepare : t.prepare now transport.round first rest = .done s :=
      prepare_of time (hbody transport.round)
    unfold start
    dsimp only
    rw [hprepare]
    dsimp only
    rw [Exchange.launch_one]
    rfl

/-- What is started does not depend on what comes back. -/
theorem start_unseen (transport transport' : Transport) :
    (t.start now transport items).1 = (t.start now transport' items).1 := by
  by_cases hnone : items = []
  · rw [hnone]
    rfl
  · cases htime : callTimeout t.timeout (earliestDeadline items) now t.padding with
    | error cause => rw [start_late htime hnone, start_late htime hnone]
    | ok limit =>
      obtain ⟨call, _, hcall⟩ := start_covering covers hnone htime
      rw [hcall, hcall]

end Target

end Coalesce
