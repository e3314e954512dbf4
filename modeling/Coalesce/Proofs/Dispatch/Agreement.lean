import Coalesce.Proofs.Dispatch.Exchange

/-!
# Codecs that agree

* `Codec.Agree`            codecs write the same calls for some requests in some round, and read the
                           same results out of what comes back for them;
* `Codec.ReadAlike`        the second half, for calls that are already written;
* `Target.start_agree`, `Exchange.resume_agree`
                           then calls are started, and come back, alike.

A codec is read for nothing else, so a merger that goes wrong on some requests does no harm to
others.
-/

namespace Coalesce

namespace Codec

def ReadAlike (k k' : Codec) (calls : List EncodedCall) : Prop :=
  ∀ call ∈ calls, ∀ response, k.decode call response = k'.decode call response

structure Agree (k k' : Codec) (round : Nat) (requests : List Request) : Prop where
  encode : k.encode requests round = k'.encode requests round
  decode : ∀ calls, k.encode requests round = .done calls → ReadAlike k k' calls

theorem agree_refl (k : Codec) (round : Nat) (requests : List Request) : k.Agree k round requests :=
  ⟨rfl, fun _ _ _ _ _ => rfl⟩

/-- A request that travels alone is not merged. -/
theorem agree_single (m m' : Merger) (round : Nat) (r : Request) :
    (Codec.single m).Agree (.single m') round [r] := by
  refine ⟨rfl, fun calls hcalls call hcall response => ?_⟩
  have hdone : Outcome.done [covering r.toJson 1] = Outcome.done calls := hcalls
  cases hdone
  rw [List.mem_singleton.mp hcall]
  rfl

end Codec

namespace Exchange

variable {k k' : Codec}

theorem launch_agree (all : List EncodedCall)
    (reply : EncodedCall → Nat → Option (Outcome Json)) {rest : List EncodedCall}
    (h : k.ReadAlike k' rest) (slots : List Slot) :
    launch k all reply slots rest = launch k' all reply slots rest := by
  induction rest generalizing slots with
  | nil => rfl
  | cons call rest ih =>
    have htail : k.ReadAlike k' rest := fun c hc => h c (List.mem_cons_of_mem _ hc)
    have hread : ∀ outcome : Outcome Json,
        outcome.bind (k.decode call) = outcome.bind (k'.decode call) := by
      intro outcome
      rw [funext (h call List.mem_cons_self)]
    unfold launch
    simp only [ih htail, hread]

theorem resume_agree {e : Exchange} (h : k.ReadAlike k' e.calls) (index : Nat)
    (outcome : Outcome Json) : e.resume k index outcome = e.resume k' index outcome := by
  unfold resume
  split
  · rename_i call hcall hslot
    have hread : k.decode call = k'.decode call := funext (h call (List.mem_of_getElem? hcall))
    rw [hread]
  · rfl

end Exchange

namespace Target

theorem start_agree (t : Target) {k : Codec} (now : Int) (transport : Transport)
    {items : List Item} (h : t.codec.Agree k transport.round (items.map (·.request))) :
    t.start now transport items = { t with codec := k }.start now transport items := by
  cases items with
  | nil => rfl
  | cons first rest =>
    have hprepare : t.prepare now transport.round first rest
        = { t with codec := k }.prepare now transport.round first rest := by
      unfold prepare
      rw [h.encode]
    unfold start
    dsimp only
    rw [← hprepare]
    split
    · rfl
    · rfl
    · rename_i s hs
      have hread := h.decode s.calls (prepare_done hs).1.encode
      rw [Exchange.launch_agree s.calls _ hread]
      rfl

end Target

end Coalesce
