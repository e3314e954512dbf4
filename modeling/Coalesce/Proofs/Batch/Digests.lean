import Coalesce.Proofs.Batch.Agree
import Coalesce.Proofs.Batch.Strategy

/-!
# Digests only save comparisons

* `Grouping.byComparable`         equal comparable headers, with nothing but these as the key;
* `Grouping.byIdentity`           digests, where a state is not compared with itself;
* `BatchingState.sameHeaders_compute`
                                  states computed under one hash have the same headers just if they
                                  have the same comparable headers;
* `Strategy.partition_any_hash`   the batches by headers do not depend on the hash.

A hash may take any two header lists for one.  Then batches of several classes stand under one
digest, and the headers tell them apart.
-/

namespace Coalesce

/-- equal comparable headers, with no digests -/
def Grouping.byComparable (maxSize : Nat) : Grouping Item Headers OperationKind where
  key i := i.caller.state.headers
  series i := i.kind
  maxSize := Grouping.sizeBound maxSize

/-- As `byHeaders`, but items that are seen to hold one state are not compared. -/
def Grouping.byIdentity (one : Item → Item → Bool) (maxSize : Nat) :
    Grouping Item HeaderDigest OperationKind :=
  { Grouping.byHeaders maxSize with
    equality := some fun a b => one a b || a.caller.state.sameHeaders b.caller.state }

theorem BatchingState.sameHeaders_compute {hash : List UInt8 → List UInt8} {a b : BatchingState}
    (ha : ∃ token headers, a = .compute hash token headers)
    (hb : ∃ token headers, b = .compute hash token headers) :
    a.sameHeaders b = true ↔ a.headers = b.headers := by
  obtain ⟨n, headers, rfl⟩ := ha
  obtain ⟨m, headers', rfl⟩ := hb
  rw [Strategy.sameHeaders_iff]
  constructor
  · exact And.right
  · intro h
    exact ⟨congrArg (HeaderDigest.of hash) h, h⟩

/-- Comparing digests first, or not comparing a state with itself, finds the same items alike. -/
theorem Grouping.byIdentity_agrees {hash : List UInt8 → List UInt8} (maxSize : Nat)
    {items : List Item}
    (computed : ∀ i ∈ items, ∃ token headers, i.caller.state = .compute hash token headers)
    {one : Item → Item → Bool}
    (identity : ∀ a ∈ items, ∀ b ∈ items, one a b = true → a.caller.state = b.caller.state) :
    (byIdentity one maxSize).Agrees (byComparable maxSize) items where
  series _ _ := rfl
  maxSize := rfl
  clustering := rfl
  alike a ha b hb := by
    have hsame := BatchingState.sameHeaders_compute (computed a ha) (computed b hb)
    rw [Bool.eq_iff_iff, alike_iff, alike_iff]
    constructor
    · rintro ⟨_, hequal⟩
      have hone : (one a b || a.caller.state.sameHeaders b.caller.state) = true := hequal _ rfl
      refine ⟨?_, fun same hs => by cases hs⟩
      show a.caller.state.headers = b.caller.state.headers
      rcases Bool.or_eq_true_iff.mp hone with h | h
      · rw [identity a ha b hb h]
      · exact hsame.mp h
    · rintro ⟨hheaders, _⟩
      have h := hsame.mpr hheaders
      refine ⟨(Strategy.sameHeaders_iff.mp h).1, fun same hs => ?_⟩
      cases hs
      exact Bool.or_eq_true_iff.mpr (Or.inr h)

/-- **The batches by headers do not depend on the hash.**  Under any hash, the strategy has the
batches that the comparable headers alone make: the same members in the same order.  It makes no
difference whether a state is compared with itself. -/
theorem Strategy.partition_any_hash (hash : List UInt8 → List UInt8) (maxSize : Nat)
    (items : List Item)
    (computed : ∀ i ∈ items, ∃ token headers, i.caller.state = .compute hash token headers) :
    Strategy.byHeaders.partition maxSize items = (Grouping.byComparable maxSize).partition items ∧
    ∀ one : Item → Item → Bool,
      (∀ a ∈ items, ∀ b ∈ items, one a b = true → a.caller.state = b.caller.state) →
      (Grouping.byIdentity one maxSize).partition items
        = (Grouping.byComparable maxSize).partition items := by
  have hagree : ∀ one : Item → Item → Bool,
      (∀ a ∈ items, ∀ b ∈ items, one a b = true → a.caller.state = b.caller.state) →
      (Grouping.byIdentity one maxSize).partition items
        = (Grouping.byComparable maxSize).partition items := fun one identity =>
    (Grouping.byIdentity_agrees maxSize computed identity).partition
  refine ⟨?_, hagree⟩
  -- comparing always is the case where no two items are seen to be one
  have hnever := hagree (fun _ _ => false) fun _ _ _ _ h => by cases h
  exact hnever

/-- two classes of headers under one digest, and a batch of the first class that is full -/
theorem Strategy.partition_any_hash_constant :
    let hash (_ : List UInt8) : List UInt8 := []
    let item (token : Nat) (value : String) : Item :=
      { request := default
        caller := ⟨[], none, .compute hash token [("Authorization", [value])]⟩ }
    let items := [item 1 "a", item 2 "b", item 3 "a", item 4 "a", item 5 "b"]
    (∀ i ∈ items, ∃ token headers, i.caller.state = .compute hash token headers) ∧
      (Strategy.byHeaders.partition 2 items).map Batch.indices = [[0, 2], [1, 4], [3]] := by
  intro hash item items
  have computed : ∀ i ∈ items, ∃ token headers, i.caller.state = .compute hash token headers := by
    intro i hi
    simp only [items, List.mem_cons, List.not_mem_nil, or_false] at hi
    rcases hi with rfl | rfl | rfl | rfl | rfl
    all_goals exact ⟨_, _, rfl⟩
  refine ⟨computed, ?_⟩
  rw [(Strategy.partition_any_hash hash 2 items computed).1]
  decide

end Coalesce
