import Coalesce.Proofs.Codec.Members

/-!
# What codecs refuse

* `Merger.Gives`, `Codec.Gives`   the errors that a merger may come to;
* `Codec.encode_failed`           requests are refused when they are many for a codec without
                                  batches, or when the documents for them do not share them out;
* `Codec.decode_failed`           a response is refused for its results.

Everything else comes from the merger itself.
-/

namespace Coalesce

/-- an error that a merger may come to -/
def Merger.Gives (m : Merger) (cause : Error) : Prop :=
  (∃ round requests, m.merge round requests = .failed cause) ∨
    ∃ round place document response, m.split round place document response = .failed cause

/-- Documents are refused for a member that some of them repeats, or for one that all of them
miss. -/
theorem Merger.check_error {total : Nat} {documents : List MergedDocument} {cause : Error}
    (h : check total documents = .error cause) :
    (∃ i, cause = .runtime (.mergeRepeats i)) ∨
      ∃ covered, cause = .runtime (.mergeMisses covered total) := by
  cases check_eq_error.mp h with
  | repeats i first => exact .inl ⟨i, rfl⟩
  | misses fill fewer => exact .inr ⟨_, rfl⟩

namespace Codec

/-- an error that comes from the merger of a codec -/
def Gives (k : Codec) (cause : Error) : Prop := ∃ m, k = .single m ∧ m.Gives cause

/-! ## requests -/

/-- Why requests are refused. -/
inductive Refuses (requests : List Request) : Codec → Error → Prop where
  | plain (many : requests.length ≠ 1) :
      Refuses requests .plain (.runtime (.tooManyRequests requests.length))
  | repeats (m : Merger) (member : Nat) :
      Refuses requests (.single m) (.runtime (.mergeRepeats member))
  | misses (m : Merger) (covered : Nat) :
      Refuses requests (.single m) (.runtime (.mergeMisses covered requests.length))

theorem encode_failed {k : Codec} {requests : List Request} {round : Nat} {cause : Error}
    (h : k.encode requests round = .failed cause) : k.Gives cause ∨ Refuses requests k cause := by
  cases k with
  | legacy => cases h
  | array => cases h
  | plain =>
    rcases requests with _ | ⟨r, _ | ⟨r', rest⟩⟩
    · cases h
      exact .inr (.plain (by simp))
    · cases h
    · cases h
      exact .inr (.plain (by simp))
  | single m =>
    have merged : (m.mergeChecked round requests >>= fun documents =>
        Outcome.done (merging round documents)) = .failed cause →
        (Codec.single m).Gives cause ∨ Refuses requests (.single m) cause := by
      intro hm
      obtain hchecked | ⟨_, _, hret⟩ := Outcome.bind_eq_failed.mp hm
      · obtain hmerge | ⟨documents, _, hcheck⟩ := Outcome.bind_eq_failed.mp hchecked
        · exact .inl ⟨m, rfl, .inl ⟨round, requests, hmerge⟩⟩
        · obtain hbad | ⟨_, _, hret⟩ := Outcome.bind_eq_failed.mp hcheck
          · obtain ⟨i, rfl⟩ | ⟨covered, rfl⟩ :=
              Merger.check_error (Outcome.ofExcept_eq_failed.mp hbad)
            · exact .inr (.repeats m i)
            · exact .inr (.misses m covered)
          · cases hret
      · cases hret
    rcases requests with _ | ⟨r, _ | ⟨r', rest⟩⟩
    · exact merged h
    · cases h
    · exact merged h

/-! ## responses -/

theorem entryResults_error {expected index : Nat} {entries : List Json} {cause : Error}
    (h : entryResults expected index entries = .error cause) :
    ∃ fault, cause = .malformed "legacy" expected fault := by
  induction entries generalizing index with
  | nil => cases h
  | cons entry rest ih =>
    unfold entryResults at h
    split at h
    · split at h
      · cases hrest : entryResults expected (index + 1) rest with
        | error cause' =>
          rw [hrest] at h
          cases h
          exact ih hrest
        | ok more =>
          rw [hrest] at h
          cases h
      · cases h
        exact ⟨_, rfl⟩
    · cases h
      exact ⟨_, rfl⟩

theorem results_failed {k : Codec} {call : EncodedCall} {response : Json} {cause : Error}
    (h : k.results call response = .failed cause) :
    k.Gives cause ∨ ∃ fault, cause = .malformed k.name call.members.length fault := by
  cases k with
  | plain => cases h
  | legacy =>
    have hcause := Outcome.ofExcept_eq_failed.mp h
    unfold legacyResults at hcause
    split at hcause
    · split at hcause
      · exact .inr (entryResults_error hcause)
      · cases hcause
        exact .inr ⟨_, rfl⟩
    · cases hcause
      exact .inr ⟨_, rfl⟩
  | array =>
    have hcause := Outcome.ofExcept_eq_failed.mp h
    unfold arrayResults at hcause
    split at hcause
    · cases hcause
    · cases hcause
      exact .inr ⟨_, rfl⟩
  | single m =>
    unfold results at h
    cases hmerged : call.merged with
    | none =>
      rw [hmerged] at h
      cases h
    | some d =>
      rw [hmerged] at h
      exact .inl ⟨m, rfl, .inr ⟨d.round, d.place, d.document, response, h⟩⟩

/-- A response is refused for the number of its results, unless a merger fails. -/
theorem decode_failed {k : Codec} {call : EncodedCall} {response : Json} {cause : Error}
    (h : k.decode call response = .failed cause) :
    k.Gives cause ∨ ∃ actual fault, cause = .protocol k.name call.members.length actual fault := by
  obtain hresults | ⟨found, _, hcount⟩ := Outcome.bind_eq_failed.mp h
  · obtain hgives | ⟨fault, hfault⟩ := results_failed hresults
    · exact .inl hgives
    · exact .inr ⟨0, some fault, hfault⟩
  · split at hcount
    · cases hcount
    · cases hcount
      exact .inr ⟨found.length, none, rfl⟩

end Codec

end Coalesce
