import Coalesce.Proofs.Codec.Failures

/-!
# Requests in lists

* `Codec.listing`, `Codec.requested`
                            the body that lists requests, and what a server reads out of a body;
* `Codec.answering`         the response that lists answers;
* `Codec.Lists`             the results that are listed in a response;
* `Codec.decode_exact`      a response is taken apart just if it lists one result for each request.

Only the merged style asks foreign code for anything, so with the other two styles nothing else can
come out.
-/

namespace Coalesce

namespace Codec

/-! ## servers -/

/-- a body that lists requests -/
def listing : Codec → List Json → Json
  | .legacy, requests => .ofMembers [("requests", .array requests)]
  | _, requests => .array requests

/-- the requests that a server finds in a body -/
def requested : Codec → Json → List Json
  | .legacy, body =>
    match body.member? "requests" with
    | some (.array requests) => requests
    | _ => []
  | _, .array requests => requests
  | _, _ => []

/-- a response that lists answers -/
def answering : Codec → List Json → Json
  | .legacy, answers =>
    .ofMembers [("results", .array (answers.map fun a => .ofMembers [("result", a)]))]
  | _, answers => .array answers

/-- what comes back from a server that answers the requests of a body one by one -/
def served (k : Codec) (answer : Json → Json) (body : Json) : Json :=
  k.answering ((k.requested body).map answer)

theorem requested_listing (k : Codec) (requests : List Json) :
    k.requested (k.listing requests) = requests := by
  cases k <;> rfl

/-! ## responses that list results -/

/-- an entry with a result, whatever else is in it -/
def EntryHolds (entry result : Json) : Prop :=
  ∃ members, entry = .object members ∧ Members.get? "result" members = some result

/-- The results that are listed in a response. -/
inductive Lists : Codec → Json → List Json → Prop where
  | array (results : List Json) : Lists .array (.array results) results
  | legacy (members : List (String × Json)) (entries results : List Json)
      (list : Members.get? "results" members = some (.array entries))
      (each : List.Forall₂ EntryHolds entries results) : Lists .legacy (.object members) results

theorem entryResults_eq_ok {expected index : Nat} {entries results : List Json} :
    entryResults expected index entries = .ok results ↔
      List.Forall₂ EntryHolds entries results := by
  induction entries generalizing index results with
  | nil =>
    constructor
    · intro h
      cases h
      exact .nil
    · intro h
      cases h
      rfl
  | cons entry rest ih =>
    constructor
    · intro h
      unfold entryResults at h
      split at h
      · split at h
        · rename_i members _ r hr
          obtain ⟨more, hmore, hret⟩ := except_bind_eq_ok.mp h
          cases hret
          exact .cons ⟨members, rfl, hr⟩ (ih.mp hmore)
        · cases h
      · cases h
    · rintro (_ | ⟨⟨members, rfl, hr⟩, hrest⟩)
      unfold entryResults
      dsimp only
      rw [hr]
      dsimp only
      rw [ih.mpr hrest]
      rfl

theorem results_done {k : Codec} (list : k = .legacy ∨ k = .array) {call : EncodedCall}
    {response : Json} {results : List Json} :
    k.results call response = .done results ↔ k.Lists response results := by
  rcases list with rfl | rfl
  · constructor
    · intro h
      obtain ⟨members, entries, rfl, hlist, hentries⟩ :=
        legacyResults_ok (Outcome.ofExcept_eq_done.mp h)
      exact .legacy members entries results hlist (entryResults_eq_ok.mp hentries)
    · rintro (_ | ⟨members, entries, _, hlist, heach⟩)
      refine Outcome.ofExcept_eq_done.mpr ?_
      unfold legacyResults
      dsimp only
      rw [hlist]
      exact entryResults_eq_ok.mpr heach
  · constructor
    · intro h
      rw [arrayResults_ok (Outcome.ofExcept_eq_done.mp h)]
      exact .array results
    · rintro (_ | _)
      rfl

theorem lists_answering {k : Codec} (list : k = .legacy ∨ k = .array) (answers : List Json) :
    k.Lists (k.answering answers) answers := by
  rcases list with rfl | rfl
  · refine .legacy _ _ answers rfl ?_
    rw [List.forall₂_map_left_iff]
    exact List.forall₂_same.mpr fun a _ => ⟨_, rfl, rfl⟩
  · exact .array answers

/-! ## responses that are refused -/

theorem decode_ne_crashed {k : Codec} (list : k = .legacy ∨ k = .array) (call : EncodedCall)
    (response : Json) : k.decode call response ≠ .crashed := by
  intro h
  obtain hresults | ⟨found, _, hcount⟩ := Outcome.bind_eq_crashed.mp h
  · rcases list with rfl | rfl <;> exact Outcome.ofExcept_ne_crashed _ hresults
  · split at hcount <;> cases hcount

/-- **Responses are taken apart exactly.**  Both styles that keep requests apart write any requests
into one call, which answers for all of them, and whose body lists them in order.  What a server
sends back that answers them one by one is taken apart into these answers, in the same order.  And
whatever else comes back: there are results just if it lists as many as there are requests, and
these are the ones; otherwise the response violates the protocol, and the number of requests is
what was expected. -/
theorem decode_exact {k : Codec} (list : k = .legacy ∨ k = .array) (requests : List Request) :
    ∃ call, (∀ round, k.encode requests round = .done [call]) ∧
      call.members = List.range requests.length ∧
      call.body = k.listing (requests.map Request.toJson) ∧
      (∀ answer : Json → Json, k.decode call (k.served answer call.body)
        = .done (requests.map fun r => answer r.toJson)) ∧
      ∀ response,
        (∀ results, k.decode call response = .done results ↔
          k.Lists response results ∧ results.length = requests.length) ∧
        ((¬ ∃ results, k.Lists response results ∧ results.length = requests.length) →
          ∃ actual fault, k.decode call response
            = .failed (.protocol k.name requests.length actual fault)) := by
  let call := covering (k.listing (requests.map Request.toJson)) requests.length
  have hmembers : call.members.length = requests.length := List.length_range
  have hencode : ∀ round, k.encode requests round = .done [call] := by
    intro round
    rcases list with rfl | rfl <;> rfl
  have hdone : ∀ response results, k.decode call response = .done results ↔
      k.Lists response results ∧ results.length = requests.length := by
    intro response results
    rw [decode_done, results_done list, hmembers]
  refine ⟨call, hencode, rfl, rfl, fun answer => ?_, fun response => ⟨hdone response, ?_⟩⟩
  · refine (hdone _ _).mpr ⟨?_, List.length_map _⟩
    have hserved : k.served answer call.body
        = k.answering (requests.map fun r => answer r.toJson) := by
      show k.answering ((k.requested (k.listing _)).map answer) = _
      rw [requested_listing, List.map_map]
      rfl
    rw [hserved]
    exact lists_answering list _
  · intro hnone
    cases houtcome : k.decode call response with
    | crashed => exact absurd houtcome (decode_ne_crashed list call response)
    | done results => exact absurd ⟨results, (hdone response results).mp houtcome⟩ hnone
    | failed cause =>
      obtain ⟨m, rfl, _⟩ | ⟨actual, fault, hcause⟩ := decode_failed houtcome
      · rcases list with h | h <;> cases h
      · rw [hmembers] at hcause
        exact ⟨actual, fault, by rw [hcause]⟩

/-- two requests and a server that answers with their texts; a response with more than it should
have in its entries, and one with too few of them -/
theorem decode_exact_extra :
    let requests : List Request := [{ query := "one" }, { query := "two" }]
    let call := covering (Codec.legacy.listing (requests.map Request.toJson)) 2
    let answer (r : Json) : Json := (r.member? "query").getD .null
    let entry (text : String) : Json := .object [("extra", .null), ("result", .string text)]
    let whole : Json := .object [("results", .array [entry "two", entry "one"])]
    let short : Json := .object [("extra", .array []), ("results", .array [entry "one"])]
    (∀ round, Codec.legacy.encode requests round = .done [call]) ∧
      Codec.legacy.decode call (Codec.legacy.served answer call.body)
        = .done [.string "one", .string "two"] ∧
      Codec.legacy.decode call whole = .done [.string "two", .string "one"] ∧
      ∃ actual fault,
        Codec.legacy.decode call short = .failed (.protocol "legacy" 2 actual fault) := by
  intro requests call answer entry whole short
  obtain ⟨_, hencode, _, _, hserved, hall⟩ := decode_exact (.inl rfl) requests
  cases hencode 0
  have lists : Codec.legacy.Lists whole [.string "two", .string "one"] :=
    .legacy _ [entry "two", entry "one"] _ rfl
      (.cons ⟨_, rfl, rfl⟩ (.cons ⟨_, rfl, rfl⟩ .nil))
  have missing : ¬ ∃ results, Codec.legacy.Lists short results ∧
      results.length = requests.length := by
    rintro ⟨results, hlists, hlen⟩
    have hresults : Codec.legacy.results call short = .done results :=
      (results_done (.inl rfl)).mpr hlists
    cases hresults
    cases hlen
  exact ⟨fun _ => rfl, hserved answer, ((hall whole).1 _).mpr ⟨lists, rfl⟩, (hall short).2 missing⟩

end Codec

end Coalesce
