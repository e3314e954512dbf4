import Coalesce.Proofs.Codec.Merging

/-!
# What calls answer for

* `Merger.mergeChecked_members`  checked documents share out all requests, each one once;
* `Codec.encode_members`         the calls for some requests answer for every one of them, once;
* `Codec.Holds`                  what a response holds for the request at some position;
* `Codec.holds_of_decode`        decoded results are what the response holds for the members of its
                                 call, in their order.

Members of a merged document may be in any order; only the check says that none is missing.
-/

namespace Coalesce

/-! ## merged documents -/

namespace Merger

theorem mergeChecked_members {m : Merger} {round : Nat} {requests : List Request}
    {documents : List MergedDocument} (h : m.mergeChecked round requests = .done documents) :
    m.merge round requests = .done documents ∧
      (documents.flatMap (·.members)).Perm (List.range requests.length) := by
  obtain ⟨documents', hmerge, hcheck⟩ := Outcome.bind_eq_done.mp h
  obtain ⟨_, hok, hret⟩ := Outcome.bind_eq_done.mp hcheck
  cases hret
  exact ⟨hmerge, check_eq_ok.mp (Outcome.ofExcept_eq_done.mp hok)⟩

end Merger

namespace Codec

/-! ## calls -/

theorem merging_members (round : Nat) (documents : List MergedDocument) :
    (merging round documents).flatMap (·.members) = documents.flatMap (·.members) := by
  have hfst : documents.zipIdx.map Prod.fst = documents := List.zipIdx_map_fst 0 documents
  unfold merging
  rw [List.flatMap_map]
  conv_rhs => rw [← hfst, List.flatMap_map]

/-- a call for a document is that of one place among them -/
theorem mem_merging {round : Nat} {documents : List MergedDocument} {call : EncodedCall} :
    call ∈ merging round documents ↔ ∃ place d, documents[place]? = some d ∧
      call = ⟨d.request.toJson, d.members, some ⟨d, round, place⟩⟩ := by
  unfold merging
  rw [List.mem_map]
  constructor
  · rintro ⟨⟨d, place⟩, hd, rfl⟩
    exact ⟨place, d, List.mem_zipIdx_iff_getElem?.mp hd, rfl⟩
  · rintro ⟨place, d, hd, rfl⟩
    exact ⟨(d, place), List.mem_zipIdx_iff_getElem?.mpr hd, rfl⟩

/-- How the calls for some requests come about in some round. -/
inductive Encodes (requests : List Request) (round : Nat) : Codec → List EncodedCall → Prop where
  | plain (r : Request) (only : requests = [r]) : Encodes requests round .plain [covering r.toJson 1]
  | alone (m : Merger) (r : Request) (only : requests = [r]) :
      Encodes requests round (.single m) [covering r.toJson 1]
  | legacy : Encodes requests round .legacy
      [covering (.ofMembers [("requests", .array (requests.map Request.toJson))]) requests.length]
  | array : Encodes requests round .array
      [covering (.array (requests.map Request.toJson)) requests.length]
  | merged (m : Merger) (documents : List MergedDocument) (several : requests.length ≠ 1)
      (made : m.mergeChecked round requests = .done documents) :
      Encodes requests round (.single m) (merging round documents)

theorem encodes_of_encode {c : Codec} {requests : List Request} {round : Nat}
    {calls : List EncodedCall} (h : c.encode requests round = .done calls) :
    Encodes requests round c calls := by
  cases c with
  | plain =>
    rcases requests with _ | ⟨r, _ | ⟨r', rest⟩⟩
    · cases h
    · cases h
      exact .plain r rfl
    · cases h
  | legacy =>
    cases h
    exact .legacy
  | array =>
    cases h
    exact .array
  | single m =>
    have merged : requests.length ≠ 1 →
        (m.mergeChecked round requests >>= fun documents =>
          Outcome.done (merging round documents)) = .done calls →
          Encodes requests round (.single m) calls := by
      intro hlen hm
      obtain ⟨documents, hmade, hret⟩ := Outcome.bind_eq_done.mp hm
      cases hret
      exact .merged m documents hlen hmade
    rcases requests with _ | ⟨r, _ | ⟨r', rest⟩⟩
    · exact merged (by simp) h
    · cases h
      exact .alone m r rfl
    · exact merged (by simp) h

theorem encode_members {c : Codec} {requests : List Request} {round : Nat}
    {calls : List EncodedCall} (h : c.encode requests round = .done calls) :
    (calls.flatMap (·.members)).Perm (List.range requests.length) := by
  have covered : ∀ (body : Json) (n : Nat), n = requests.length →
      ([covering body n].flatMap (·.members)).Perm (List.range requests.length) := by
    rintro body n rfl
    rw [List.flatMap_singleton]
    exact List.Perm.refl _
  cases encodes_of_encode h with
  | plain r only => exact covered _ 1 (by rw [only]; rfl)
  | alone m r only => exact covered _ 1 (by rw [only]; rfl)
  | legacy => exact covered _ _ rfl
  | array => exact covered _ _ rfl
  | merged m documents several made =>
    rw [merging_members]
    exact (Merger.mergeChecked_members made).2

/-! ## responses -/

/-- What a response to a call with some body and members holds for the request at a position of a
batch that was written in some round. -/
inductive Holds (requests : List Request) (round : Nat) (body : Json) (members : List Nat) (i : Nat)
    (response value : Json) : Codec → Prop where
  /-- the entry at the position at which the body has the request -/
  | array (entries : List Json) (sent : body = .array (requests.map Request.toJson))
      (came : response = .array entries) (entry : entries[i]? = some value) :
      Holds requests round body members i response value .array
  /-- the result of the entry at the position at which the body has the request -/
  | legacy (fields entry : List (String × Json)) (entries : List Json)
      (sent : body = .ofMembers [("requests", .array (requests.map Request.toJson))])
      (came : response = .object fields)
      (results : Members.get? "results" fields = some (.array entries))
      (nth : entries[i]? = some (.object entry))
      (result : Members.get? "result" entry = some value) :
      Holds requests round body members i response value .legacy
  /-- what the merger gives for the position among the members of the document -/
  | merged (m : Merger) (documents : List MergedDocument) (d : MergedDocument) (place j : Nat)
      (parts : List Json) (several : 2 ≤ requests.length)
      (merge : m.merge round requests = .done documents) (one : documents[place]? = some d)
      (sent : body = d.request.toJson) (same : members = d.members)
      (member : d.members[j]? = some i) (split : m.split round place d response = .done parts)
      (part : parts[j]? = some value) :
      Holds requests round body members i response value (.single m)
  /-- all of it, for a request that is merged with no other -/
  | alone (m : Merger) (r : Request) (only : requests = [r]) (first : i = 0)
      (sent : body = r.toJson) (all : value = response) :
      Holds requests round body members i response value (.single m)
  /-- all of it -/
  | plain (r : Request) (only : requests = [r]) (first : i = 0) (sent : body = r.toJson)
      (all : value = response) :
      Holds requests round body members i response value .plain

theorem decode_done {c : Codec} {call : EncodedCall} {response : Json} {results : List Json} :
    c.decode call response = .done results ↔
      c.results call response = .done results ∧ results.length = call.members.length := by
  constructor
  · intro h
    obtain ⟨found, hfound, hlen⟩ := Outcome.bind_eq_done.mp h
    split at hlen
    · cases hlen
      exact ⟨hfound, by assumption⟩
    · cases hlen
  · rintro ⟨hfound, hlen⟩
    refine Outcome.bind_eq_done.mpr ⟨results, hfound, ?_⟩
    rw [if_pos hlen]
    rfl

theorem arrayResults_ok {expected : Nat} {response : Json} {results : List Json}
    (h : arrayResults expected response = .ok results) : response = .array results := by
  unfold arrayResults at h
  split at h
  · cases h
    rfl
  · cases h

theorem entryResults_ok {expected index : Nat} {entries results : List Json}
    (h : entryResults expected index entries = .ok results) (i : Nat) (value : Json)
    (hi : results[i]? = some value) :
    ∃ entry, entries[i]? = some (.object entry) ∧ Members.get? "result" entry = some value := by
  induction entries generalizing index results i with
  | nil =>
    cases h
    cases hi
  | cons e rest ih =>
    unfold entryResults at h
    split at h
    · rename_i entry
      split at h
      · rename_i r hr
        cases hrest : entryResults expected (index + 1) rest with
        | error cause =>
          rw [hrest] at h
          cases h
        | ok more =>
          rw [hrest] at h
          cases h
          cases i with
          | zero =>
            cases hi
            exact ⟨entry, rfl, hr⟩
          | succ i => exact ih hrest i hi
      · cases h
    · cases h

theorem legacyResults_ok {expected : Nat} {response : Json} {results : List Json}
    (h : legacyResults expected response = .ok results) :
    ∃ fields entries, response = .object fields ∧
      Members.get? "results" fields = some (.array entries) ∧
      entryResults expected 0 entries = .ok results := by
  unfold legacyResults at h
  split at h
  · rename_i fields
    split at h
    · rename_i entries hentries
      exact ⟨fields, entries, rfl, hentries, h⟩
    · cases h
  · cases h

theorem eq_of_range_getElem? {n i j : Nat} (h : (List.range n)[j]? = some i) : j = i ∧ i < n := by
  have hj : j < n := by
    obtain ⟨hlt, _⟩ := List.getElem?_eq_some_iff.mp h
    rwa [List.length_range] at hlt
  rw [List.getElem?_range hj] at h
  cases h
  exact ⟨rfl, hj⟩

theorem holds_of_decode {c : Codec} {requests : List Request} {round : Nat}
    {calls : List EncodedCall} (h : c.encode requests round = .done calls) {call : EncodedCall}
    (hcall : call ∈ calls) {response : Json} {results : List Json}
    (hdecode : c.decode call response = .done results) {i j : Nat} {value : Json}
    (hi : call.members[j]? = some i) (hvalue : results[j]? = some value) :
    c.Holds requests round call.body call.members i response value := by
  obtain ⟨hresults, _⟩ := decode_done.mp hdecode
  have covers : ∀ {body : Json} {n : Nat}, call ∈ [covering body n] →
      call = covering body n ∧ j = i ∧ i < n := by
    intro body n hc
    have hcov := List.mem_singleton.mp hc
    rw [hcov] at hi
    exact ⟨hcov, eq_of_range_getElem? hi⟩
  have whole : c.results call response = .done [response] → value = response := by
    intro hr
    rw [hr] at hresults
    cases hresults
    exact List.mem_singleton.mp (List.mem_of_getElem? hvalue)
  cases encodes_of_encode h with
  | plain r only =>
    obtain ⟨rfl, rfl, hlt⟩ := covers hcall
    exact .plain r only (Nat.lt_one_iff.mp hlt) rfl (whole rfl)
  | alone m r only =>
    obtain ⟨rfl, rfl, hlt⟩ := covers hcall
    exact .alone m r only (Nat.lt_one_iff.mp hlt) rfl (whole rfl)
  | legacy =>
    obtain ⟨rfl, rfl, _⟩ := covers hcall
    obtain ⟨fields, entries, hresponse, hfields, hentries⟩ :=
      legacyResults_ok (Outcome.ofExcept_eq_done.mp hresults)
    obtain ⟨entry, hentry, hresult⟩ := entryResults_ok hentries _ value hvalue
    exact .legacy fields entry entries rfl hresponse hfields hentry hresult
  | array =>
    obtain ⟨rfl, rfl, _⟩ := covers hcall
    exact .array results rfl (arrayResults_ok (Outcome.ofExcept_eq_done.mp hresults)) hvalue
  | merged m documents several made =>
    obtain ⟨place, d, hd, rfl⟩ := mem_merging.mp hcall
    obtain ⟨hmerge, hperm⟩ := Merger.mergeChecked_members made
    have hlt : i < requests.length := by
      have hmem : i ∈ documents.flatMap (·.members) :=
        List.mem_flatMap.mpr ⟨d, List.mem_of_getElem? hd, List.mem_of_getElem? hi⟩
      exact List.mem_range.mp (hperm.mem_iff.mp hmem)
    exact .merged m documents d place j results (by omega) hmerge hd rfl rfl hi hresults hvalue

end Codec

end Coalesce
