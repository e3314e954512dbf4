import Coalesce.Http.Settings
import Coalesce.Proofs.Except
import Coalesce.Proofs.Header.Arrival

/-!
# The identifier of a call

* `Http.Request.fields`         what a request holds under a name, in any letter case;
* `Http.forwarded_eq_ok`        what is forwarded of some headers, and when;
* `Http.build_eq_ok`            the parts of a request;
* `Http.exists_build_iff`       there is one for every usable address, if what is forwarded is
                                well-formed;
* `Http.fields_build`           under the name of the identifier it holds what callers forward, and
                                then the identifier of the call;
* `Http.Passed`                 headers on their way through a chain of such senders;
* `Http.call_id_last`           so the identifier of a call comes last, and it is the only one just
                                if nothing is forwarded under its name.

A header of that name is forwarded like any other one.
-/

namespace Coalesce.Http

open Headers

/-- The values of the fields of a name, in the order of the request. -/
def Request.fields (r : Request) (name : String) : List String :=
  valuesOf name (separate r.headers)

/-! ## what is forwarded -/

/-- A header may go out: its name is one, and so are its values. -/
def WellFormed (h : String × List String) : Prop :=
  ∀ v ∈ h.2, isName h.1 = true ∧ isValue v = true

/-- the lines for some headers -/
def lines (headers : Headers) : List (String × String) :=
  (headers.filter fun h => isForwarded h.1).flatMap fun h => h.2.map fun v => (h.1, v)

theorem header_eq_ok {name value : String} {line : String × String} :
    header name value = .ok line ↔
      (isName name = true ∧ isValue value = true) ∧ line = (Text.lowerAscii name, value) := by
  unfold header
  cases isName name with
  | false => simp
  | true =>
    cases isValue value with
    | false => simp
    | true => simp [eq_comm]

theorem mapM_header_eq_ok {ls sent : List (String × String)} :
    (ls.mapM fun h => header h.1 h.2) = .ok sent ↔
      (∀ l ∈ ls, isName l.1 = true ∧ isValue l.2 = true) ∧
        sent = ls.map fun l => (Text.lowerAscii l.1, l.2) := by
  rw [mapM_eq_ok]
  induction ls generalizing sent with
  | nil =>
    rw [List.forall₂_nil_left_iff]
    simp
  | cons l ls ih =>
    rw [List.forall₂_cons_left_iff, List.forall_mem_cons, List.map_cons]
    constructor
    · rintro ⟨line, rest, hline, hrest, rfl⟩
      obtain ⟨hl, rfl⟩ := header_eq_ok.mp hline
      obtain ⟨hls, rfl⟩ := ih.mp hrest
      exact ⟨⟨hl, hls⟩, rfl⟩
    · rintro ⟨⟨hl, hls⟩, rfl⟩
      exact ⟨_, _, header_eq_ok.mpr ⟨hl, rfl⟩, ih.mpr ⟨hls, rfl⟩, rfl⟩

theorem forwarded_eq_ok {headers : Headers} {sent : List (String × String)} :
    forwarded headers = .ok sent ↔
      (∀ h ∈ headers, isForwarded h.1 = true → WellFormed h) ∧
        sent = (lines headers).map fun l => (Text.lowerAscii l.1, l.2) := by
  show ((lines headers).mapM fun h => header h.1 h.2) = .ok sent ↔ _
  rw [mapM_header_eq_ok]
  refine and_congr_left fun _ => ?_
  unfold lines WellFormed
  constructor
  · intro h x hx hforwarded v hv
    refine h (x.1, v) ?_
    simp only [List.mem_flatMap, List.mem_filter, List.mem_map]
    exact ⟨x, ⟨hx, hforwarded⟩, v, hv, rfl⟩
  · intro h l hl
    simp only [List.mem_flatMap, List.mem_filter, List.mem_map] at hl
    obtain ⟨x, ⟨hx, hforwarded⟩, v, hv, rfl⟩ := hl
    exact h x hx hforwarded v hv

theorem isForwarded_congr {a b : String} (h : Text.sameName a b = true) :
    isForwarded a = isForwarded b := by
  unfold isForwarded
  rw [Text.sameName_iff.mp h]

theorem lines_cons (h : String × List String) (headers : Headers) :
    lines (h :: headers)
      = (if isForwarded h.1 then h.2.map fun v => (h.1, v) else []) ++ lines headers := by
  unfold lines
  rw [List.filter_cons]
  split <;> rfl

/-- Under a name that is forwarded, all values are. -/
theorem valuesOf_lines {name : String} (forward : isForwarded name = true) (headers : Headers) :
    valuesOf name (separate (lines headers)) = valuesOf name headers := by
  induction headers with
  | nil => rfl
  | cons h headers ih =>
    have hcons : valuesOf name (h :: headers)
        = valuesOf name [h] ++ valuesOf name headers :=
      valuesOf_append name [h] headers
    rw [lines_cons, separate_append, valuesOf_append, ih, hcons, List.append_cancel_right_eq]
    by_cases hforward : isForwarded h.1 = true
    · rw [if_pos hforward]
      exact valuesOf_separate name h.1 h.2
    · have hother : ¬ Text.sameName h.1 name = true := by
        intro hsame
        apply hforward
        rw [isForwarded_congr hsame, forward]
      rw [if_neg hforward, valuesOf_singleton, if_neg hother]
      rfl

/-! ## requests -/

theorem withoutUser_cases (u : Url) :
    (withoutUser u).1.scheme = u.scheme ∧
      ((withoutUser u).2 = [] ∨ ∃ value, (withoutUser u).2 = [("authorization", value)]) := by
  unfold withoutUser
  dsimp only
  split
  · exact ⟨rfl, .inl rfl⟩
  · exact ⟨rfl, .inl rfl⟩
  · exact ⟨rfl, .inr ⟨_, rfl⟩⟩

/-- the schemes of addresses that a request can be sent to -/
def IsWeb (scheme : String) : Prop := scheme = "http" ∨ scheme = "https"

theorem build_eq_ok {url : String} {headers : Headers} {body : Json} {callId : String}
    {r : Request} :
    Request.build url headers body callId = .ok r ↔
      ∃ address, addressOf url = .ok address ∧ IsWeb address.scheme ∧
        (∀ h ∈ headers, isForwarded h.1 = true → WellFormed h) ∧
        r = ⟨(withoutUser address).1,
          (withoutUser address).2
            ++ [("content-type", "application/json"), ("accept", accepted)]
            ++ ((lines headers).map fun l => (Text.lowerAscii l.1, l.2))
            ++ [(callIdHeader, callId)],
          body.compact⟩ := by
  unfold Request.build
  rw [except_bind_eq_ok]
  refine exists_congr fun address => and_congr_right fun _ => ?_
  dsimp only
  rw [except_bind_eq_ok, (withoutUser_cases address).1]
  constructor
  · rintro ⟨more, hmore, h⟩
    obtain ⟨hformed, rfl⟩ := forwarded_eq_ok.mp hmore
    split at h
    · rename_i hweb
      exact ⟨hweb, hformed, (Except.ok.inj h).symm⟩
    · cases h
  · rintro ⟨hweb, hformed, rfl⟩
    refine ⟨_, forwarded_eq_ok.mpr ⟨hformed, rfl⟩, ?_⟩
    exact if_pos hweb

theorem exists_build_iff {url : String} {headers : Headers} {body : Json} {callId : String} :
    (∃ r, Request.build url headers body callId = .ok r) ↔
      (∃ address, addressOf url = .ok address ∧ IsWeb address.scheme) ∧
        ∀ h ∈ headers, isForwarded h.1 = true → WellFormed h := by
  simp only [build_eq_ok]
  constructor
  · rintro ⟨_, address, haddress, hweb, hformed, _⟩
    exact ⟨⟨address, haddress, hweb⟩, hformed⟩
  · rintro ⟨⟨address, haddress, hweb⟩, hformed⟩
    exact ⟨_, address, haddress, hweb, hformed, rfl⟩

/-! ## the fields of the identifier -/

/-- What the sender adds under other names is none of the identifier's. -/
theorem fields_build {url : String} {headers : Headers} {body : Json} {callId : String}
    {r : Request} (h : Request.build url headers body callId = .ok r) :
    r.fields callIdHeader = valuesOf callIdHeader headers ++ [callId] := by
  obtain ⟨address, _, _, _, rfl⟩ := build_eq_ok.mp h
  have huser : valuesOf callIdHeader (separate (withoutUser address).2) = [] := by
    rcases (withoutUser_cases address).2 with hnone | ⟨value, hsome⟩
    · rw [hnone]
      rfl
    · have hother : ¬ Text.sameName "authorization" callIdHeader = true := by decide
      rw [hsome]
      show valuesOf callIdHeader [("authorization", [value])] = []
      rw [valuesOf_singleton, if_neg hother]
  have hfixed : valuesOf callIdHeader
      (separate [("content-type", "application/json"), ("accept", accepted)]) = [] := by
    decide
  have hown : valuesOf callIdHeader (separate [(callIdHeader, callId)])
      = [callId] := by
    have hsame : Text.sameName callIdHeader callIdHeader = true := by decide
    show valuesOf callIdHeader [(callIdHeader, [callId])] = [callId]
    rw [valuesOf_singleton, if_pos hsame]
  unfold Request.fields
  dsimp only
  rw [separate_append, separate_append, separate_append, valuesOf_append,
    valuesOf_append, valuesOf_append, huser, hfixed, hown, valuesOf_lowered,
    valuesOf_lines (by decide)]
  rfl

theorem fields_orHeader {name other : String} (h : ¬ Text.sameName other name = true)
    (r : Request) (value : String) : (r.orHeader other value).fields name = r.fields name := by
  unfold Request.orHeader
  split
  · rfl
  · show valuesOf name (separate (r.headers ++ [(other, value)])) = _
    rw [separate_append, valuesOf_append]
    show r.fields name ++ valuesOf name [(other, [value])] = r.fields name
    rw [valuesOf_singleton, if_neg h, List.append_nil]

theorem fields_prepared (settings : Settings) (r : Request) :
    (settings.prepared r).fields callIdHeader = r.fields callIdHeader := by
  unfold Settings.prepared
  split
  · split
    · exact fields_orHeader (by decide) r _
    · rfl
  · rfl

/-- Headers that are sent, and forwarded by whoever receives them, with the identifiers of the calls
that they were sent with. -/
inductive Passed (headers : Headers) : List String → Headers → Prop where
  | start : Passed headers [] headers
  | sent {callIds : List String} {received : Headers} {url : String} {body : Json}
      {callId : String} {r : Request} (settings : Settings)
      (before : Passed headers callIds received)
      (built : Request.build url received body callId = .ok r) :
      Passed headers (callIds ++ [callId]) (separate (settings.prepared r).headers)

/-- Every sender adds its identifier to those it received. -/
theorem Passed.valuesOf_eq {headers received : Headers} {callIds : List String}
    (h : Passed headers callIds received) :
    valuesOf callIdHeader received
      = valuesOf callIdHeader headers ++ callIds := by
  induction h with
  | start => rw [List.append_nil]
  | sent settings _ built ih =>
    show Request.fields _ callIdHeader = _
    rw [fields_prepared, fields_build built, ih, List.append_assoc]

/-- an address that requests can be sent to -/
theorem addressOf_web : ∃ address, addressOf "http://p/graphql" = .ok address ∧
    IsWeb address.scheme := by
  have hweb : ((addressOf "http://p/graphql").toOption.any fun u => u.scheme = "http") = true := by
    decide +kernel
  cases haddress : addressOf "http://p/graphql" with
  | error fault =>
    rw [haddress] at hweb
    cases hweb
  | ok address =>
    rw [haddress] at hweb
    exact ⟨address, rfl, .inl (of_decide_eq_true hweb)⟩

/-- **The identifier of a call comes last.**  For an address of the web there is a request just if
all names and values that are forwarded are well-formed.  Under the name of the identifier it holds
what the caller's headers hold there, in any letter case, and then the identifier of the call.  So
that identifier is the only one just if the caller has no value under that name; and headers that
pass several senders hold the identifiers of all their calls, in the order of sending. -/
theorem call_id_last (url : String) (headers : Headers) (body : Json) (callId : String)
    (settings : Settings) :
    ((∃ r, Request.build url headers body callId = .ok r) ↔
      (∃ address, addressOf url = .ok address ∧ IsWeb address.scheme) ∧
        ∀ h ∈ headers, isForwarded h.1 = true → WellFormed h) ∧
    (∀ r, Request.build url headers body callId = .ok r →
      (settings.prepared r).fields callIdHeader
        = valuesOf callIdHeader headers ++ [callId] ∧
      ((settings.prepared r).fields callIdHeader = [callId] ↔
        ∀ h ∈ headers, Text.sameName h.1 callIdHeader = true → h.2 = [])) ∧
    ∀ callIds received, Passed headers callIds received →
      valuesOf callIdHeader received
        = valuesOf callIdHeader headers ++ callIds := by
  refine ⟨exists_build_iff, fun r built => ?_, fun callIds received passed => passed.valuesOf_eq⟩
  have hfields : (settings.prepared r).fields callIdHeader
      = valuesOf callIdHeader headers ++ [callId] := by
    rw [fields_prepared, fields_build built]
  refine ⟨hfields, ?_⟩
  rw [hfields, ← valuesOf_eq_nil_iff]
  constructor
  · intro honly
    exact List.append_left_eq_self.mp honly
  · intro hnone
    rw [hnone, List.nil_append]

/-- a caller that forwards an identifier of its own beside another header -/
theorem call_id_last_behind :
    let headers : Headers := [("X-Batch-Call-Id", ["mine"]), ("Authorization", ["a"])]
    ∃ r : Request, Request.build "http://p/graphql" headers .null "7" = .ok r ∧
      (Settings.prepared {} r).fields callIdHeader = ["mine", "7"] ∧
      Passed headers ["7"] (separate (Settings.prepared {} r).headers) ∧
      (Settings.prepared {} r).fields callIdHeader ≠ ["7"] := by
  intro headers
  have hformed : ∀ h ∈ headers, isForwarded h.1 = true → WellFormed h := by
    intro h hh _ v hv
    rcases List.mem_cons.mp hh with rfl | hh
    · rw [List.mem_singleton.mp hv]
      decide
    · rw [List.mem_singleton.mp hh] at hv ⊢
      rw [List.mem_singleton.mp hv]
      decide
  obtain ⟨hbuilds, hsent, _⟩ := call_id_last "http://p/graphql" headers .null "7" {}
  obtain ⟨r, built⟩ := hbuilds.mpr ⟨addressOf_web, hformed⟩
  obtain ⟨hfields, honly⟩ := hsent r built
  refine ⟨r, built, hfields, .sent {} .start built, fun h => ?_⟩
  have hempty := honly.mp h ("X-Batch-Call-Id", ["mine"]) List.mem_cons_self (by decide)
  cases hempty

/-- A caller's own value under the name of the identifier goes out beside the one of the call. -/
theorem forwarded_call_id_stays :
    ¬ ∀ (url : String) (headers : Headers) (body : Json) (callId : String) (r : Request),
      Request.build url headers body callId = .ok r → r.fields callIdHeader = [callId] := by
  intro alone
  have hformed : ∀ h ∈ [("x-batch-call-id", ["mine"])], isForwarded h.1 = true → WellFormed h := by
    simp only [List.mem_singleton, forall_eq]
    intro _ v hv
    rw [List.mem_singleton.mp hv]
    decide
  obtain ⟨r, built⟩ :=
    (@exists_build_iff "http://p/graphql" _ .null "7").mpr ⟨addressOf_web, hformed⟩
  have hfields := fields_build built
  rw [alone _ _ _ _ _ built] at hfields
  revert hfields
  decide

end Coalesce.Http
