import Coalesce.Dispatch.Exchange
import Coalesce.Proofs.Codec.Members

/-!
# What exchanges come to

* `Exchange.Backed`       every result in an exchange was decoded from a response that came back;
* `Exchange.Awaits`       what an exchange waits for has not come back;
* `Exchange.Answers`      results in the order of the requests, each out of such a response;
* `Exchange.Launched`     the calls started are the first ones, and all of them unless a failure or
                          a crash ends the exchange at once;
* `Target.start_timeout`, `Target.start_late`, `Target.start_unwritten`
                          calls are started with the timeout that the earliest deadline leaves, and
                          only if it leaves one and they can be written;
* `Target.start_running`, `Target.start_done`, `Exchange.resume_running`, `Exchange.resume_done`
                          an exchange stays backed, and what it ends with answers its requests.

Which responses came back is a relation here; those who start and resume exchanges say what it is.
-/

namespace Coalesce

namespace Exchange

structure Backed (codec : Codec) (came : Nat → Json → Prop) (e : Exchange) : Prop where
  length : e.slots.length = e.calls.length
  done : ∀ (k : Nat) (call : EncodedCall) (results : List Json), e.calls[k]? = some call →
    e.slots[k]? = some (.done results) →
    ∃ response, came k response ∧ codec.decode call response = .done results

def Awaits (came : Nat → Json → Prop) (e : Exchange) : Prop :=
  ∀ (k : Nat) (response : Json), e.slots[k]? = some .waiting → ¬ came k response

/-- Results in the order of the requests: the one at a position is what a response holds for it, to
a call that has the position among its members. -/
def Answers (codec : Codec) (requests : List Request) (round : Nat) (calls : List EncodedCall)
    (came : Nat → Json → Prop) (values : List Json) : Prop :=
  ∀ (i : Nat) (value : Json), values[i]? = some value →
    ∃ (k : Nat) (call : EncodedCall) (response : Json), calls[k]? = some call ∧
      i ∈ call.members ∧ came k response ∧
      codec.Holds requests round call.body call.members i response value

theorem Backed.mono {codec : Codec} {came came' : Nat → Json → Prop} {e : Exchange}
    (h : e.Backed codec came) (himp : ∀ k response, came k response → came' k response) :
    e.Backed codec came' where
  length := h.length
  done k call results hc hs := by
    obtain ⟨response, hcame, hdecode⟩ := h.done k call results hc hs
    exact ⟨response, himp k response hcame, hdecode⟩

/-! ## progress -/

theorem results?_eq_some {slots : List Slot} {results : List (List Json)} :
    results? slots = some results ↔ slots = results.map Slot.done := by
  induction slots generalizing results with
  | nil => cases results <;> simp [results?]
  | cons s rest ih =>
    cases s with
    | waiting => cases results <;> simp [results?]
    | failed cause => cases results <;> simp [results?]
    | done part =>
      cases results with
      | nil => simp [results?]
      | cons r rs => simp [results?, ih, and_comm]

theorem progress_cases (e : Exchange) :
    (∃ cause, e.progress = .ended (.failed cause)) ∨ e.progress = .running e ∨
      ∃ results, e.slots = results.map Slot.done ∧
        e.progress = .ended (restore e.calls results) := by
  unfold progress
  split
  · exact Or.inl ⟨_, rfl⟩
  · split
    · rename_i results hresults
      exact Or.inr (Or.inr ⟨results, results?_eq_some.mp hresults, rfl⟩)
    · exact Or.inr (Or.inl rfl)

theorem restore_cases (calls : List EncodedCall) (results : List (List Json)) :
    (∃ cause, restore calls results = .failed cause) ∨
      ∃ values, restore calls results = .done values ∧
        (Layout.mk (calls.map (·.members))).restore results = .ok values := by
  unfold restore
  cases h : (Layout.mk (calls.map (·.members))).restore results with
  | error cause => exact Or.inl ⟨cause, rfl⟩
  | ok values => exact Or.inr ⟨values, rfl, rfl⟩

theorem progress_running {e e' : Exchange} (h : e.progress = .running e') : e' = e := by
  obtain ⟨cause, hp⟩ | hp | ⟨results, _, hp⟩ := e.progress_cases
  · rw [hp] at h
    cases h
  · rw [hp] at h
    cases h
    rfl
  · rw [hp] at h
    cases h

/-- A finished exchange answers all its requests. -/
theorem progress_done {codec : Codec} {came : Nat → Json → Prop} {e : Exchange}
    (hb : e.Backed codec came) {requests : List Request} {round : Nat}
    (hencode : codec.encode requests round = .done e.calls) {values : List Json}
    (h : e.progress = .ended (.done values)) :
    values.length = requests.length ∧ Answers codec requests round e.calls came values := by
  have hmembers := Codec.encode_members hencode
  obtain ⟨cause, hp⟩ | hp | ⟨results, hslots, hp⟩ := e.progress_cases
  · rw [hp] at h
    cases h
  · rw [hp] at h
    cases h
  rw [hp] at h
  obtain ⟨cause, hr⟩ | ⟨values', hr, hrestore⟩ := restore_cases e.calls results
  · rw [hr] at h
    cases h
  rw [hr] at h
  cases h
  obtain ⟨_, _, hlength, hplaced⟩ := Layout.restore_ok hrestore
  have hsize : values.length = requests.length := by
    rw [hlength]
    unfold Layout.size
    rw [← List.flatMap_def, hmembers.length_eq, List.length_range]
  refine ⟨hsize, fun i value hi => ?_⟩
  have hlt : i < requests.length := by
    rw [← hsize]
    exact (List.getElem?_eq_some_iff.mp hi).1
  obtain ⟨call, hcall, hmem⟩ := List.mem_flatMap.mp (hmembers.mem_iff.mpr (List.mem_range.mpr hlt))
  obtain ⟨k, hk⟩ := List.mem_iff_getElem?.mp hcall
  obtain ⟨j, hj⟩ := List.mem_iff_getElem?.mp hmem
  have hkl : k < results.length := by
    have hl := hb.length
    rw [hslots, List.length_map] at hl
    rw [hl]
    exact (List.getElem?_eq_some_iff.mp hk).1
  have hpart : results[k]? = some results[k] := List.getElem?_eq_getElem hkl
  obtain ⟨response, hcame, hdecode⟩ := hb.done k call results[k] hk (by
    rw [hslots, List.getElem?_map, hpart]
    rfl)
  have hgroup : (e.calls.map (·.members))[k]? = some call.members := by
    rw [List.getElem?_map, hk]
    rfl
  have hjl : j < results[k].length := by
    rw [(Codec.decode_done.mp hdecode).2]
    exact (List.getElem?_eq_some_iff.mp hj).1
  have hpj : results[k][j]? = some results[k][j] := List.getElem?_eq_getElem hjl
  have hvalue : values[i]? = some results[k][j] :=
    hplaced _ (Layout.mem_placements hgroup hpart hj hpj)
  rw [hi] at hvalue
  rw [← Option.some.inj hvalue] at hpj
  exact ⟨k, call, response, hk, hmem, hcame, Codec.holds_of_decode hencode hcall hdecode hj hpj⟩

/-! ## starting -/

/-- What becomes of calls when they are started. -/
inductive Launched (codec : Codec) (came : Nat → Json → Prop) (all rest : List EncodedCall) :
    List EncodedCall → Progress → Prop where
  | failed (started : List EncodedCall) (cause : Error) (first : started <+: rest) :
      Launched codec came all rest started (.ended (.failed cause))
  | crashed (started : List EncodedCall) (first : started <+: rest) :
      Launched codec came all rest started (.ended .crashed)
  | through (slots : List Slot) (backed : Backed codec came ⟨all, slots⟩)
      (awaits : Awaits came ⟨all, slots⟩) :
      Launched codec came all rest rest (progress ⟨all, slots⟩)

theorem Launched.cons {codec : Codec} {came : Nat → Json → Prop} {all rest : List EncodedCall}
    {started : List EncodedCall} {p : Progress} (h : Launched codec came all rest started p)
    (call : EncodedCall) : Launched codec came all (call :: rest) (call :: started) p := by
  have cons : ∀ {started}, started <+: rest → call :: started <+: call :: rest :=
    fun hp => (List.cons_prefix_cons).mpr ⟨rfl, hp⟩
  cases h with
  | failed _ cause first => exact .failed _ cause (cons first)
  | crashed _ first => exact .crashed _ (cons first)
  | through slots backed awaits => exact .through slots backed awaits

theorem Launched.first {codec : Codec} {came : Nat → Json → Prop} {all rest : List EncodedCall}
    {started : List EncodedCall} {p : Progress} (h : Launched codec came all rest started p) :
    started <+: rest := by
  cases h with
  | failed _ cause first => exact first
  | crashed _ first => exact first
  | through slots backed awaits => exact List.prefix_refl rest

section
variable (codec : Codec) (all : List EncodedCall)
  (reply : EncodedCall → Nat → Option (Outcome Json))

/-- the responses that are there at once -/
def CameAtOnce (k : Nat) (response : Json) : Prop :=
  ∃ call, all[k]? = some call ∧ reply call k = some (.done response)

theorem launch_launched (before rest : List EncodedCall) (slots : List Slot)
    (hall : all = before ++ rest) (hlen : slots.length = before.length)
    (hdone : ∀ (k : Nat) (call : EncodedCall) (results : List Json), all[k]? = some call →
      slots[k]? = some (.done results) →
      ∃ response, CameAtOnce all reply k response ∧ codec.decode call response = .done results)
    (hwaits : Awaits (CameAtOnce all reply) ⟨all, slots⟩) :
    Launched codec (CameAtOnce all reply) all rest (launch codec all reply slots rest).1
      (launch codec all reply slots rest).2 := by
  induction rest generalizing before slots with
  | nil =>
    refine .through slots ⟨?_, hdone⟩ hwaits
    show slots.length = all.length
    rw [hall, List.append_nil, hlen]
  | cons call rest ih =>
    have hcall : all[slots.length]? = some call := by
      rw [hall, hlen, List.getElem?_append_right (Nat.le_refl _), Nat.sub_self]
      rfl
    -- the call has its slot now, and the others follow
    have onward : ∀ slot : Slot,
        (∀ results, slot = .done results → ∃ response, CameAtOnce all reply slots.length response ∧
          codec.decode call response = .done results) →
        (slot = .waiting → reply call slots.length = none) →
        Launched codec (CameAtOnce all reply) all (call :: rest)
          (call :: (launch codec all reply (slots ++ [slot]) rest).1)
          (launch codec all reply (slots ++ [slot]) rest).2 := by
      intro slot hslot hnone
      refine (ih (before ++ [call]) (slots ++ [slot]) ?_ ?_ ?_ ?_).cons call
      · rw [hall, List.append_assoc]
        rfl
      · rw [List.length_append, List.length_append, hlen]
        rfl
      · intro k c results hc hs
        rw [List.getElem?_append] at hs
        split at hs
        · exact hdone k c results hc hs
        · rename_i hk
          rw [List.getElem?_singleton] at hs
          split at hs
          · have hks : k = slots.length := by omega
            rw [hks, hcall] at hc
            cases hc
            rw [hks]
            exact hslot results (Option.some.inj hs)
          · cases hs
      · intro k response hs
        have hs' : (slots ++ [slot])[k]? = some .waiting := hs
        rw [List.getElem?_append] at hs'
        split at hs'
        · exact hwaits k response hs'
        · rename_i hk
          rw [List.getElem?_singleton] at hs'
          split at hs'
          · rintro ⟨c, hc, hr⟩
            have hks : k = slots.length := by omega
            rw [hks, hcall] at hc
            cases hc
            rw [hks, hnone (Option.some.inj hs')] at hr
            cases hr
          · cases hs'
    have only : [call] <+: call :: rest := List.cons_prefix_cons.mpr ⟨rfl, List.nil_prefix⟩
    unfold launch
    dsimp only
    split
    · rename_i hnone
      have hwaiting := onward .waiting (fun results h => by cases h) fun _ => hnone
      split
      · exact .failed _ _ only
      · exact hwaiting
    · rename_i outcome houtcome
      split
      · exact .crashed _ only
      · rename_i cause hbind
        have hfailed := onward (.failed cause) (fun results h => by cases h) fun h => by cases h
        split
        · exact .failed _ _ only
        · exact hfailed
      · rename_i results hbind
        have hnow := onward (.done results) (fun results' h => by
          cases h
          obtain ⟨response, rfl, hdecode⟩ := Outcome.bind_eq_done.mp hbind
          exact ⟨response, ⟨call, hcall, houtcome⟩, hdecode⟩) fun h => by cases h
        split
        · exact .failed _ _ only
        · exact hnow

end

/-! ## resuming -/

/-- What an outcome does: nothing, unless its call waits for it. -/
theorem resume_cases {codec : Codec} {came came' : Nat → Json → Prop} {e : Exchange}
    (hb : e.Backed codec came) (index : Nat) (outcome : Outcome Json)
    (hold : ∀ k response, came k response → came' k response)
    (hnew : ∀ response, e.slots[index]? = some .waiting → outcome = .done response →
      came' index response) :
    e.resume codec index outcome = .running e ∨
      e.resume codec index outcome = .ended .crashed ∨
      ∃ slots, Backed codec came' ⟨e.calls, slots⟩ ∧
        e.resume codec index outcome = progress ⟨e.calls, slots⟩ := by
  have hset : ∀ slot : Slot, e.slots[index]? = some .waiting →
      (∀ (call : EncodedCall) (results : List Json), e.calls[index]? = some call →
        slot = .done results →
        ∃ response, came' index response ∧ codec.decode call response = .done results) →
      Backed codec came' ⟨e.calls, e.slots.set index slot⟩ := by
    intro slot hwaiting hslot
    refine ⟨by rw [List.length_set]; exact hb.length, fun k call results hc hs => ?_⟩
    have hs' : (e.slots.set index slot)[k]? = some (.done results) := hs
    rw [List.getElem?_set] at hs'
    split at hs'
    · rename_i hk
      rw [← hk] at hc ⊢
      split at hs'
      · exact hslot call results hc (Option.some.inj hs')
      · cases hs'
    · obtain ⟨response, hcame, hdecode⟩ := hb.done k call results hc hs'
      exact ⟨response, hold k response hcame, hdecode⟩
  unfold resume
  split
  · rename_i call hcall hwaiting
    split
    · exact Or.inr (Or.inl rfl)
    · rename_i cause hbind
      refine Or.inr (Or.inr ⟨_, hset (.failed cause) hwaiting fun c results hc h => ?_, rfl⟩)
      cases h
    · rename_i results hbind
      refine Or.inr (Or.inr ⟨_, hset (.done results) hwaiting fun c results' hc h => ?_, rfl⟩)
      cases h
      rw [hcall] at hc
      cases hc
      obtain ⟨response, rfl, hdecode⟩ := Outcome.bind_eq_done.mp hbind
      exact ⟨response, hnew response hwaiting rfl, hdecode⟩
  · exact Or.inl rfl

theorem resume_running {codec : Codec} {came came' : Nat → Json → Prop} {e e' : Exchange}
    (hb : e.Backed codec came) {index : Nat} {outcome : Outcome Json}
    (hold : ∀ k response, came k response → came' k response)
    (hnew : ∀ response, e.slots[index]? = some .waiting → outcome = .done response →
      came' index response) (h : e.resume codec index outcome = .running e') :
    e'.calls = e.calls ∧ e'.Backed codec came' := by
  obtain hr | hr | ⟨slots, hb', hr⟩ := resume_cases hb index outcome hold hnew
  · rw [hr] at h
    cases h
    exact ⟨rfl, hb.mono hold⟩
  · rw [hr] at h
    cases h
  · rw [hr] at h
    rw [progress_running h]
    exact ⟨rfl, hb'⟩

/-- What is still waited for was waited for before, and is not what came. -/
theorem resume_waits {codec : Codec} {e e' : Exchange} (hlen : e.slots.length = e.calls.length)
    {index : Nat} {outcome : Outcome Json} (h : e.resume codec index outcome = .running e')
    {k : Nat} (hk : e'.slots[k]? = some .waiting) : k ≠ index ∧ e.slots[k]? = some .waiting := by
  have hset : ∀ slot : Slot, slot ≠ .waiting → e' = ⟨e.calls, e.slots.set index slot⟩ →
      k ≠ index ∧ e.slots[k]? = some .waiting := by
    rintro slot hslot rfl
    have hs : (e.slots.set index slot)[k]? = some .waiting := hk
    rw [List.getElem?_set] at hs
    split at hs
    · split at hs
      · exact absurd (Option.some.inj hs) hslot
      · cases hs
    · rename_i hne
      exact ⟨fun heq => hne heq.symm, hs⟩
  unfold resume at h
  split at h
  · split at h
    · cases h
    · exact hset _ (fun hslot => by cases hslot) (progress_running h)
    · exact hset _ (fun hslot => by cases hslot) (progress_running h)
  · rename_i hnot
    cases h
    refine ⟨?_, hk⟩
    rintro rfl
    have hlt : k < e.calls.length := by
      rw [← hlen]
      exact (List.getElem?_eq_some_iff.mp hk).1
    exact hnot _ (List.getElem?_eq_getElem hlt) hk

theorem resume_done {codec : Codec} {came came' : Nat → Json → Prop} {e : Exchange}
    (hb : e.Backed codec came) {index : Nat} {outcome : Outcome Json}
    (hold : ∀ k response, came k response → came' k response)
    (hnew : ∀ response, e.slots[index]? = some .waiting → outcome = .done response →
      came' index response) {requests : List Request} {round : Nat}
    (hencode : codec.encode requests round = .done e.calls) {values : List Json}
    (h : e.resume codec index outcome = .ended (.done values)) :
    values.length = requests.length ∧ Answers codec requests round e.calls came' values := by
  obtain hr | hr | ⟨slots, hb', hr⟩ := resume_cases hb index outcome hold hnew
  · rw [hr] at h
    cases h
  · rw [hr] at h
    cases h
  · rw [hr] at h
    exact progress_done hb' hencode h

end Exchange

namespace Target

/-! ## exchanges of a target -/

/-- A shipment holds the calls for some requests, as they are written in some round, and the headers
of the first one. -/
structure Ships (t : Target) (round : Nat) (items : List Item) (s : Shipment) : Prop where
  encode : t.codec.encode (items.map (·.request)) round = .done s.calls
  headers : ∃ first, items.head? = some first ∧ s.headers = first.caller.headers

theorem prepare_done {t : Target} {now : Int} {round : Nat} {first : Item} {rest : List Item}
    {s : Shipment} (h : t.prepare now round first rest = .done s) :
    t.Ships round (first :: rest) s ∧
      callTimeout t.timeout (earliestDeadline (first :: rest)) now t.padding = .ok s.timeout := by
  obtain ⟨timeout, htimeout, h⟩ := Outcome.bind_eq_done.mp h
  obtain ⟨calls, hencode, hret⟩ := Outcome.bind_eq_done.mp h
  cases hret
  exact ⟨⟨hencode, first, rfl, rfl⟩, Outcome.ofExcept_eq_done.mp htimeout⟩

theorem prepare_of {t : Target} {now : Int} {round : Nat} {first : Item} {rest : List Item}
    {limit : Option Duration} {calls : List EncodedCall}
    (time : callTimeout t.timeout (earliestDeadline (first :: rest)) now t.padding = .ok limit)
    (encode : t.codec.encode ((first :: rest).map (·.request)) round = .done calls) :
    t.prepare now round first rest = .done ⟨first.caller.headers, limit, calls⟩ := by
  unfold prepare
  dsimp only
  rw [time, encode]
  rfl

/-- the responses that are there at once -/
def CameAtOnce (transport : Transport) (called : List Call) (k : Nat) (response : Json) : Prop :=
  ∃ call, called[k]? = some call ∧ transport k call = some (.done response)

theorem cameAtOnce_once {transport : Transport} {called : List Call} {k : Nat}
    {response other : Json} (h : CameAtOnce transport called k response)
    (h' : CameAtOnce transport called k other) : response = other := by
  obtain ⟨call, hcall, hresponse⟩ := h
  obtain ⟨call', hcall', hother⟩ := h'
  rw [hcall] at hcall'
  cases hcall'
  rw [hresponse] at hother
  cases hother
  rfl

/-- What becomes of some requests: no call, or the first calls of a shipment. -/
theorem start_cases (t : Target) (now : Int) (transport : Transport) (items : List Item) :
    (∃ outcome, t.start now transport items = ([], .ended outcome) ∧
      ∀ values, outcome = .done values → items = [] ∧ values = []) ∨
    ∃ s started p, t.Ships transport.round items s ∧
      Exchange.Launched t.codec (CameAtOnce transport (s.calls.map (t.call s))) s.calls s.calls
        started p ∧
      t.start now transport items = (started.map (t.call s), p) := by
  cases items with
  | nil =>
    refine Or.inl ⟨_, rfl, fun values h => ?_⟩
    cases h
    exact ⟨rfl, rfl⟩
  | cons first rest =>
    unfold start
    dsimp only
    split
    · exact Or.inl ⟨_, rfl, fun values h => by cases h⟩
    · exact Or.inl ⟨_, rfl, fun values h => by cases h⟩
    · rename_i s hs
      let reply (c : EncodedCall) (index : Nat) := transport index (t.call s c)
      have hl := Exchange.launch_launched t.codec s.calls reply [] s.calls [] rfl rfl
        (fun k call results _ h => by cases h) fun k response h => by cases h
      have hcame : Exchange.CameAtOnce s.calls reply
          = CameAtOnce transport (s.calls.map (t.call s)) := by
        funext k response
        refine propext ⟨?_, ?_⟩
        · rintro ⟨c, hc, hr⟩
          refine ⟨t.call s c, ?_, hr⟩
          rw [List.getElem?_map, hc]
          rfl
        · rintro ⟨call, hcall, hr⟩
          rw [List.getElem?_map] at hcall
          obtain ⟨c, hc, rfl⟩ := Option.map_eq_some_iff.mp hcall
          exact ⟨c, hc, hr⟩
      rw [hcame] at hl
      exact Or.inr ⟨s, _, _, (prepare_done hs).1, hl, rfl⟩

theorem start_called {t : Target} {now : Int} {transport : Transport} {items : List Item}
    {call : Call} (h : call ∈ (t.start now transport items).1) :
    ∃ s c, t.Ships transport.round items s ∧ c ∈ s.calls ∧ call = t.call s c := by
  obtain ⟨_, hs, _⟩ | ⟨s, started, p, hships, hl, hs⟩ := t.start_cases now transport items
  · rw [hs] at h
    exact absurd h List.not_mem_nil
  · rw [hs] at h
    obtain ⟨c, hc, rfl⟩ := List.mem_map.mp h
    exact ⟨s, c, hships, hl.first.subset hc, rfl⟩

/-- Calls are started with the timeout that the earliest deadline leaves. -/
theorem start_timeout {t : Target} {now : Int} {transport : Transport} {items : List Item}
    {call : Call} (h : call ∈ (t.start now transport items).1) :
    callTimeout t.timeout (earliestDeadline items) now t.padding = .ok call.timeout := by
  cases items with
  | nil => exact absurd h List.not_mem_nil
  | cons first rest =>
    unfold start at h
    dsimp only at h
    split at h
    · exact absurd h List.not_mem_nil
    · exact absurd h List.not_mem_nil
    · rename_i s hs
      obtain ⟨c, _, rfl⟩ := List.mem_map.mp h
      exact (prepare_done hs).2

/-- Nothing is started when the earliest deadline leaves no time. -/
theorem start_late {t : Target} {now : Int} {transport : Transport} {items : List Item}
    {cause : Error} (h : callTimeout t.timeout (earliestDeadline items) now t.padding = .error cause)
    (some : items ≠ []) : t.start now transport items = ([], .ended (.failed cause)) := by
  cases items with
  | nil => exact absurd rfl some
  | cons first rest =>
    have hprepare : t.prepare now transport.round first rest = .failed cause := by
      unfold prepare
      dsimp only
      rw [h]
      rfl
    unfold start
    dsimp only
    rw [hprepare]

/-- Nor is anything started when its calls cannot be written. -/
theorem start_unwritten {t : Target} {now : Int} {transport : Transport} {items : List Item}
    {limit : Option Duration} {cause : Error}
    (time : callTimeout t.timeout (earliestDeadline items) now t.padding = .ok limit)
    (encode : t.codec.encode (items.map (·.request)) transport.round = .failed cause)
    (some : items ≠ []) :
    t.start now transport items = ([], .ended (.failed cause)) := by
  cases items with
  | nil => exact absurd rfl some
  | cons first rest =>
    have hprepare : t.prepare now transport.round first rest = .failed cause := by
      unfold prepare
      dsimp only
      rw [time, encode]
      rfl
    unfold start
    dsimp only
    rw [hprepare]

theorem start_running {t : Target} {now : Int} {transport : Transport} {items : List Item}
    {called : List Call} {e : Exchange}
    (h : t.start now transport items = (called, .running e)) :
    ∃ s, t.Ships transport.round items s ∧ e.calls = s.calls ∧ called = e.calls.map (t.call s) ∧
      e.Backed t.codec (CameAtOnce transport called) ∧ e.Awaits (CameAtOnce transport called) := by
  obtain ⟨_, hs, _⟩ | ⟨s, started, p, hships, hl, hs⟩ := t.start_cases now transport items
  · rw [hs] at h
    cases h
  · rw [hs] at h
    obtain ⟨rfl, hp⟩ := Prod.mk.inj h
    cases hl with
    | failed _ cause _ => cases hp
    | crashed _ _ => cases hp
    | through slots hb hwaits =>
      rw [Exchange.progress_running hp]
      exact ⟨s, hships, rfl, rfl, hb, hwaits⟩

theorem start_done {t : Target} {now : Int} {transport : Transport} {items : List Item}
    {called : List Call} {values : List Json}
    (h : t.start now transport items = (called, .ended (.done values))) :
    values.length = items.length ∧ (items ≠ [] → ∃ s, t.Ships transport.round items s ∧
      called = s.calls.map (t.call s) ∧
      Exchange.Answers t.codec (items.map (·.request)) transport.round s.calls
        (CameAtOnce transport called) values) := by
  obtain ⟨outcome, hs, hnothing⟩ | ⟨s, started, p, hships, hl, hs⟩ :=
    t.start_cases now transport items
  · rw [hs] at h
    cases h
    obtain ⟨rfl, rfl⟩ := hnothing values rfl
    exact ⟨rfl, fun hne => absurd rfl hne⟩
  · rw [hs] at h
    obtain ⟨rfl, hp⟩ := Prod.mk.inj h
    cases hl with
    | failed _ cause _ => cases hp
    | crashed _ _ => cases hp
    | through slots hb hwaits =>
      obtain ⟨hlen, hanswers⟩ := Exchange.progress_done hb hships.encode hp
      rw [List.length_map] at hlen
      exact ⟨hlen, fun _ => ⟨s, hships, rfl, hanswers⟩⟩

end Target

end Coalesce
