import Coalesce.Caller
import Coalesce.Proofs.Deadline
import Mathlib.Order.Lattice.Nat
import Mathlib.Order.WithBot

/-!
# How long calls may take

* `remaining_eq`             what is left until a deadline is what unbounded arithmetic leaves, down
                             to the earliest moment;
* `Deadline.after_eq`        a budget ends when it is used up, or at the latest moment;
* `callTimeout_exact`        so timeouts are exact over the whole range of moments;
* `Deadline.NoLater`         the order of deadlines, in which none is the last;
* `Deadline.aggregate_congr`, `Deadline.aggregate_flatten`
                             the earliest deadline depends on what is in a list alone, and may be
                             found group by group;
* `allowance`                longest times by their length, in which none is beyond all;
* `callTimeout_mono`         a later deadline leaves no less time;
* `callTimeout_together`     so requests that travel together have the least of their timeouts.

Two subtractions stop at the earliest moment one after the other.  That does no harm as long as
neither the clock nor the reserve is negative: from there on nothing is ever added back.
-/

namespace Coalesce

/-! ## exact arithmetic -/

/-- Every reading of the clock is a moment, and none is before the epoch. -/
theorem Deadline.clockMillis_within (nanos : Int) :
    0 ≤ clockMillis nanos ∧ clockMillis nanos ≤ Word.signedMax := by
  have hmax := Word.signedMax_pos
  unfold clockMillis
  split
  · omega
  · rw [Word.clamp_of_nonneg (by omega)]
    omega

section
variable {now padding : Int}

theorem remaining_eq (clock : 0 ≤ now) (reserve : 0 ≤ padding) {d : Int}
    (late : d ≤ Word.signedMax) :
    remaining d now padding = max (d - now - padding) Word.signedMin := by
  have hmin := Word.signedMin_neg
  have hmax := Word.signedMax_pos
  unfold remaining
  rw [Word.clamp_of_le (i := d - now) (by omega), Word.clamp_of_le (by omega)]
  omega

theorem Deadline.after_eq (clock : 0 ≤ now) (budget : Duration) :
    now + min (budget.millis : Int) (Word.signedMax - now) = after now budget := by
  have hmax := Word.signedMax_pos
  unfold after
  rw [Word.clamp_of_nonneg (i := (budget.millis : Int)) (by omega), Word.clamp_of_nonneg (by omega)]
  omega

end

/-- a time, cut down to the longest one if there is one -/
def atMost : Option Duration → Duration → Duration
  | none, time => time
  | some most, time => most.least time

section
variable {longest : Option Duration} {d now padding : Int}

theorem callTimeout_spent (spent : remaining d now padding < 0) :
    callTimeout longest (some d) now padding = .error (.timeout d (remaining d now padding)) :=
  callTimeout_error.mpr ⟨d, rfl, spent, rfl⟩

theorem callTimeout_left (left : 0 ≤ remaining d now padding) :
    callTimeout longest (some d) now padding
      = .ok (some (atMost longest (.ofMillis (remaining d now padding).toNat))) := by
  have habs : (remaining d now padding).natAbs = (remaining d now padding).toNat := by omega
  unfold callTimeout
  dsimp only
  rw [if_neg (Int.not_lt.mpr left), habs]
  cases longest <;> rfl

end

/-- **Timeouts are exact.**  A call without a deadline may take the longest time.  With a deadline,
let `r` be what unbounded arithmetic leaves until then, less the reserve: there is no time for a
call just if `r` is negative, and the error tells the deadline and `r`, or the earliest moment if
`r` is earlier still; otherwise a call may take `r` milliseconds, and no more than the longest time.
If the deadline is the end of a budget that starts now, then `r` is the whole milliseconds of the
budget, or of what lies between now and the latest moment, less the reserve. -/
theorem callTimeout_exact (now padding : Int) (clock : 0 ≤ now) (reading : now ≤ Word.signedMax)
    (reserve : 0 ≤ padding) (fits : padding ≤ Word.signedMax) :
    (∀ longest, callTimeout longest none now padding = .ok longest) ∧
    (∀ d : Int, d ≤ Word.signedMax →
      (d - now - padding < 0 → ∀ longest, callTimeout longest (some d) now padding
        = .error (.timeout d (max (d - now - padding) Word.signedMin))) ∧
      (0 ≤ d - now - padding →
        callTimeout none (some d) now padding
          = .ok (some (.ofMillis (d - now - padding).toNat)) ∧
        ∀ most : Duration, callTimeout (some most) (some d) now padding
          = .ok (some ⟨min most.nanos (Duration.ofMillis (d - now - padding).toNat).nanos⟩))) ∧
    ∀ budget : Duration,
      (min (budget.millis : Int) (Word.signedMax - now) < padding →
        callTimeout none (some (Deadline.after now budget)) now padding
          = .error (.timeout (Deadline.after now budget)
              (min (budget.millis : Int) (Word.signedMax - now) - padding))) ∧
      (padding ≤ min (budget.millis : Int) (Word.signedMax - now) →
        callTimeout none (some (Deadline.after now budget)) now padding
          = .ok (some (.ofMillis
              (min (budget.millis : Int) (Word.signedMax - now) - padding).toNat))) := by
  have hearliest : Word.signedMin < 0 - Word.signedMax := by decide
  refine ⟨fun _ => rfl, fun d late => ?_, fun budget => ?_⟩
  · have hleft := remaining_eq clock reserve late
    refine ⟨fun spent longest => ?_, fun left => ?_⟩
    · rw [← hleft]
      exact callTimeout_spent (by omega)
    · have hexact : remaining d now padding = d - now - padding := by omega
      rw [← hexact] at left ⊢
      exact ⟨callTimeout_left left, fun _ => callTimeout_left left⟩
  · rw [← Deadline.after_eq clock budget]
    -- the end of the budget is a moment again, so nothing is lost on the way back
    have hleft := remaining_eq clock reserve
      (d := now + min (budget.millis : Int) (Word.signedMax - now)) (by omega)
    have hexact : remaining (now + min (budget.millis : Int) (Word.signedMax - now)) now padding
        = min (budget.millis : Int) (Word.signedMax - now) - padding := by omega
    rw [← hexact]
    exact ⟨fun spent => callTimeout_spent (by omega), fun left => callTimeout_left (by omega)⟩

/-- at both ends: the earliest deadline with the largest reserve, as late as a clock can read, and
an endless budget -/
theorem callTimeout_exact_ends :
    let now := Deadline.clockMillis 20000000000000000000000000
    let padding := Word.signedMax
    (0 ≤ now ∧ now ≤ Word.signedMax ∧ 0 ≤ padding ∧ padding ≤ Word.signedMax) ∧
      (Word.signedMin ≤ Word.signedMax ∧ Word.signedMin - now - padding < 0 ∧
        callTimeout (some (.ofMillis 7)) (some Word.signedMin) now padding
          = .error (.timeout Word.signedMin Word.signedMin)) ∧
      callTimeout none (some (Deadline.after 1000 (.ofMillis 20000000000000000000))) 1000 5
        = .ok (some (.ofMillis 9223372036854774802)) := by
  intro now padding
  have hclock := Deadline.clockMillis_within 20000000000000000000000000
  have hreserve : 0 ≤ padding := by decide
  have hspent : Word.signedMin - now - padding < 0 := by decide
  obtain ⟨_, hdeadline, _⟩ :=
    callTimeout_exact now padding hclock.1 hclock.2 hreserve (Int.le_refl _)
  have herror := (hdeadline Word.signedMin (by decide)).1 hspent (some (.ofMillis 7))
  rw [show max (Word.signedMin - now - padding) Word.signedMin = Word.signedMin by decide] at herror
  obtain ⟨_, _, hbudget⟩ :=
    callTimeout_exact 1000 5 (by decide) (by decide) (by decide) (by decide)
  exact ⟨⟨hclock.1, hclock.2, hreserve, Int.le_refl _⟩, ⟨by decide, hspent, herror⟩,
    (hbudget (.ofMillis 20000000000000000000)).2 (by decide)⟩

/-! ## the order of deadlines -/

namespace Deadline

/-- no later than another, where none is later than all -/
def NoLater : Option Deadline → Option Deadline → Prop
  | _, none => True
  | some a, some b => a ≤ b
  | none, some _ => False

theorem NoLater.antisymm {a b : Option Deadline} (hab : NoLater a b) (hba : NoLater b a) :
    a = b := by
  cases a with
  | none =>
    cases b with
    | none => rfl
    | some b => exact hab.elim
  | some a =>
    cases b with
    | none => exact hba.elim
    | some b => exact congrArg some (Int.le_antisymm hab hba)

variable (a b c : Option Deadline)

theorem earliest_none : earliest a none = a := by cases a <;> rfl

theorem none_earliest : earliest none a = a := by cases a <;> rfl

theorem earliest_self : earliest a a = a := by
  cases a with
  | none => rfl
  | some a => exact congrArg some (Int.min_self a)

theorem earliest_comm : earliest a b = earliest b a := by
  cases a with
  | none => rw [none_earliest, earliest_none]
  | some a =>
    cases b with
    | none => rfl
    | some b => exact congrArg some (Int.min_comm a b)

theorem earliest_assoc : earliest (earliest a b) c = earliest a (earliest b c) := by
  cases a with
  | none => rw [none_earliest, none_earliest]
  | some a =>
    cases b with
    | none => rw [earliest_none, none_earliest]
    | some b =>
      cases c with
      | none => rw [earliest_none, earliest_none]
      | some c => exact congrArg some (Int.min_assoc a b c)

variable {a b c} {ds es : List (Option Deadline)}

theorem aggregate_append : aggregate (ds ++ es) = earliest (aggregate ds) (aggregate es) := by
  induction es using List.reverseRecOn with
  | nil => rw [List.append_nil, aggregate_nil, earliest_none]
  | append_singleton es d ih =>
    rw [← List.append_assoc, aggregate_snoc, aggregate_snoc, ih, earliest_assoc]

theorem aggregate_cons {d : Option Deadline} : aggregate (d :: ds) = earliest d (aggregate ds) := by
  have hone : aggregate [d] = d := none_earliest d
  rw [← List.singleton_append, aggregate_append, hone]

/-- Deadlines may be aggregated group by group. -/
theorem aggregate_flatten (groups : List (List (Option Deadline))) :
    aggregate (groups.map aggregate) = aggregate groups.flatten := by
  induction groups with
  | nil => rfl
  | cons ds groups ih =>
    rw [List.map_cons, aggregate_cons, ih, List.flatten_cons, aggregate_append]

theorem aggregate_mem (nonempty : ds ≠ []) : aggregate ds ∈ ds := by
  cases h : aggregate ds with
  | none =>
    obtain ⟨d, hd⟩ := List.exists_mem_of_ne_nil ds nonempty
    rw [aggregate_eq_none.mp h d hd] at hd
    exact hd
  | some m => exact (aggregate_some h).1

theorem aggregate_noLater {d : Option Deadline} (hd : d ∈ ds) : NoLater (aggregate ds) d := by
  cases d with
  | none => exact trivial
  | some d =>
    cases h : aggregate ds with
    | none => cases aggregate_eq_none.mp h _ hd
    | some m => exact (aggregate_some h).2 d hd

/-- Neither the order of deadlines nor how often they occur makes a difference. -/
theorem aggregate_congr (same : ∀ d, d ∈ ds ↔ d ∈ es) : aggregate ds = aggregate es := by
  by_cases hds : ds = []
  · have hes : es = [] := List.eq_nil_iff_forall_not_mem.mpr fun d hd => by
      rw [← same, hds] at hd
      exact absurd hd List.not_mem_nil
    rw [hds, hes]
  · have hes : es ≠ [] := fun hnil => by
      have hmem := (same _).mp (aggregate_mem hds)
      rw [hnil] at hmem
      exact absurd hmem List.not_mem_nil
    exact (aggregate_noLater ((same _).mpr (aggregate_mem hes))).antisymm
      (aggregate_noLater ((same _).mp (aggregate_mem hds)))

end Deadline

/-! ## requests that travel together -/

/-- the length of a longest time, which is beyond all lengths if there is none -/
def allowance : Option Duration → WithTop Nat
  | none => ⊤
  | some d => WithTop.some d.nanos

theorem allowance_atMost (longest : Option Duration) (time : Duration) :
    allowance (some (atMost longest time)) = min (allowance longest) (allowance (some time)) := by
  cases longest with
  | none => exact (min_eq_right le_top).symm
  | some most => exact WithTop.coe_min most.nanos time.nanos

section
variable {longest limit : Option Duration} {a b : Option Deadline} {now padding : Int}

theorem remaining_mono {d e : Int} (h : d ≤ e) :
    remaining d now padding ≤ remaining e now padding := by
  have hinner : Word.clamp (d - now) ≤ Word.clamp (e - now) := Word.clamp_mono (by omega)
  exact Word.clamp_mono (by omega)

/-- A later deadline leaves no less time. -/
theorem callTimeout_mono (order : Deadline.NoLater a b)
    (h : callTimeout longest a now padding = .ok limit) :
    ∃ later, callTimeout longest b now padding = .ok later ∧
      allowance limit ≤ allowance later := by
  obtain ⟨rfl, rfl⟩ | ⟨d, rfl, left, _⟩ := callTimeout_ok h
  · cases b with
    | none => exact ⟨limit, rfl, le_refl _⟩
    | some e => exact order.elim
  · rw [callTimeout_left left] at h
    cases h
    cases b with
    | none =>
      refine ⟨longest, rfl, ?_⟩
      rw [allowance_atMost]
      exact min_le_left _ _
    | some e =>
      have hmono : remaining d now padding ≤ remaining e now padding := remaining_mono order
      refine ⟨_, callTimeout_left (Int.le_trans left hmono), ?_⟩
      rw [allowance_atMost, allowance_atMost]
      refine min_le_min (le_refl _) (WithTop.coe_le_coe.mpr ?_)
      exact Nat.mul_le_mul_right _ (Int.toNat_le_toNat hmono)

end

/-- **Requests that travel together have the least of their timeouts.**  There is no time for them
just if there is none for one of them alone.  Otherwise their timeout is that of one of them, and no
other has a shorter one, where no timeout counts as the longest.  It depends on nothing but which
requests they are: not on their order, on how often they are listed, or on how they are put into
groups whose earliest deadlines are then compared.  For the earlier one of two deadlines is found by
an operation that is associative, commutative and idempotent, with no deadline as its identity. -/
theorem callTimeout_together (items : List Item) (nonempty : items ≠ [])
    (longest : Option Duration) (now padding : Int) :
    ((∃ cause, callTimeout longest (earliestDeadline items) now padding = .error cause) ↔
      ∃ i ∈ items, ∃ cause, callTimeout longest i.deadline now padding = .error cause) ∧
    (∀ limit, callTimeout longest (earliestDeadline items) now padding = .ok limit →
      (∃ i ∈ items, callTimeout longest i.deadline now padding = .ok limit) ∧
      ∀ i ∈ items, ∃ own, callTimeout longest i.deadline now padding = .ok own ∧
        allowance limit ≤ allowance own) ∧
    (∀ others : List Item, (∀ i, i ∈ others ↔ i ∈ items) →
      earliestDeadline others = earliestDeadline items) ∧
    (∀ groups : List (List Item), (∀ i, i ∈ groups.flatten ↔ i ∈ items) →
      Deadline.aggregate (groups.map earliestDeadline) = earliestDeadline items) ∧
    ∀ a b c : Option Deadline,
      Deadline.earliest (Deadline.earliest a b) c = Deadline.earliest a (Deadline.earliest b c) ∧
      Deadline.earliest a b = Deadline.earliest b a ∧
      Deadline.earliest a a = a ∧
      Deadline.earliest a none = a ∧ Deadline.earliest none a = a := by
  have hsome : items.map Item.deadline ≠ [] := fun h => nonempty (List.map_eq_nil_iff.mp h)
  obtain ⟨first, hfirst, hdeadline⟩ := List.mem_map.mp (Deadline.aggregate_mem hsome)
  have horder : ∀ i ∈ items, Deadline.NoLater (earliestDeadline items) i.deadline :=
    fun i hi => Deadline.aggregate_noLater (List.mem_map_of_mem hi)
  have hsame : ∀ others : List Item, (∀ i, i ∈ others ↔ i ∈ items) →
      earliestDeadline others = earliestDeadline items := fun others same =>
    Deadline.aggregate_congr fun d => by simp only [List.mem_map, same]
  refine ⟨⟨fun ⟨cause, h⟩ => ⟨first, hfirst, cause, ?_⟩, fun ⟨i, hi, cause, h⟩ => ?_⟩,
    fun limit h => ⟨⟨first, hfirst, ?_⟩, fun i hi => callTimeout_mono (horder i hi) h⟩,
    hsame, fun groups same => ?_, fun a b c => ⟨Deadline.earliest_assoc a b c,
      Deadline.earliest_comm a b, Deadline.earliest_self a, Deadline.earliest_none a,
      Deadline.none_earliest a⟩⟩
  · rw [hdeadline]
    exact h
  · cases htogether : callTimeout longest (earliestDeadline items) now padding with
    | error cause => exact ⟨cause, rfl⟩
    | ok limit =>
      -- a request without time would have some, as its deadline is no earlier
      obtain ⟨own, hown, _⟩ := callTimeout_mono (horder i hi) htogether
      rw [h] at hown
      cases hown
  · rw [hdeadline]
    exact h
  · have hgroups : groups.map earliestDeadline
        = (groups.map (·.map Item.deadline)).map Deadline.aggregate := by
      rw [List.map_map]
      rfl
    rw [hgroups, Deadline.aggregate_flatten, ← List.map_flatten]
    exact hsame groups.flatten same

/-- an override, a caller without a deadline, and one whose deadline comes first -/
theorem callTimeout_together_mixed :
    let item (deadline override : Option Deadline) : Item :=
      { request := default, caller := ⟨[], deadline, default⟩, override }
    let items := [item (some 500) (some 900), item none none, item (some 700) none]
    items ≠ [] ∧
      callTimeout (some (.ofMillis 2000)) (earliestDeadline items) 400 5
        = .ok (some (.ofMillis 295)) ∧
      (∀ i ∈ items, ∃ own, callTimeout (some (.ofMillis 2000)) i.deadline 400 5 = .ok own ∧
        allowance (some (.ofMillis 295)) ≤ allowance own) ∧
      Deadline.aggregate ([[item none none, item (some 700) none], [],
        [item (some 700) none, item (some 500) (some 900)]].map earliestDeadline)
          = earliestDeadline items := by
  intro item items
  have hsome : items ≠ [] := List.cons_ne_nil _ _
  have htogether : callTimeout (some (.ofMillis 2000)) (earliestDeadline items) 400 5
      = .ok (some (.ofMillis 295)) := by decide
  obtain ⟨_, hleast, _, hgroups, _⟩ :=
    callTimeout_together items hsome (some (.ofMillis 2000)) 400 5
  refine ⟨hsome, htogether, (hleast _ htogether).2, hgroups _ fun i => ?_⟩
  simp only [items, List.flatten_cons, List.flatten_nil, List.mem_append, List.mem_cons,
    List.not_mem_nil, or_false]
  grind

end Coalesce
