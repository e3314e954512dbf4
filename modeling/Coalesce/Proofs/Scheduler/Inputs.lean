import Coalesce.Proofs.Interleaving
import Coalesce.Proofs.Scheduler.Clock

/-!
# What windows and batches depend on

* `Scheduler.windowLog`      requests and flushes by hand, and the timers that close windows;
* `Scheduler.leaveLog`       callers that leave, and the windows that are taken;
* `Scheduler.Timed.windows`, `Scheduler.Timed.cuts`
                             the first log tells all windows that are flushed, and the second
                             one all batches;
* `Scheduler.Timed.forces`   timers fire as they have to;
* `Scheduler.Timed.served_alike`
                             runs with the same inputs serve the same batches at the same readings.
-/

namespace Coalesce

namespace Scheduler

/-! ## logs of a run -/

/-- A request comes in, or the window is flushed by hand; or its timer closes it. -/
def Moment.turn? (m : Moment) : Option (Option Pending ⊕ Unit) :=
  match m.event with
  | .submit p => some (.inl (some p))
  | .flush => some (.inl none)
  | .expire generation =>
    if (m.state.timers.any fun t => t.generation = generation) ∧ generation = m.state.generation then
      some (.inr ())
    else none
  | _ => none

def windowLog (past : List (Nat × Moment)) : Log (Option Pending) Unit := stamped Moment.turn? past

/-- A caller leaves; or a window is taken. -/
def Moment.cut? (m : Moment) : Option (Nat ⊕ Flush) :=
  match m.event with
  | .leave ticket => some (.inl ticket)
  | _ => m.taking?.map .inr

def leaveLog (past : List (Nat × Moment)) : Log Nat Flush := stamped Moment.cut? past

/-! ## windows -/

section
variable (c : Scheduler)

def windowAfter (w : List Pending) : Option Pending ⊕ Unit → List Pending
  | .inl (some p) => if c.settings.waitQueries ≤ (w ++ [p]).length then [] else w ++ [p]
  | _ => []

def closedBy (w : List Pending) : Option Pending ⊕ Unit → List Flush
  | .inl (some p) => (if c.settings.waitQueries ≤ (w ++ [p]).length then
      some (⟨.size, w ++ [p]⟩ : Flush) else none).toList.filter Flush.filled
  | .inl none => [(⟨.manual, w⟩ : Flush)].filter Flush.filled
  | .inr () => [(⟨.timer, w⟩ : Flush)].filter Flush.filled

theorem step_window (s : State) (e : Event) :
    (c.step s e).1.pending = (Moment.turn? ⟨s, e⟩).elim s.pending (c.windowAfter s.pending) := by
  have other : ¬ e.ofWindow → (c.step s e).1.pending = s.pending := fun hother =>
    ((c.step_change s e).leaves_window hother).1
  cases e with
  | submit p =>
    show (c.submit p s).1.pending = if c.settings.waitQueries ≤ _ then [] else s.pending ++ [p]
    rw [submit_eq]
    split
    · exact (c.close_window .size { s with pending := s.pending ++ [p] }).1
    · split <;> rfl
  | expire generation =>
    show (c.expire generation s).1.pending = (if _ then _ else _ : Option _).elim _ _
    rw [expire_eq]
    by_cases hany : (s.timers.any fun t => t.generation = generation) = true
    · rw [if_pos hany]
      by_cases hcurrent : generation = s.generation
      · rw [if_pos hcurrent, if_pos ⟨hany, hcurrent⟩]
        exact (c.close_window .timer _).1
      · rw [if_neg hcurrent, if_neg fun h => hcurrent h.2]
        rfl
    · rw [if_neg hany, if_neg fun h => hany h.1]
      rfl
  | flush => exact (c.close_window .manual s).1
  | leave ticket => rfl
  | take now => exact other Bool.false_ne_true
  | serve now transport => exact other Bool.false_ne_true
  | finish id call outcome => exact other Bool.false_ne_true

theorem flushed_turn (s : State) (e : Event) :
    Moment.flushed c ⟨s, e⟩ = (Moment.turn? ⟨s, e⟩).elim [] (c.closedBy s.pending) := by
  cases e with
  | expire generation =>
    unfold Moment.flushed Moment.closing? Moment.turn?
    dsimp only
    split <;> rfl
  | _ => rfl

end

section
variable {c : Scheduler} {wall : Nat → Int} {past : List (Nat × Moment)} {t : Nat} {s : State}

/-- All windows are told by what comes in and by the timers. -/
theorem Timed.windows (h : c.Timed wall past t s) :
    after c.windowAfter [] (windowLog past) = s.pending ∧
      replay c.windowAfter (fun w _ => c.closedBy w) [] (windowLog past) = c.flushesAt past :=
  h.replayed Moment.turn? State.pending c.windowAfter (fun w _ => c.closedBy w)
    (Moment.flushed c) c.step_window fun _ s e _ => c.flushed_turn s e

/-- A timer that closes the window is due, and the window is not empty. -/
theorem due_of_turn {m : Moment} (armed : c.Armed m.state)
    (fits : m.event.Fits wall t m.state) (turn : m.turn? = some (.inr ())) :
    ∃ first, m.state.pending.head? = some first ∧ first.arrived + c.settings.waitMillis ≤ t := by
  obtain ⟨s, e⟩ := m
  cases e with
  | expire generation =>
    unfold Moment.turn? at turn
    dsimp only at turn
    split at turn
    · rename_i hfires
      obtain ⟨hany, hcurrent⟩ := hfires
      obtain ⟨timer, htimer, hgeneration⟩ := List.any_eq_true.mp hany
      have hgeneration : timer.generation = generation := of_decide_eq_true hgeneration
      obtain ⟨first, hfirst, hdue⟩ :=
        armed.current timer htimer (hgeneration.trans hcurrent)
      have hle : timer.due ≤ t := fits timer htimer hgeneration
      exact ⟨first, hfirst, hdue ▸ hle⟩
    · cases turn
  | submit p => cases turn
  | flush => cases turn
  | leave ticket => cases turn
  | take now => cases turn
  | serve now transport => cases turn
  | finish id call outcome => cases turn

/-- **Timers fire as they have to.**  Where a timer closes the window in one run, it does so in any
other run that is alike so far, unless something comes in first there, and no later. -/
theorem Timed.forces (h : c.Timed wall past t s) (ended : ∀ x ∈ past, x.1 < t)
    {past' : List (Nat × Moment)} {s' : State} (h' : c.Timed wall past' t s') :
    (windowLog past).Forces (windowLog past') := by
  intro before rest u turn hlog hbefore
  obtain ⟨first, m, more, rfl, hfirst, hturn⟩ := stamped_split hlog
  obtain ⟨hrun, hfits⟩ := h.around
  obtain ⟨harmed, hopen⟩ := hrun.open
  obtain ⟨q, hq, hdue⟩ := due_of_turn harmed hfits hturn
  have hlate : u < t := ended _ (List.mem_append_right _ List.mem_cons_self)
  have hwindow : (after c.windowAfter [] before).head? = some q := by
    rw [← hfirst]
    exact hrun.windows.1 ▸ hq
  -- wherever the other run is as far, the clock is not past this timer
  have hclock : ∀ {past₂ : List (Nat × Moment)} {v : Nat} {s₂ : State}, c.Timed wall past₂ v s₂ →
      windowLog past₂ = before → v ≤ q.arrived + c.settings.waitMillis := by
    intro past₂ v s₂ hrun₂ hsame
    refine hrun₂.open.2 q ?_
    rw [← hrun₂.windows.1, hsame]
    exact hwindow
  obtain ⟨tail, htail⟩ := hbefore
  cases tail with
  | nil =>
    have := hclock h' (by rw [← htail, List.append_nil])
    omega
  | cons y tail =>
    obtain ⟨v, y⟩ := y
    obtain ⟨first', m', more', rfl, hfirst', hturn'⟩ := stamped_split htail.symm
    obtain ⟨hrun', hfits'⟩ := h'.around
    have hle := hclock hrun' hfirst'
    cases y with
    | inl i => exact Or.inr ⟨v, i, tail, htail.symm, by omega⟩
    | inr done =>
      obtain ⟨q', hq', hdue'⟩ := due_of_turn hrun'.open.1 hfits' hturn'
      have hsame : q' = q := by
        have hwindow' : (after c.windowAfter [] before).head? = some q' := by
          rw [← hfirst']
          exact hrun'.windows.1 ▸ hq'
        exact Option.some.inj (hwindow'.symm.trans hwindow)
      have hopen' := hopen q hq
      rw [hsame] at hdue'
      obtain rfl : v = u := by omega
      exact Or.inl ⟨tail, htail.symm⟩

end

/-! ## batches -/

section
variable (c : Scheduler) (wall : Nat → Int)

def leftAfter (left : List Nat) : Nat ⊕ Flush → List Nat
  | .inl ticket => ticket :: left
  | .inr _ => left

def cutInto (left : List Nat) (t : Nat) : Nat ⊕ Flush → List (List Pending)
  | .inl _ => []
  | .inr f => c.batches (f.items.filter (c.live left (wall t)))

theorem step_left_cut (s : State) (e : Event) :
    (c.step s e).1.left = (Moment.cut? ⟨s, e⟩).elim s.left (leftAfter s.left) := by
  rw [c.step_left]
  unfold Moment.cut?
  cases e with
  | leave ticket => rfl
  | _ =>
    dsimp only
    cases Moment.taking? _ <;> rfl

theorem formed_cut {t : Nat} {s : State} {e : Event} (fits : e.Fits wall t s) :
    Moment.formed c ⟨s, e⟩ = (Moment.cut? ⟨s, e⟩).elim [] (c.cutInto wall s.left t) := by
  cases htaking : Moment.taking? ⟨s, e⟩ with
  | some f =>
    obtain ⟨now, takes⟩ := taking?_eq_some htaking
    have hcut : Moment.cut? ⟨s, e⟩ = some (.inr f) := by
      obtain rfl : e = .take now := takes.event
      exact congrArg (Option.map Sum.inr) htaking
    rw [hcut, takes.formed_live, takes.on_clock fits]
    rfl
  | none =>
    have hformed : Moment.formed c ⟨s, e⟩ = [] := by
      refine List.eq_nil_iff_forall_not_mem.mpr fun b hb => ?_
      obtain ⟨now, f, takes⟩ := takes_of_formed hb
      rw [takes.taking] at htaking
      cases htaking
    rw [hformed]
    unfold Moment.cut?
    cases e with
    | leave ticket => rfl
    | _ => rw [htaking]; rfl

end

section
variable {c : Scheduler} {wall : Nat → Int} {past : List (Nat × Moment)} {t : Nat} {s : State}

/-- All batches are told by the windows that are taken and by the callers that leave. -/
theorem Timed.cuts (h : c.Timed wall past t s) :
    replay leftAfter (c.cutInto wall) [] (leaveLog past) = c.formedAt past :=
  (h.replayed Moment.cut? State.left leftAfter (c.cutInto wall) (Moment.formed c) c.step_left_cut
    fun _ _ _ fits => c.formed_cut wall fits).2

theorem leaveLog_moves (past : List (Nat × Moment)) : (leaveLog past).moves = takenAt past := by
  refine (stamped_stamped Sum.getRight? Moment.cut? past).trans (congrArg (stamped · past) ?_)
  funext m
  unfold Moment.cut?
  split
  · rename_i ticket hevent
    unfold Moment.taking?
    rw [hevent]
    rfl
  · cases m.taking? <;> rfl

/-- What comes in at a scheduler is the same in two runs: requests and flushes by hand, placed among
the timers that fire at their readings, and callers that leave, placed among the windows that are
taken at their readings. -/
structure Alike (past past' : List (Nat × Moment)) : Prop where
  requests : (windowLog past).placed = (windowLog past').placed
  leaves : (leaveLog past).placed = (leaveLog past').placed

theorem Timed.served_alike (h : c.Timed wall past t s) (ended : ∀ x ∈ past, x.1 < t)
    (calm : c.Calm past) {past' : List (Nat × Moment)} {s' : State} (h' : c.Timed wall past' t s')
    (ended' : ∀ x ∈ past', x.1 < t) (calm' : c.Calm past') (same : Alike past past') :
    servedAt past = servedAt past' := by
  obtain ⟨htaken, hserved⟩ := h.at_rest calm (h.rests ended)
  obtain ⟨htaken', hserved'⟩ := h'.at_rest calm' (h'.rests ended')
  have hwindows : windowLog past = windowLog past' :=
    Log.unique (stamped_sorted h.sorted) (stamped_sorted h'.sorted) (h.forces ended h')
      (h'.forces ended' h) same.requests
  have hmoves : (leaveLog past).moves = (leaveLog past').moves := by
    rw [leaveLog_moves, leaveLog_moves, htaken, htaken', ← h.windows.2, ← h'.windows.2, hwindows]
  have hleaves : leaveLog past = leaveLog past' :=
    Log.unique (stamped_sorted h.sorted) (stamped_sorted h'.sorted)
      (Log.forces_of_moves (stamped_sorted h'.sorted) hmoves)
      (Log.forces_of_moves (stamped_sorted h.sorted) hmoves.symm) same.leaves
  rw [hserved, hserved', ← h.cuts, ← h'.cuts, hleaves]

end

end Scheduler

end Coalesce
