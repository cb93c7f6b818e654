import AuditChain.Masternode.StatusLoop
/-!
# The status loop polls on schedule

While a loop waits, its timer is set to a multiple of its period, its channel is empty, and it has polled at all
multiples before that one. Its own polls keep it so, and so does every event that does not stop it, whatever it
wakes the loop for (`Waiting.tick`, `Waiting.meet`). The first event that stops it finds it waiting, and after
that it does nothing.
-/

namespace AuditChain.Masternode

namespace StatusLoop

/-! ## The schedule -/

/-- The event ends the loop. -/
def Event.stops : Event → Bool
  | send value => value
  | drop => true
  | _ => false

/-- The event happens on the shutdown channel. -/
def Event.onChannel : Event → Bool
  | send _ | drop => true
  | _ => false

theorem Event.onChannel_of_stops {e : Event} (h : e.stops = true) : e.onChannel = true := by
  cases e with
  | send | drop => rfl
  | synced | reachable | change | look => cases h

/-- The multiples of a period before a time. -/
def ticks (period time : Nat) : List Nat := (List.range time).filter (period ∣ ·)

/-- No multiple of the period lies between two neighbouring ones. -/
theorem ticks_eq_of_gap {period time due : Nat} (hgrid : period ∣ due) (hle : time ≤ due) (hlt : due < time + period) :
    ticks period time = ticks period due := by
  have hnone : ((List.range (due - time)).map (time + ·)).filter (period ∣ ·) = [] := by
    rw [List.filter_eq_nil_iff]
    intro t ht
    obtain ⟨i, hi, rfl⟩ := List.mem_map.1 ht
    rw [List.mem_range] at hi
    intro hdvd
    have hrest : period ∣ due - (time + i) := Nat.dvd_sub hgrid (of_decide_eq_true hdvd)
    have := Nat.le_of_dvd (by omega) hrest
    omega
  have hdue : due = time + (due - time) := by omega
  rw [ticks, ticks, hdue, List.range_add, List.filter_append, hnone, List.append_nil]

theorem ticks_add {period due : Nat} (hperiod : 0 < period) (hgrid : period ∣ due) :
    ticks period (due + period) = ticks period due ++ [due] := by
  have hgap : ticks period (due + 1) = ticks period (due + period) :=
    ticks_eq_of_gap (Nat.dvd_add hgrid (Nat.dvd_refl period)) (by omega) (by omega)
  rw [← hgap]
  simp [ticks, List.range_succ, hgrid]

/-! ## What shows of a loop -/

/-- A node and its registry while they meet nothing but polls. -/
structure Course where
  node : Node
  registry : Registry
  calls : List (Nat × Call)

/-- One poll, at a time. -/
def Course.poll (s : Surroundings) (c : Course) (time : Nat) : Course :=
  let t := c.node.manageStatus { s with now := s.now + Int64.ofNat (time / 1000) } c.registry
  ⟨t.node, t.registry, c.calls ++ t.calls.map fun call => (time, call)⟩

namespace Loop

variable {l : Loop} {e : Event} {period time : Nat}

/-- What the node asked and told so far, with the times. -/
def calls (l : Loop) : List (Nat × Call) := l.trace.filterMap fun
  | (time, .call c) => some (time, c)
  | _ => none

def course (l : Loop) : Course := ⟨l.node, l.registry, l.calls⟩

/-- The times at which the loop ended. -/
def ends (l : Loop) : List Nat := l.trace.filterMap fun
  | (time, .stopped) => some time
  | _ => none

/-! ## Polls -/

theorem tick_eq (h : l.now ≤ l.due) : l.tick period = { l with now := l.due, due := l.due + period }.poll := by
  rw [tick, waitUntil, Nat.max_eq_right h]

theorem due_tick (h : l.now ≤ l.due) : (l.tick period).due = l.due + period := by
  rw [tick_eq h]
  rfl

theorem calls_poll (l : Loop) :
    l.poll.calls = l.calls ++
      (l.node.manageStatus { l.surroundings with now := l.surroundings.now + Int64.ofNat (l.now / 1000) }
        l.registry).calls.map fun call => (l.now, call) := by
  simp [calls, poll, note, List.filterMap_append, List.filterMap_map, Function.comp_def]

theorem ends_poll (l : Loop) : l.poll.ends = l.ends := by
  simp [ends, poll, note, List.filterMap_append, List.filterMap_map, Function.comp_def]

/-! ## Events -/

@[simp] theorem stopped_undergo (l : Loop) (e : Event) : (l.undergo e).stopped = l.stopped := by cases e <;> rfl

@[simp] theorem now_undergo (l : Loop) (e : Event) : (l.undergo e).now = l.now := by cases e <;> rfl

@[simp] theorem due_undergo (l : Loop) (e : Event) : (l.undergo e).due = l.due := by cases e <;> rfl

@[simp] theorem polled_undergo (l : Loop) (e : Event) : (l.undergo e).polled = l.polled := by cases e <;> rfl

@[simp] theorem node_undergo (l : Loop) (e : Event) : (l.undergo e).node = l.node := by cases e <;> rfl

@[simp] theorem calls_undergo (l : Loop) (e : Event) : (l.undergo e).calls = l.calls := by
  cases e <;> simp [undergo, note, calls]

@[simp] theorem ends_undergo (l : Loop) (e : Event) : (l.undergo e).ends = l.ends := by
  cases e <;> simp [undergo, note, ends]

theorem registry_undergo_of_onChannel (h : e.onChannel = true) : (l.undergo e).registry = l.registry := by
  cases e <;> first | rfl | cases h

theorem course_undergo (h : e.onChannel = true) (l : Loop) : (l.undergo e).course = l.course := by
  rw [course, node_undergo, registry_undergo_of_onChannel h, calls_undergo]
  rfl

theorem calls_stop (l : Loop) : l.stop.calls = l.calls := by
  simp [stop, note, calls]

theorem course_stop (l : Loop) : l.stop.course = l.course := congrArg (Course.mk _ _) l.calls_stop

theorem ends_stop (l : Loop) : l.stop.ends = l.ends ++ [l.now] := by
  simp [stop, note, ends]

theorem meet_of_stopped (h : l.stopped = true) (time : Nat) (e : Event) :
    l.meet time e = (l.waitUntil time).undergo e := by
  have hstopped : ((l.waitUntil time).undergo e).stopped = true := (stopped_undergo _ e).trans h
  rw [meet, listen, if_pos hstopped]

end Loop

/-! ## Waiting -/

open Loop

/-- The loop waits between two polls, and what stops it comes at `time`. -/
structure Waiting (period time : Nat) (l : Loop) : Prop where
  running : l.stopped = false
  empty : l.shutdown = ⟨none, false⟩
  grid : period ∣ l.due
  ahead : l.now ≤ l.due
  early : l.now ≤ time
  near : l.due < time + period
  polled : l.polled = ticks period l.due
  ends : l.ends = []

namespace Waiting

variable {period time : Nat} {l : Loop}

theorem start (hperiod : 0 < period) (time : Nat) (s : Surroundings) (n : Node) (r : Registry) :
    Waiting period time (.start s n r) where
  running := rfl
  empty := rfl
  grid := Nat.dvd_zero period
  ahead := Nat.le_refl 0
  early := Nat.zero_le time
  near := Nat.add_pos_right time hperiod
  polled := rfl
  ends := rfl

theorem tick (h : Waiting period time l) (hperiod : 0 < period) (hdue : l.due < time) :
    Waiting period time (l.tick period) := by
  rw [tick_eq h.ahead]
  exact {
    running := h.running
    empty := h.empty
    grid := Nat.dvd_add h.grid (Nat.dvd_refl period)
    ahead := Nat.le_add_right l.due period
    early := Nat.le_of_lt hdue
    near := Nat.add_lt_add_right hdue period
    polled := by
      have hpolled : l.polled ++ [l.due] = ticks period (l.due + period) := by rw [ticks_add hperiod h.grid, h.polled]
      exact hpolled
    ends := (ends_poll _).trans h.ends }

/-- An event that does not stop a waiting loop wakes it for nothing. -/
theorem meet_eq (h : Waiting period time l) {e : Event} (he : e.stops = false) (t : Nat) :
    l.meet t e = { (l.waitUntil t).undergo e with shutdown := ⟨none, false⟩ } := by
  have hempty := h.empty
  have hrunning := h.running
  unfold Loop.meet Loop.listen
  cases e <;> simp_all [Event.stops, undergo, waitUntil, note]

theorem due_meet (h : Waiting period time l) {e : Event} (he : e.stops = false) (t : Nat) : (l.meet t e).due = l.due := by
  rw [h.meet_eq he]
  exact due_undergo _ e

theorem meet (h : Waiting period time l) {e : Event} (he : e.stops = false) {t : Nat} (hdue : t ≤ l.due) (ht : t ≤ time) :
    Waiting period time (l.meet t e) := by
  rw [h.meet_eq he]
  exact {
    running := (stopped_undergo _ e).trans h.running
    empty := rfl
    grid := (due_undergo (l.waitUntil t) e).symm ▸ h.grid
    ahead := by simpa [waitUntil] using Nat.max_le.2 ⟨h.ahead, hdue⟩
    early := by simpa [waitUntil] using Nat.max_le.2 ⟨h.early, ht⟩
    near := by simpa [waitUntil] using h.near
    polled := by simpa [waitUntil] using h.polled
    ends := (ends_undergo (l.waitUntil t) e).trans h.ends }

/-- An event that stops a waiting loop is the last thing that it sees. -/
theorem meet_of_stops (h : Waiting period time l) {e : Event} (he : e.stops = true) :
    (l.meet time e).stopped = true ∧ (l.meet time e).polled = l.polled ∧ (l.meet time e).course = l.course ∧
      (l.meet time e).ends = [time] := by
  obtain ⟨closed, hmeet⟩ : ∃ closed,
      l.meet time e = { (l.waitUntil time).undergo e with shutdown := ⟨none, closed⟩ }.stop := by
    have hempty := h.empty
    have hrunning := h.running
    unfold Loop.meet Loop.listen
    cases e <;> simp_all [Event.stops, undergo, waitUntil, note]
  rw [hmeet]
  refine ⟨rfl, ?_, ?_, ?_⟩
  · exact polled_undergo (l.waitUntil time) e
  · exact (course_stop _).trans (course_undergo (Event.onChannel_of_stops he) (l.waitUntil time))
  · have hends : ((l.waitUntil time).undergo e).ends = [] := (ends_undergo _ e).trans h.ends
    have hnow : ((l.waitUntil time).undergo e).now = time := (now_undergo _ e).trans (Nat.max_eq_right h.early)
    have hlast := ends_stop ((l.waitUntil time).undergo e)
    rw [hends, hnow] at hlast
    exact hlast

end Waiting

/-! ## Runs -/

section Runs

variable {period limit time : Nat} {events before after : List (Nat × Event)} {stop : Event} {Q R : Loop → Prop}

theorem follow_of_due {fuel : Nat} {l : Loop} (h : l.isDue limit events = true) :
    follow period limit (fuel + 1) events l = follow period limit fuel events (l.tick period) := if_pos h

theorem follow_cons {fuel : Nat} {l : Loop} {e : Nat × Event} (h : l.isDue limit (e :: events) = false) :
    follow period limit (fuel + 1) (e :: events) l = follow period limit fuel events (l.meet e.1 e.2) := by
  rw [follow, h, if_neg Bool.false_ne_true]

/-- A poll and an event never come at once. -/
theorem Waiting.isDue_iff {l : Loop} {e : Nat × Event} (h : Waiting period time l) (he : e.1 ≤ limit)
    (hgrid : ¬period ∣ e.1) : l.isDue limit (e :: events) = true ↔ l.due < e.1 := by
  have hne : l.due ≠ e.1 := fun heq => hgrid (heq ▸ h.grid)
  simp only [isDue, h.running, Bool.not_false, Bool.true_and, Bool.and_eq_true, decide_eq_true_eq, List.head?_cons,
    Option.all_some]
  omega

/-- What holds of a stopped loop holds on, if nothing that happens outside changes it. -/
theorem follow_of_stopped (happens : ∀ l, R l → ∀ e ∈ events, R ((l.waitUntil e.1).undergo e.2)) {fuel : Nat} {l : Loop}
    (hstopped : l.stopped = true) (hl : R l) : R (follow period limit fuel events l) := by
  induction fuel generalizing events l with
  | zero => exact hl
  | succ fuel ih =>
    have hidle : l.isDue limit events = false := by simp [isDue, hstopped]
    cases events with
    | nil =>
      rw [follow, hidle]
      exact hl
    | cons e rest =>
      rw [follow_cons hidle, meet_of_stopped hstopped]
      refine ih (fun l' hl' e' he' => happens l' hl' e' (List.mem_cons_of_mem _ he')) ?_ ?_
      · exact (stopped_undergo _ e.2).trans hstopped
      · exact happens l hl e List.mem_cons_self

/-- What holds of a waiting loop, and is kept by its polls and by the events before `time`, holds when the event at
`time` stops it. -/
theorem follow_of_waiting (hperiod : 0 < period) (hlimit : time ≤ limit) (hgrid : ¬period ∣ time)
    (hbefore : ∀ e ∈ before, e.2.stops = false ∧ e.1 < time ∧ ¬period ∣ e.1)
    (tick : ∀ l, Waiting period time l → l.due < time → Q l → Q (l.tick period))
    (meet : ∀ l, Waiting period time l → Q l → ∀ e ∈ before, Q (l.meet e.1 e.2))
    {fuel : Nat} {l : Loop} (hw : Waiting period time l) (hl : Q l) (hfuel : time - l.due + before.length < fuel) :
    ∃ l' fuel', Waiting period time l' ∧ time ≤ l'.due ∧ Q l' ∧
      follow period limit fuel (before ++ (time, stop) :: after) l = follow period limit fuel' after (l'.meet time stop) := by
  induction fuel generalizing before l with
  | zero => exact absurd hfuel (Nat.not_lt_zero _)
  | succ fuel ih =>
    -- A poll brings the timer nearer to `time` and an event shortens the list, so the fuel lasts.
    have poll : ∀ e rest, before ++ (time, stop) :: after = e :: rest → e.1 ≤ time → ¬period ∣ e.1 → l.due < e.1 →
        ∃ l' fuel', Waiting period time l' ∧ time ≤ l'.due ∧ Q l' ∧
          follow period limit (fuel + 1) (before ++ (time, stop) :: after) l =
            follow period limit fuel' after (l'.meet time stop) := by
      intro e rest hevents hle hoff hdue
      rw [follow_of_due (by rw [hevents, hw.isDue_iff (Nat.le_trans hle hlimit) hoff]; exact hdue)]
      refine ih hbefore meet (hw.tick hperiod (by omega)) (tick l hw (by omega) hl) ?_
      rw [due_tick hw.ahead]
      omega
    have event : ∀ e rest, e.1 ≤ time → ¬period ∣ e.1 → ¬l.due < e.1 →
        follow period limit (fuel + 1) (e :: rest) l = follow period limit fuel rest (l.meet e.1 e.2) := by
      intro e rest hle hoff hdue
      exact follow_cons (Bool.eq_false_iff.2 fun h => hdue ((hw.isDue_iff (Nat.le_trans hle hlimit) hoff).1 h))
    cases before with
    | nil =>
      by_cases hdue : l.due < time
      · exact poll _ _ rfl (Nat.le_refl time) hgrid hdue
      · exact ⟨l, fuel, hw, Nat.not_lt.1 hdue, hl, event _ _ (Nat.le_refl time) hgrid hdue⟩
    | cons e rest =>
      obtain ⟨he, ht, hoff⟩ := hbefore e List.mem_cons_self
      by_cases hdue : l.due < e.1
      · exact poll _ _ rfl (Nat.le_of_lt ht) hoff hdue
      · rw [List.cons_append, event _ _ (Nat.le_of_lt ht) hoff hdue]
        refine ih (fun e' he' => hbefore e' (List.mem_cons_of_mem _ he'))
          (fun l' hw' hl' e' he' => meet l' hw' hl' e' (List.mem_cons_of_mem _ he'))
          (hw.meet he (Nat.not_lt.1 hdue) (Nat.le_of_lt ht)) (meet l hw hl e List.mem_cons_self) ?_
        rw [hw.due_meet he]
        simp only [List.length_cons] at hfuel
        omega

/-- What holds at the start, is kept by polls and by events that do not stop the loop, and at last becomes a property
that no event changes any more. -/
theorem run_induction (hperiod : 0 < period) (hsorted : events.Pairwise fun a b => a.1 < b.1)
    (hgrid : ∀ e ∈ events, ¬period ∣ e.1) (hstop : events.find? (·.2.stops) = some (time, stop)) (hlimit : time ≤ limit)
    {s : Surroundings} {n : Node} {r : Registry} (start : Q (.start s n r))
    (tick : ∀ l, Waiting period time l → l.due < time → Q l → Q (l.tick period))
    (meet : ∀ l, Waiting period time l → Q l → ∀ e ∈ events, e.2.stops = false → e.1 < time → Q (l.meet e.1 e.2))
    (halt : ∀ l, Waiting period time l → time ≤ l.due → Q l → R (l.meet time stop))
    (happens : ∀ l, R l → ∀ e ∈ events, R ((l.waitUntil e.1).undergo e.2)) : R (run period limit events s n r) := by
  obtain ⟨hstops, before, after, rfl, hnone⟩ := List.find?_eq_some_iff_append.1 hstop
  rw [List.pairwise_append] at hsorted
  have hearlier : ∀ e ∈ before, e.2.stops = false ∧ e.1 < time := fun e he =>
    ⟨by simpa using hnone e he, hsorted.2.2 e he (time, stop) List.mem_cons_self⟩
  have hmem : ∀ e ∈ before, e ∈ before ++ (time, stop) :: after := fun e he => List.mem_append_left _ he
  have hfollow : ∃ l fuel, Waiting period time l ∧ time ≤ l.due ∧ Q l ∧
      run period limit (before ++ (time, stop) :: after) s n r = follow period limit fuel after (l.meet time stop) := by
    refine follow_of_waiting hperiod hlimit ?_ (fun e he => ?_) tick (fun l hw hl e he => ?_) ?_ start ?_
    · exact hgrid (time, stop) (List.mem_append_right _ List.mem_cons_self)
    · exact ⟨(hearlier e he).1, (hearlier e he).2, hgrid e (hmem e he)⟩
    · exact meet l hw hl e (hmem e he) (hearlier e he).1 (hearlier e he).2
    · exact .start hperiod time s n r
    · simp only [Loop.start, List.length_append, List.length_cons]
      omega
  obtain ⟨l, fuel, hw, hdue, hl, hrun⟩ := hfollow
  rw [hrun]
  refine follow_of_stopped (fun l' hl' e he => happens l' hl' e ?_) (hw.meet_of_stops hstops).1 (halt l hw hdue hl)
  exact List.mem_append_right _ (List.mem_cons_of_mem _ he)

end Runs

end StatusLoop

end AuditChain.Masternode
