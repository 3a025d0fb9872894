import HalfDuplex.Proofs.Trace.Counting
import HalfDuplex.Proofs.Trace.Words

/-!
# The check decides the rules of admission

After the events of a lawful trace a replay has the counts that the trace has: its
queues, its riders and its statistics. It accepts the next event just in case that
is admissible, so it gets to the end of a trace just in case the trace is lawful.
-/

namespace HalfDuplex.Trace

namespace Replay

variable {r r' : Replay} {es : List Event} {e : Event} {l : Lane} {d : Direction} {t n cap : Nat}

/-- The replay has the riders of the trace, each of them once, and all of them move
in one direction. -/
structure Seats (r : Replay) (es : List Event) : Prop where
  riding_iff : ∀ t l, (t, l) ∈ r.riding ↔ laneOf t es = some l
  nodup : (r.riding.map Prod.fst).Nodup
  one_way : ∀ x ∈ r.riding, ∀ y ∈ r.riding, x.2.direction = y.2.direction

theorem seats_start : Seats start [] where
  riding_iff _ _ := iff_of_false List.not_mem_nil fun h => by cases h
  nodup := .nil
  one_way _ hx := absurd hx List.not_mem_nil

theorem Seats.mem_riders_iff (h : Seats r es) :
    t ∈ riders es ↔ t ∈ r.riding.map Prod.fst := by
  rw [Trace.mem_riders_iff, List.mem_map]
  constructor
  · rintro ⟨l, hl⟩
    exact ⟨(t, l), (h.riding_iff t l).mpr hl, rfl⟩
  · rintro ⟨⟨u, l⟩, hx, rfl⟩
    exact ⟨l, (h.riding_iff u l).mp hx⟩

theorem Seats.card_riders (h : Seats r es) : (riders es).card = r.onBus := by
  have hriders : riders es = (r.riding.map Prod.fst).toFinset := by
    ext t
    rw [h.mem_riders_iff, List.mem_toFinset]
  rw [hriders, List.toFinset_card_of_nodup h.nodup, List.length_map]
  rfl

theorem Seats.allHead_iff (h : Seats r es) :
    AllHead d es ↔ ∀ x ∈ r.riding, x.2.direction = d := by
  constructor
  · intro ha x hx
    have hl := (h.riding_iff x.1 x.2).mp hx
    have hd := ha x.1 (Trace.mem_riders_iff.mpr ⟨x.2, hl⟩)
    rw [hl] at hd
    exact Option.some.inj hd
  · intro ha t ht
    obtain ⟨l, hl⟩ := Trace.mem_riders_iff.mp ht
    rw [hl]
    exact congrArg some (ha (t, l) ((h.riding_iff t l).mpr hl))

theorem Seats.opposes_iff (h : Seats r es) : r.opposes d = false ↔ AllHead d es := by
  rw [h.allHead_iff]
  refine ⟨fun ho x hx => ?_, opposes_eq_false⟩
  unfold opposes heading at ho
  cases hr : r.riding with
  | nil => rw [hr] at hx; cases hx
  | cons y rest =>
    rw [hr, List.head?_cons, Option.map_some, beq_eq_false_iff_ne, ne_eq, Option.some.injEq] at ho
    have hy : y.2.direction = d := by
      by_contra hne
      exact ho (Direction.eq_other_of_ne hne)
    rw [← hy]
    exact h.one_way x hx y (hr ▸ List.mem_cons_self)

theorem Seats.rides_iff (h : Seats r es) : r.rides t = true ↔ t ∈ riders es := by
  rw [h.mem_riders_iff, rides, List.any_eq_true, List.mem_map]
  simp only [beq_iff_eq]

theorem mem_without_iff {x : Nat × Lane} : x ∈ r.without t ↔ x ∈ r.riding ∧ x.1 ≠ t := by
  unfold without
  rw [List.mem_filter, bne_iff_ne]

theorem Seats.stay (h : Seats r es) (hr : r'.riding = r.riding) (he : ∀ t, e.seat? t = none) :
    Seats r' (es ++ [e]) where
  riding_iff t l := by
    rw [hr, laneOf_concat, he t]
    exact h.riding_iff t l
  nodup := hr ▸ h.nodup
  one_way := hr ▸ h.one_way

theorem Seats.nodup_without (h : Seats r es) (t : Nat) : ((r.without t).map Prod.fst).Nodup :=
  h.nodup.sublist (List.filter_sublist.map Prod.fst)

theorem Seats.seated (h : Seats r es) (ho : r.opposes l.direction = false) (t : Nat)
    (granted : Bool) : Seats (r.seated t l) (es ++ [.boarded t l granted]) where
  riding_iff u k := by
    change (u, k) ∈ (t, l) :: r.without t ↔ _
    rw [List.mem_cons, mem_without_iff, laneOf_concat]
    change _ ↔ (if t = u then some (some l) else none).elim (laneOf u es) id = some k
    by_cases hu : t = u
    · rw [if_pos hu, Prod.mk.injEq]
      simp [hu, eq_comm]
    · rw [if_neg hu, Prod.mk.injEq, Option.elim_none, ← h.riding_iff]
      simp [Ne.symm hu]
  nodup := by
    change (t :: (r.without t).map Prod.fst).Nodup
    refine List.nodup_cons.mpr ⟨fun ht => ?_, h.nodup_without t⟩
    obtain ⟨x, hx, rfl⟩ := List.mem_map.mp ht
    exact (mem_without_iff.mp hx).2 rfl
  one_way := by
    have hd := h.allHead_iff.mp (h.opposes_iff.mp ho)
    have hall : ∀ x ∈ (t, l) :: r.without t, x.2.direction = l.direction := by
      intro x hx
      rcases List.mem_cons.mp hx with rfl | hx
      · rfl
      · exact hd x (mem_without_iff.mp hx).1
    exact fun x hx y hy => (hall x hx).trans (hall y hy).symm

theorem Seats.gone (h : Seats r es) (t : Nat) (l : Lane) :
    Seats (r.gone t) (es ++ [.left t l]) where
  riding_iff u k := by
    change (u, k) ∈ r.without t ↔ _
    rw [mem_without_iff, laneOf_concat]
    change _ ↔ (if t = u then some none else none).elim (laneOf u es) id = some k
    by_cases hu : t = u
    · rw [if_pos hu]
      exact iff_of_false (fun hx => hx.2 hu.symm) fun hx => by cases hx
    · rw [if_neg hu, Option.elim_none, ← h.riding_iff]
      exact and_iff_left (Ne.symm hu)
  nodup := h.nodup_without t
  one_way x hx y hy := h.one_way x (mem_without_iff.mp hx).1 y (mem_without_iff.mp hy).1

theorem Seats.after (h : Seats r es) (ha : r.Accepts e) : Seats (r.after e) (es ++ [e]) := by
  cases e with
  | queued t l => exact h.stay rfl fun _ => rfl
  | woken l n => exact h.stay rfl fun _ => rfl
  | boarded t l granted =>
    cases granted with
    | true =>
      have hspent : Seats (r.spend l) es := ⟨h.riding_iff, h.nodup, h.one_way⟩
      exact hspent.seated ha.2 t true
    | false => exact h.seated ha.2 t false
  | left t l => exact h.gone t l

structure Counts (r : Replay) (es : List Event) : Prop where
  waiting_eq : ∀ l, r.waiting.get l + wokenIn l es = queuedIn l es
  granted_eq : ∀ l, r.granted.get l + returnedIn l es = wokenIn l es

theorem counts_start : Counts start [] where
  waiting_eq l := PerLane.get_fill 0 l
  granted_eq l := PerLane.get_fill 0 l

theorem Counts.reserved_eq (h : Counts r es) : r.reserved = outstanding es := by
  have hg : r.granted = PerLane.ofFn fun l => wokenIn l es - returnedIn l es := by
    apply PerLane.ext_get
    intro l
    have hl := h.granted_eq l
    rw [PerLane.get_ofFn]
    omega
  unfold reserved outstanding
  rw [hg]

theorem Counts.unfinished_eq (h : Counts r es) : r.waiting.sum + r.granted.sum =
    (PerLane.ofFn fun l => queuedIn l es - returnedIn l es).sum := by
  have hl : ∀ l, r.waiting.get l + r.granted.get l = queuedIn l es - returnedIn l es := by
    intro l
    have hw := h.waiting_eq l
    have hg := h.granted_eq l
    omega
  simp only [PerLane.sum, PerLane.ofFn, ← hl, PerLane.get]
  omega

theorem Counts.accepts_iff (h : Counts r es) (hs : Seats r es) :
    r.Accepts e ↔ Admissible es e := by
  cases e with
  | queued t l => exact Iff.rfl
  | woken l n =>
    have hl := h.waiting_eq l
    have hp := h.waiting_eq (.priority l.direction)
    refine and_congr (by omega) (and_congr (imp_congr_right fun _ => by omega) hs.opposes_iff)
  | boarded t l granted =>
    have hp := h.waiting_eq (.priority l.direction)
    have hg := h.granted_eq (.priority l.direction)
    have hl := h.granted_eq l
    cases granted with
    | true => exact and_congr (by omega) hs.opposes_iff
    | false => exact and_congr (imp_congr_right fun _ => by omega) hs.opposes_iff
  | left t l => exact hs.rides_iff

theorem Counts.after (h : Counts r es) (ha : r.Accepts e) : Counts (r.after e) (es ++ [e]) := by
  have hw := h.waiting_eq
  have hg := h.granted_eq
  refine ⟨fun k => ?_, fun k => ?_⟩
  · rw [wokenIn_concat, queuedIn_concat, ← hw k]
    cases e with
    | queued t l =>
      change (r.waiting.modify l (· + 1)).get k + (_ + 0) = _ + if (l == k) = true then 1 else 0
      rw [PerLane.get_modify]
      simp only [beq_iff_eq]
      split <;> omega
    | woken l n =>
      change (r.waiting.modify l (· - n)).get k + (_ + if l = k then n else 0) = _ + 0
      have hn := ha.1
      rw [PerLane.get_modify]
      by_cases hl : l = k
      · subst hl
        rw [if_pos rfl, if_pos rfl]
        omega
      · rw [if_neg hl, if_neg hl]
        omega
    | boarded t l granted => cases granted <;> rfl
    | left t l => rfl
  · rw [wokenIn_concat, returnedIn_concat, ← hg k]
    cases e with
    | queued t l => rfl
    | woken l n =>
      change (r.granted.modify l (· + n)).get k + (_ + 0) = _ + if l = k then n else 0
      rw [PerLane.get_modify]
      split <;> omega
    | boarded t l granted =>
      cases granted with
      | true =>
        change (r.granted.modify l (· - 1)).get k + (_ + if (l == k) = true then 1 else 0) = _ + 0
        have hpos := ha.1
        rw [PerLane.get_modify]
        simp only [beq_iff_eq]
        by_cases hl : l = k
        · subst hl
          rw [if_pos rfl, if_pos rfl]
          omega
        · rw [if_neg hl, if_neg hl]
          omega
      | false => rfl
    | left t l => rfl

structure Totals (r : Replay) (es : List Event) : Prop where
  queued_eq : r.queued = es.countP Event.isQueued
  boarded_eq : r.boarded = (es.filterMap Event.boarding?).length
  left_eq : r.left = (es.filterMap Event.leaving?).length
  peak_eq : r.peakOnBus = mostRiders es

theorem totals_start : Totals start [] := ⟨rfl, rfl, rfl, rfl⟩

theorem Totals.after (h : Totals r es) (hs : Seats r es) (ha : r.Accepts e) :
    Totals (r.after e) (es ++ [e]) where
  queued_eq := by
    rw [List.countP_append, ← h.queued_eq]
    rcases e with _ | _ | ⟨_, _, _ | _⟩ | _ <;> rfl
  boarded_eq := by
    rw [List.filterMap_append, List.length_append, ← h.boarded_eq]
    rcases e with _ | _ | ⟨_, _, _ | _⟩ | _ <;> rfl
  left_eq := by
    rw [List.filterMap_append, List.length_append, ← h.left_eq]
    rcases e with _ | _ | ⟨_, _, _ | _⟩ | _ <;> rfl
  peak_eq := by
    have hle : r.onBus ≤ r.peakOnBus := by
      rw [← hs.card_riders, h.peak_eq]
      exact card_riders_le_mostRiders es
    rw [mostRiders_concat, (hs.after ha).card_riders, ← h.peak_eq]
    cases e with
    | queued t l => exact (Nat.max_eq_left hle).symm
    | woken l n => exact (Nat.max_eq_left hle).symm
    | boarded t l granted => cases granted <;> rfl
    | left t l => exact (Nat.max_eq_left (Nat.le_trans (r.length_without_le t) hle)).symm

/-- The replay is at the end of the trace. -/
structure Records (r : Replay) (es : List Event) : Prop
    extends Seats r es, Counts r es, Totals r es

theorem Records.after (h : Records r es) (ha : r.Accepts e) : Records (r.after e) (es ++ [e]) :=
  ⟨h.toSeats.after ha, h.toCounts.after ha, h.toTotals.after h.toSeats ha⟩

/-- A step goes through just in case the event is admissible and riders and grants
fit the bus after it. -/
theorem Records.step_iff (h : Records r es) : r.step cap e = .ok r' ↔
    (Admissible es e ∧ (riders (es ++ [e])).card + outstanding (es ++ [e]) ≤ cap) ∧
      r' = r.after e := by
  rw [step_eq_ok_iff, ← h.accepts_iff h.toSeats, ← and_assoc]
  refine and_congr_left fun _ => and_congr_right fun ha => ?_
  have hafter := h.after ha
  rw [hafter.card_riders, hafter.reserved_eq]

theorem Records.summary_eq (h : Records r es) : r.summary = tally es := by
  unfold summary tally
  rw [h.queued_eq, h.boarded_eq, h.left_eq, h.peak_eq, h.unfinished_eq]

theorem run_start_iff (cap : Nat) (es : List Event) :
    (Lawful cap es → ∃ r, run cap 0 start es = .ok r) ∧
      ∀ r, run cap 0 start es = .ok r → Lawful cap es ∧ Records r es := by
  induction es using List.reverseRecOn with
  | nil =>
    refine ⟨fun _ => ⟨start, rfl⟩, fun r hr => ?_⟩
    cases hr
    exact ⟨lawful_nil cap, seats_start, counts_start, totals_start⟩
  | append_singleton es e ih =>
    obtain ⟨hreach, hrecords⟩ := ih
    constructor
    · intro hl
      obtain ⟨hes, hnew⟩ := lawful_concat_iff.mp hl
      obtain ⟨r, hr⟩ := hreach hes
      have hs := (hrecords r hr).2.step_iff.mpr ⟨hnew, rfl⟩
      exact ⟨_, run_concat_eq_ok_iff.mpr ⟨r, hr, hs⟩⟩
    · intro r' hr'
      obtain ⟨r, hr, hs⟩ := run_concat_eq_ok_iff.mp hr'
      obtain ⟨hes, hrec⟩ := hrecords r hr
      obtain ⟨hnew, rfl⟩ := hrec.step_iff.mp hs
      exact ⟨lawful_concat_iff.mpr ⟨hes, hnew⟩,
        hrec.after ((hrec.accepts_iff hrec.toSeats).mpr hnew.1)⟩

end Replay

variable {capacity : Nat} {events : List Event} {s : Summary}

theorem check_eq_ok_iff :
    check capacity events = .ok s ↔ Lawful capacity events ∧ s = tally events := by
  obtain ⟨hreach, hrecords⟩ := Replay.run_start_iff capacity events
  rw [check_eq_ok_iff_run]
  constructor
  · rintro ⟨r, hr, rfl⟩
    obtain ⟨hl, hrec⟩ := hrecords r hr
    exact ⟨hl, hrec.summary_eq⟩
  · rintro ⟨hl, rfl⟩
    obtain ⟨r, hr⟩ := hreach hl
    exact ⟨r, hr, (hrecords r hr).2.summary_eq⟩

/-- The check of a trace of fewer than 2^63 events never leaves the range of words.
It finds a trace in order just in case every event of it is admissible after the
events before it and leaves riders and grants that fit the bus, and sums it up by
what its events count. -/
theorem check_decides_lawful (hn : events.length < 2 ^ 63) :
    checkInWords capacity events = some (check capacity events) ∧
      ∀ s, check capacity events = .ok s ↔ Lawful capacity events ∧ s = tally events :=
  ⟨checkInWords_eq (Nat.lt_trans hn (by decide)), fun _ => check_eq_ok_iff⟩

/-- A task queues while it rides, boards once more instead of leaving, leaves once,
and comes back by its grant under the id that it had. -/
def rejoining : List Event :=
  [.boarded 7 (.normal .receive) false, .queued 7 (.priority .send),
    .boarded 7 (.priority .receive) false, .left 7 (.normal .receive),
    .woken (.priority .send) 1, .boarded 7 (.priority .send) true, .woken (.normal .send) 0]

/-- The replay finds nothing wrong with such a trace on a bus of one slot; on a bus
of none it does. -/
theorem check_decides_lawful_rejoining :
    checkInWords 1 rejoining = some (.ok ⟨1, 3, 1, 1, 0⟩) ∧ Lawful 1 rejoining ∧
      tally rejoining = ⟨1, 3, 1, 1, 0⟩ ∧ ¬ Lawful 0 rejoining := by
  have hn : rejoining.length < 2 ^ 63 := by decide
  obtain ⟨hwords, hone⟩ :
      checkInWords 1 rejoining = some (check 1 rejoining) ∧
        ∀ s, check 1 rejoining = .ok s ↔ Lawful 1 rejoining ∧ s = tally rejoining :=
    check_decides_lawful hn
  have hcheck : check 1 rejoining = .ok ⟨1, 3, 1, 1, 0⟩ := by decide
  obtain ⟨hlawful, htally⟩ := (hone _).mp hcheck
  refine ⟨hwords.trans (congrArg some hcheck), hlawful, htally.symm, fun hnone => ?_⟩
  have hzero := ((check_decides_lawful hn).2 (tally rejoining)).mpr ⟨hnone, rfl⟩
  have hover : (check 0 rejoining).isOk = false := by decide
  rw [hzero] at hover
  cases hover

end HalfDuplex.Trace
