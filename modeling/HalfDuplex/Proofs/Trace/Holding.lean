import HalfDuplex.Proofs.Trace.Breaches

/-!
# The direction that riders hold

The check of a trace looks at the riders and at nobody else to see which way the bus is
held. While somebody rides, nobody is granted a slot or boards in the other direction.
A bus that nobody rides may turn, also under a task that has yet to come back for the
slot that it was granted.
-/

namespace HalfDuplex

/-- The direction in which the event grants slots or boards a task. -/
def Event.heads? : Event → Option Direction
  | .woken l _ => some l.direction
  | .boarded _ l _ => some l.direction
  | _ => none

namespace Trace

variable {d : Direction} {l k : Lane} {t : Nat} {e : Event} {es events : List Event}
  {capacity i j : Nat} {s : Summary}

/-- All riders and all outstanding grants move in one direction. -/
def HeadsOneWay (es : List Event) : Prop :=
  ∃ d, AllHead d es ∧ ∀ l, returnedIn l es < wokenIn l es → l.direction = d

/-- A sender is granted the slot that a receiver leaves, and another receiver boards
before the sender comes back. -/
def turnedUnderGrant : List Event :=
  [.boarded 0 (.normal .receive) false, .queued 1 (.normal .send), .left 0 (.normal .receive),
    .woken (.normal .send) 1, .boarded 2 (.normal .receive) false]

theorem turn_under_grant_passes :
    check 2 turnedUnderGrant = .ok ⟨1, 2, 1, 1, 1⟩ ∧
      ¬ HeadsOneWay (turnedUnderGrant.take 5) := by
  refine ⟨by decide, ?_⟩
  rintro ⟨d, hriders, hgrants⟩
  have hsend : (Lane.normal .send).direction = d := hgrants _ (by decide)
  have hreceive := hriders 2 (by decide)
  rw [← hsend] at hreceive
  exact absurd hreceive (by decide)

theorem AllHead.direction_eq (h : AllHead d es) (hl : laneOf t es = some l) : l.direction = d := by
  have ht := h t (mem_riders_iff.mpr ⟨l, hl⟩)
  rw [hl] at ht
  exact Option.some.inj ht

theorem Replay.Seats.exists_allHead {r : Replay} (h : r.Seats es) : ∃ d, AllHead d es := by
  cases hr : r.riding with
  | nil => exact ⟨.send, h.allHead_iff.mpr fun x hx => by rw [hr] at hx; cases hx⟩
  | cons y rest =>
    refine ⟨y.2.direction, h.allHead_iff.mpr fun x hx => ?_⟩
    exact h.one_way x hx y (by rw [hr]; exact List.mem_cons_self)

theorem Lawful.exists_allHead (h : Lawful capacity es) : ∃ d, AllHead d es := by
  obtain ⟨hreach, hrecords⟩ := Replay.run_start_iff capacity es
  obtain ⟨r, hr⟩ := hreach h
  exact (hrecords r hr).2.exists_allHead

theorem laneOf_concat_cases (h : laneOf t (es ++ [e]) = some l) :
    e.seat? t = some (some l) ∨ laneOf t es = some l := by
  rw [laneOf_concat] at h
  cases hs : e.seat? t with
  | none =>
    rw [hs] at h
    exact .inr h
  | some seat =>
    rw [hs] at h
    exact .inl (congrArg some h)

theorem heads?_of_seat? (h : e.seat? t = some (some l)) : e.heads? = some l.direction := by
  have hboarding := boarding?_of_seat? h
  cases e with
  | boarded u k granted => cases hboarding; rfl
  | _ => cases hboarding

theorem Admissible.allHead (h : Admissible es e) (he : e.heads? = some d) : AllHead d es := by
  cases e with
  | queued t l => cases he
  | woken l n => cases he; exact h.2.2
  | boarded t l granted =>
    cases he
    cases granted with
    | true => exact h.2
    | false => exact h.2
  | left t l => cases he

/-- As long as somebody rides, the riders before an event and the event itself head the
same way as the riders after it. -/
theorem Admissible.keeps_heading (h : Admissible es e) (hone : ∃ d, AllHead d es)
    (hl : laneOf t (es ++ [e]) = some l) :
    AllHead l.direction es ∧ e.heads? ≠ some l.direction.other := by
  obtain hseat | hrode := laneOf_concat_cases hl
  · have hheads := heads?_of_seat? hseat
    refine ⟨h.allHead hheads, fun hother => ?_⟩
    rw [hheads, Option.some.injEq] at hother
    exact Direction.other_ne _ hother.symm
  · obtain ⟨d, hd⟩ := hone
    refine ⟨hd.direction_eq hrode ▸ hd, fun hother => ?_⟩
    exact Direction.other_ne _ ((h.allHead hother).direction_eq hrode).symm

theorem wakes_eq_zero (h : e.heads? ≠ some k.direction) : e.wakes k = 0 := by
  cases e with
  | woken l n => exact if_neg fun hl => h (by rw [hl]; rfl)
  | _ => rfl

theorem isReturnIn_eq_false (h : e.heads? ≠ some k.direction) : e.isReturnIn k = false := by
  cases e with
  | boarded t l granted =>
    cases granted with
    | true => exact beq_eq_false_iff_ne.mpr fun hl => h (by rw [hl]; rfl)
    | false => rfl
  | _ => rfl

theorem Lawful.take (h : Lawful capacity events) (i : Nat) : Lawful capacity (events.take i) := by
  obtain ⟨s, hs⟩ := exists_check_take (check_eq_ok_iff.mpr ⟨h, rfl⟩) i
  exact (check_eq_ok_iff.mp hs).1

theorem Lawful.counts_against (h : Lawful capacity events) (hij : i ≤ j)
    (hride : ∀ m, i < m → m ≤ j → (riders (events.take m)).Nonempty)
    (hd : i < j → AllHead d (events.take j)) (hk : k.direction = d.other) :
    wokenIn k (events.take j) = wokenIn k (events.take i) ∧
      returnedIn k (events.take j) = returnedIn k (events.take i) := by
  induction j, hij using Nat.le_induction with
  | base => exact ⟨rfl, rfl⟩
  | succ j hij ih =>
    have hij' : i < j + 1 := Nat.lt_succ_of_le hij
    have hd' := hd hij'
    obtain ⟨t, ht⟩ := hride (j + 1) hij' le_rfl
    obtain ⟨l, hl⟩ := mem_riders_iff.mp ht
    obtain rfl := hd'.direction_eq hl
    have ih' := ih fun m hm hmj => hride m hm (Nat.le_succ_of_le hmj)
    by_cases hj : j < events.length
    · rw [List.take_succ_eq_append_getElem hj] at hl ⊢
      obtain ⟨hbefore, hheads⟩ :=
        (h j hj).1.keeps_heading (h.take j).exists_allHead hl
      rw [← hk] at hheads
      rw [wokenIn_concat, returnedIn_concat, wakes_eq_zero hheads, isReturnIn_eq_false hheads]
      exact ih' fun _ => hbefore
    · have htake : events.take (j + 1) = events.take j := by
        rw [List.take_of_length_le (by omega), List.take_of_length_le (by omega)]
      rw [htake] at hd' ⊢
      exact ih' fun _ => hd'

theorem exists_error_of_against (h : check capacity es = .ok s) (hn : (riders es).Nonempty)
    (hd : AllHead d es) (he : e.heads? = some d.other) (rest : List Event) :
    ∃ b, check capacity (es ++ e :: rest) = .error ⟨es.length, b⟩ := by
  obtain ⟨t, ht⟩ := hn
  obtain ⟨l, hl⟩ := mem_riders_iff.mp ht
  have hbad : ¬ Admissible es e := by
    intro ha
    have hother := (ha.allHead he).direction_eq hl
    rw [hd.direction_eq hl] at hother
    exact Direction.other_ne _ hother.symm
  obtain ⟨r, hr, -⟩ := check_eq_ok_iff_run.mp h
  obtain ⟨-, hrec⟩ := (Replay.run_start_iff capacity es).2 r hr
  cases hs : r.step capacity e with
  | ok r' => exact absurd (hrec.step_iff.mp hs).1.1 hbad
  | error b =>
    refine ⟨b, check_eq_error_iff.mpr ?_⟩
    rw [Replay.run_append, hr]
    dsimp only
    rw [Replay.run_cons, hs, Nat.zero_add]

/-- After every event of a trace that the check passes, all riders move in one direction,
and since the bus was last empty nobody of the other direction has been granted a slot or
has come back for one. A grant or a boarding against the riders is a breach at that
event, whatever comes after it. -/
theorem riders_hold_direction (h : check capacity events = .ok s) :
    (∀ i, ∃ d, AllHead d (events.take i)) ∧
      (∀ i j d l, i < j → (∀ m, i < m → m ≤ j → (riders (events.take m)).Nonempty) →
        AllHead d (events.take j) → l.direction = d.other →
        wokenIn l (events.take j) = wokenIn l (events.take i) ∧
          returnedIn l (events.take j) = returnedIn l (events.take i)) ∧
      ∀ i ≤ events.length, ∀ d e rest, (riders (events.take i)).Nonempty →
        AllHead d (events.take i) → e.heads? = some d.other →
        ∃ b, check capacity (events.take i ++ e :: rest) = .error ⟨i, b⟩ := by
  have hlawful := (check_eq_ok_iff.mp h).1
  refine ⟨fun i => (hlawful.take i).exists_allHead, fun i j d l hij hride hd hl => ?_,
    fun i hi d e rest hn hd he => ?_⟩
  · exact hlawful.counts_against (Nat.le_of_lt hij) hride (fun _ => hd) hl
  · obtain ⟨s', hs'⟩ := exists_check_take h i
    obtain ⟨b, hb⟩ := exists_error_of_against hs' hn hd he rest
    rw [List.length_take_of_le hi] at hb
    exact ⟨b, hb⟩

/-- Under the receivers of `turnedUnderGrant` the grant of the sender stays as old as the
time when the bus was empty, and the sender cannot come back for it. -/
theorem riders_hold_direction_under_grant :
    check 2 turnedUnderGrant = .ok ⟨1, 2, 1, 1, 1⟩ ∧
      AllHead .receive (turnedUnderGrant.take 5) ∧
      wokenIn (.normal .send) (turnedUnderGrant.take 5) =
        wokenIn (.normal .send) (turnedUnderGrant.take 4) ∧
      ∃ b, check 2 (turnedUnderGrant.take 5 ++ [.boarded 1 (.normal .send) true]) =
        .error ⟨5, b⟩ := by
  have hcheck : check 2 turnedUnderGrant = .ok ⟨1, 2, 1, 1, 1⟩ := by decide
  have hreceive : AllHead .receive (turnedUnderGrant.take 5) := by decide
  have hride : ∀ m, 4 < m → m ≤ 5 → (riders (turnedUnderGrant.take m)).Nonempty := by
    intro m hm hm'
    obtain rfl : m = 5 := by omega
    decide
  obtain ⟨-, hgrants, hagainst⟩ := riders_hold_direction hcheck
  exact ⟨hcheck, hreceive, (hgrants 4 5 .receive _ (by decide) hride hreceive rfl).1,
    hagainst 5 le_rfl .receive _ [] (hride 5 (by decide) le_rfl) hreceive rfl⟩

end Trace

end HalfDuplex
