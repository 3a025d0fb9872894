import HalfDuplex.Proofs.Trace.Checking
import HalfDuplex.Proofs.Trace.Marks
import HalfDuplex.Proofs.Trace.Renaming

/-!
# The order in which granted tasks come back

Tasks that were granted a slot come back in whatever order they take the lock. The check
makes no difference between these orders: after each of them the same ids ride in the same
direction. An id that boarded twice may ride with another rank, but nothing that comes
later is judged by the rank of a rider.
-/

namespace HalfDuplex

theorem PerLane.modify_comm {α : Type} (p : PerLane α) (l k : Lane) (f : α → α) :
    (p.modify l f).modify k f = (p.modify k f).modify l f := by
  rcases l with ⟨_ | _, _ | _⟩ <;> rcases k with ⟨_ | _, _ | _⟩ <;> rfl

namespace Trace

namespace Replay

variable {r r' r'' q q' : Replay} {es fs gs hs : List Event} {e : Event} {l k : Lane}
  {d : Direction} {t u cap index : Nat}

def bound (x : Nat × Lane) : Nat × Direction := (x.1, x.2.direction)

/-- The two replays differ in nothing but the order of the riders and their ranks. -/
structure Matches (r r' : Replay) : Prop where
  riding_perm : (r.riding.map bound).Perm (r'.riding.map bound)
  eq : r' = { r with riding := r'.riding }

theorem Matches.refl (r : Replay) : r.Matches r := ⟨.refl _, rfl⟩

theorem Matches.trans (h : r.Matches r') (h' : r'.Matches r'') : r.Matches r'' where
  riding_perm := h.riding_perm.trans h'.riding_perm
  eq := by
    rw [h'.eq, h.eq]

theorem Matches.summary_eq (h : r.Matches r') : r'.summary = r.summary := by
  rw [h.eq]
  rfl

theorem map_bound_without (r : Replay) (t : Nat) :
    (r.without t).map bound = (r.riding.map bound).filter fun x => x.1 != t := by
  rw [List.filter_map]
  rfl

theorem Matches.without_perm (h : r.Matches r') (t : Nat) :
    ((r.without t).map bound).Perm ((r'.without t).map bound) := by
  rw [map_bound_without, map_bound_without]
  exact h.riding_perm.filter _

theorem Matches.rides (h : r.Matches r') (ht : r.rides t = true) : r'.rides t = true := by
  obtain ⟨x, hx, hxt⟩ := List.any_eq_true.mp ht
  obtain ⟨y, hy, hyx⟩ := List.mem_map.mp (h.riding_perm.subset (List.mem_map_of_mem hx))
  have hid : y.1 = x.1 := (Prod.mk.inj hyx).1
  exact List.any_eq_true.mpr ⟨y, hy, by rwa [hid]⟩

theorem Matches.opposes (h : r.Matches r') (hs : Seats r es) (ho : r.opposes d = false) :
    r'.opposes d = false := by
  apply opposes_eq_false
  intro y hy
  obtain ⟨x, hx, hxy⟩ := List.mem_map.mp (h.riding_perm.symm.subset (List.mem_map_of_mem hy))
  have hway : x.2.direction = y.2.direction := (Prod.mk.inj hxy).2
  rw [← hway]
  exact hs.allHead_iff.mp (hs.opposes_iff.mp ho) x hx

theorem Matches.accepts (h : r.Matches r') (hs : Seats r es) (ha : r.Accepts e) :
    r'.Accepts e := by
  have hwaiting : r'.waiting = r.waiting := by rw [h.eq]
  have hgranted : r'.granted = r.granted := by rw [h.eq]
  cases e with
  | queued t l => trivial
  | woken l n =>
    unfold Accepts
    rw [hwaiting]
    exact ⟨ha.1, ha.2.1, h.opposes hs ha.2.2⟩
  | boarded t l granted =>
    cases granted with
    | true =>
      unfold Accepts
      rw [hgranted]
      exact ⟨ha.1, h.opposes hs ha.2⟩
    | false =>
      unfold Accepts
      rw [hwaiting, hgranted]
      exact ⟨ha.1, h.opposes hs ha.2⟩
  | left t l => exact h.rides ha

theorem Matches.seated (h : r.Matches r') (t : Nat) (l : Lane) :
    (r.seated t l).Matches (r'.seated t l) where
  riding_perm := (h.without_perm t).cons (bound (t, l))
  eq := by
    have hlength := (h.without_perm t).length_eq
    rw [List.length_map, List.length_map] at hlength
    unfold Replay.seated
    rw [← hlength, h.eq]

theorem Matches.after (h : r.Matches r') (e : Event) : (r.after e).Matches (r'.after e) := by
  cases e with
  | queued t l => exact ⟨h.riding_perm, by rw [h.eq]; rfl⟩
  | woken l n => exact ⟨h.riding_perm, by rw [h.eq]; rfl⟩
  | boarded t l granted =>
    cases granted with
    | true =>
      have hspent : (r.spend l).Matches (r'.spend l) := ⟨h.riding_perm, by rw [h.eq]; rfl⟩
      exact hspent.seated t l
    | false => exact h.seated t l
  | left t l => exact ⟨h.without_perm t, by rw [h.eq]; rfl⟩

theorem Matches.onBus_eq (h : r.Matches r') : r'.onBus = r.onBus := by
  have hlength := h.riding_perm.length_eq
  rw [List.length_map, List.length_map] at hlength
  exact hlength.symm

theorem Matches.reserved_eq (h : r.Matches r') : r'.reserved = r.reserved := by
  rw [h.eq]
  rfl

theorem Matches.step (h : r.Matches r') (hs : Seats r es) (hr : r.step cap e = .ok q) :
    ∃ q', r'.step cap e = .ok q' ∧ q.Matches q' := by
  obtain ⟨ha, hfit, rfl⟩ := step_eq_ok_iff.mp hr
  have hafter := h.after e
  rw [← hafter.onBus_eq, ← hafter.reserved_eq] at hfit
  exact ⟨r'.after e, step_eq_ok_iff.mpr ⟨h.accepts hs ha, hfit, rfl⟩, hafter⟩

theorem Seats.step (h : Seats r es) (hr : r.step cap e = .ok q) : Seats q (es ++ [e]) := by
  obtain ⟨ha, -, rfl⟩ := step_eq_ok_iff.mp hr
  exact h.after ha

/-- What the two differ in, no later event is judged by. -/
theorem Matches.run (h : r.Matches r') (hs : Seats r es) (hr : run cap index r fs = .ok q) :
    ∃ q', Replay.run cap index r' fs = .ok q' ∧ q.Matches q' := by
  induction fs generalizing r r' es index with
  | nil =>
    cases hr
    exact ⟨r', rfl, h⟩
  | cons f fs ih =>
    obtain ⟨r₁, hf, hr₁⟩ := run_cons_eq_ok_iff.mp hr
    obtain ⟨r₁', hf', h₁⟩ := h.step hs hf
    obtain ⟨q', hr', hq⟩ := ih h₁ (hs.step hf) hr₁
    exact ⟨q', run_cons_eq_ok_iff.mpr ⟨r₁', hf', hr'⟩, hq⟩

theorem Seats.onBus_le (h : Seats r es) (t : Nat) : r.onBus ≤ (r.without t).length + 1 := by
  have hcount := List.nodup_iff_count_le_one.mp h.nodup t
  rw [List.count_eq_countP, List.countP_map] at hcount
  have hsplit := r.riding.length_eq_length_filter_add fun x => x.1 == t
  rw [← List.countP_eq_length_filter] at hsplit
  change r.riding.countP (fun x => x.1 == t) ≤ 1 at hcount
  change r.riding.length ≤ (r.riding.filter fun x => !(x.1 == t)).length + 1
  omega

theorem slots_after_granted (r : Replay) (t : Nat) (h : 0 < r.granted.get l) :
    (r.after (.boarded t l true)).onBus + (r.after (.boarded t l true)).reserved ≤
      r.onBus + r.reserved := by
  have hlength := r.length_without_le t
  have hsum := r.granted.sum_modify l (· - 1)
  change (r.without t).length + 1 + (r.granted.modify l (· - 1)).sum ≤ r.onBus + r.granted.sum
  omega

theorem opposes_seated_iff : (r.seated t l).opposes d = false ↔ l.direction = d := by
  change (some l.direction == some d.other) = false ↔ _
  rw [beq_eq_false_iff_ne, ne_eq, Option.some.injEq]
  exact ⟨fun h => by_contra fun hne => h (Direction.eq_other_of_ne hne),
    fun h => h ▸ (Direction.other_ne _).symm⟩

theorem seated_seated_perm (hd : l.direction = k.direction) :
    (((r.seated t l).seated u k).riding.map bound).Perm
      (((r.seated u k).seated t l).riding.map bound) := by
  change (bound (u, k) :: ((r.seated t l).without u).map bound).Perm
    (bound (t, l) :: ((r.seated u k).without t).map bound)
  rw [map_bound_without, map_bound_without]
  change (bound (u, k) :: (bound (t, l) :: (r.without t).map bound).filter _).Perm
    (bound (t, l) :: (bound (u, k) :: (r.without u).map bound).filter _)
  rw [map_bound_without, map_bound_without]
  by_cases htu : t = u
  · subst htu
    have hbound : bound (t, k) = bound (t, l) := Prod.ext rfl hd.symm
    rw [hbound]
  · rw [List.filter_cons_of_pos (by simpa [bound] using htu),
      List.filter_cons_of_pos (by simpa [bound] using Ne.symm htu), List.filter_comm]
    exact .swap _ _ _

theorem accepts_swapped (ht : r.Accepts (.boarded t l true))
    (hu : (r.after (.boarded t l true)).Accepts (.boarded u k true)) :
    l.direction = k.direction ∧ r.Accepts (.boarded u k true) ∧
      (r.after (.boarded u k true)).Accepts (.boarded t l true) := by
  obtain ⟨hl, ho⟩ := ht
  obtain ⟨hk, hboth⟩ := hu
  have hd : l.direction = k.direction := opposes_seated_iff.mp hboth
  change 0 < (r.granted.modify l (· - 1)).get k at hk
  refine ⟨hd, ⟨?_, hd ▸ ho⟩, ?_, opposes_seated_iff.mpr hd.symm⟩
  · rw [PerLane.get_modify] at hk
    split at hk <;> omega
  · change 0 < (r.granted.modify k (· - 1)).get l
    rw [PerLane.get_modify] at hk ⊢
    by_cases hlk : l = k
    · subst hlk
      exact hk
    · rwa [if_neg (Ne.symm hlk)]

theorem peakOnBus_swapped (h : Seats r es) (hd : l.direction = k.direction)
    (ht : r.Accepts (.boarded t l true)) (hu : r.Accepts (.boarded u k true)) :
    ((r.after (.boarded u k true)).after (.boarded t l true)).peakOnBus =
      ((r.after (.boarded t l true)).after (.boarded u k true)).peakOnBus := by
  have hfirst := (h.after ht).onBus_le u
  have hfirst' := (h.after hu).onBus_le t
  have hboth := (seated_seated_perm (r := r) (t := t) (u := u) hd).length_eq
  rw [List.length_map, List.length_map] at hboth
  change (r.without t).length + 1 ≤ _ at hfirst
  change (r.without u).length + 1 ≤ _ at hfirst'
  change ((r.after (.boarded t l true)).without u).length + 1 =
    ((r.after (.boarded u k true)).without t).length + 1 at hboth
  change max (max r.peakOnBus ((r.without u).length + 1))
      (((r.after (.boarded u k true)).without t).length + 1) =
    max (max r.peakOnBus ((r.without t).length + 1))
      (((r.after (.boarded t l true)).without u).length + 1)
  omega

theorem matches_swapped (h : Seats r es) (ht : r.Accepts (.boarded t l true))
    (hu : (r.after (.boarded t l true)).Accepts (.boarded u k true)) :
    ((r.after (.boarded t l true)).after (.boarded u k true)).Matches
      ((r.after (.boarded u k true)).after (.boarded t l true)) := by
  obtain ⟨hd, hu', -⟩ := accepts_swapped ht hu
  have hgranted := r.granted.modify_comm k l (· - 1)
  have hpeak := peakOnBus_swapped h hd ht hu'
  exact ⟨seated_seated_perm hd,
    (Replay.mk.injEq ..).mpr ⟨rfl, rfl, hgranted, rfl, rfl, rfl, hpeak⟩⟩

theorem step_swapped (h : Seats r es) (hfit : r.onBus + r.reserved ≤ cap)
    (ht : r.step cap (.boarded t l true) = .ok r') (hu : r'.step cap (.boarded u k true) = .ok q) :
    ∃ r'' q', r.step cap (.boarded u k true) = .ok r'' ∧
      r''.step cap (.boarded t l true) = .ok q' ∧ q.Matches q' := by
  obtain ⟨hta, -, rfl⟩ := step_eq_ok_iff.mp ht
  obtain ⟨hua, hqfit, rfl⟩ := step_eq_ok_iff.mp hu
  obtain ⟨-, hua', hta'⟩ := accepts_swapped hta hua
  have hq := matches_swapped h hta hua
  rw [← hq.onBus_eq, ← hq.reserved_eq] at hqfit
  exact ⟨_, _, step_eq_ok_iff.mpr
    ⟨hua', Nat.le_trans (slots_after_granted r u hua'.1) hfit, rfl⟩,
    step_eq_ok_iff.mpr ⟨hta', hqfit, rfl⟩, hq⟩

theorem eq_boarded_of_mark (h : e.mark.isGranted = true) : ∃ t l, e = .boarded t l true := by
  cases e with
  | boarded t l granted =>
    cases granted with
    | true => exact ⟨t, l, rfl⟩
    | false => cases h
  | _ => cases h

/-- Boardings by a grant come to the same in any order. -/
theorem run_of_perm (hp : gs.Perm hs) (hg : ∀ e ∈ gs, e.mark.isGranted = true)
    (h : Seats r es) (hfit : r.onBus + r.reserved ≤ cap) (hr : run cap index r gs = .ok q) :
    ∃ q', run cap index r hs = .ok q' ∧ q.Matches q' := by
  induction hp generalizing r es index q with
  | nil => exact ⟨q, hr, .refl q⟩
  | cons e _ ih =>
    obtain ⟨r₁, he, hr₁⟩ := run_cons_eq_ok_iff.mp hr
    obtain ⟨q', hr', hq⟩ :=
      ih (fun f hf => hg f (List.mem_cons_of_mem e hf)) (h.step he) (fits_of_step he) hr₁
    exact ⟨q', run_cons_eq_ok_iff.mpr ⟨r₁, he, hr'⟩, hq⟩
  | swap f e gs =>
    obtain ⟨r₁, he, hr₁⟩ := run_cons_eq_ok_iff.mp hr
    obtain ⟨r₂, hf, hr₂⟩ := run_cons_eq_ok_iff.mp hr₁
    obtain ⟨t, l, rfl⟩ := eq_boarded_of_mark (hg e List.mem_cons_self)
    obtain ⟨u, k, rfl⟩ := eq_boarded_of_mark (hg f (List.mem_cons_of_mem _ List.mem_cons_self))
    obtain ⟨r₁', r₂', hf', he', h₂⟩ := step_swapped h hfit he hf
    obtain ⟨q', hr', hq⟩ := h₂.run ((h.step he).step hf) hr₂
    exact ⟨q', run_cons_eq_ok_iff.mpr ⟨r₁', hf', run_cons_eq_ok_iff.mpr ⟨r₂', he', hr'⟩⟩, hq⟩
  | trans hp hp' ih ih' =>
    obtain ⟨q', hr', hq⟩ := ih hg h hfit hr
    obtain ⟨q'', hr'', hq'⟩ := ih' (fun e he => hg e (hp.mem_iff.mpr he)) h hfit hr'
    exact ⟨q'', hr'', hq.trans hq'⟩

end Replay

variable {capacity : Nat} {before after gs hs : List Event} {s : Summary}

theorem check_of_perm (hp : gs.Perm hs) (hg : ∀ e ∈ gs, e.mark.isGranted = true)
    (h : check capacity (before ++ gs ++ after) = .ok s) :
    check capacity (before ++ hs ++ after) = .ok s := by
  obtain ⟨q, hrun, rfl⟩ := check_eq_ok_iff_run.mp h
  obtain ⟨q₁, hupto, hafter⟩ := Replay.run_append_eq_ok_iff.mp hrun
  obtain ⟨r, hbefore, hgs⟩ := Replay.run_append_eq_ok_iff.mp hupto
  obtain ⟨-, hrec⟩ := (Replay.run_start_iff capacity before).2 r hbefore
  obtain ⟨-, hrec₁⟩ := (Replay.run_start_iff capacity (before ++ gs)).2 q₁ hupto
  have hfit : r.onBus + r.reserved ≤ capacity :=
    Replay.run_keeps (P := fun r => r.onBus + r.reserved ≤ capacity)
      (fun hstep _ => Replay.fits_of_step hstep) hbefore (Nat.zero_le _)
  obtain ⟨q₁', hhs, hq₁⟩ := Replay.run_of_perm hp hg hrec.toSeats hfit hgs
  obtain ⟨q', hafter', hq⟩ := hq₁.run hrec₁.toSeats hafter
  rw [List.length_append, hp.length_eq, ← List.length_append] at hafter'
  rw [← hq.summary_eq]
  exact check_eq_ok_iff_run.mpr ⟨q', Replay.run_append_eq_ok_iff.mpr
    ⟨q₁', Replay.run_append_eq_ok_iff.mpr ⟨r, hbefore, hhs⟩, hafter'⟩, rfl⟩

/-- Other ids for the tasks, two tasks having different ones as before, change nothing in a
verdict but the id that it names. And whether the check passes a trace, and with which
summary, does not depend on the order in which boardings by a grant follow each other. -/
theorem check_same_up_to_names_and_order :
    (∀ f : Nat → Nat, Function.Injective f → ∀ capacity events,
      check capacity (events.map (Event.rename f)) =
        (check capacity events).mapError (Violation.rename f)) ∧
      ∀ capacity before gs hs after s, gs.Perm hs → (∀ e ∈ gs, e.mark.isGranted = true) →
        (check capacity (before ++ gs ++ after) = .ok s ↔
          check capacity (before ++ hs ++ after) = .ok s) := by
  refine ⟨fun f hf => check_rename hf, fun capacity before gs hs after s hp hg => ?_⟩
  have hg' : ∀ e ∈ hs, e.mark.isGranted = true := fun e he => hg e (hp.mem_iff.mpr he)
  exact ⟨check_of_perm hp hg, check_of_perm hp.symm hg'⟩

/-- Three tasks are granted slots. One of them waits in two lanes at once, so that its
second boarding replaces the first. -/
def threeGranted : List Event :=
  [.queued 1 (.priority .send), .queued 2 (.normal .send), .queued 1 (.normal .send),
    .woken (.priority .send) 1, .woken (.normal .send) 2]

/-- The three come back in two orders, after which one rides in another lane. Under odd ids
a stranger who boards against them is reported by the new id. -/
theorem check_same_up_to_names_and_order_returning :
    check 3 (threeGranted ++ [.boarded 1 (.priority .send) true, .boarded 2 (.normal .send) true,
      .boarded 1 (.normal .send) true] ++ [.left 1 (.priority .send)]) = .ok ⟨3, 3, 1, 2, 0⟩ ∧
    check 3 (threeGranted ++ [.boarded 1 (.normal .send) true, .boarded 1 (.priority .send) true,
      .boarded 2 (.normal .send) true] ++ [.left 1 (.priority .send)]) = .ok ⟨3, 3, 1, 2, 0⟩ ∧
    check 3 (List.map (Event.rename fun t => 2 * t + 1) (threeGranted ++
      [.boarded 2 (.normal .send) true, .boarded 4 (.normal .receive) false])) =
        .error ⟨6, .mixedDirections 9⟩ := by
  obtain ⟨hrename, horder⟩ := check_same_up_to_names_and_order
  have hfirst : check 3 (threeGranted ++ [.boarded 1 (.priority .send) true,
      .boarded 2 (.normal .send) true, .boarded 1 (.normal .send) true] ++
        [.left 1 (.priority .send)]) = .ok ⟨3, 3, 1, 2, 0⟩ := by decide
  have hstranger : check 3 (threeGranted ++ [.boarded 2 (.normal .send) true,
      .boarded 4 (.normal .receive) false]) = .error ⟨6, .mixedDirections 4⟩ := by decide
  have hodd : Function.Injective fun t => 2 * t + 1 := fun t u h => by
    change 2 * t + 1 = 2 * u + 1 at h
    omega
  refine ⟨hfirst, (horder _ _ _ _ _ _ (by decide) (by decide)).mp hfirst, ?_⟩
  rw [hrename _ hodd, hstranger]
  rfl

end Trace

end HalfDuplex
