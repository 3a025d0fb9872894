import HalfDuplex.Proofs.Trace.Checking

/-!
# Looking at one rider

The replay finds out which way the bus is held by looking at one of the riders. Here
it looks at any of them, at another one each time, and comes to the same end: as far
as it goes all riders move in one direction.
-/

namespace HalfDuplex.Trace

/-- What is seen is one of the riders, or nobody if nobody rides. -/
structure InSight (riding : List (Nat × Lane)) (seen : Option (Nat × Lane)) : Prop where
  mem : ∀ x, seen = some x → x ∈ riding
  exists_seen : riding ≠ [] → ∃ x, seen = some x

/-- A way of looking at the riders: at every position of a trace it comes upon one of
them, whichever that is. -/
structure Glance where
  seen : Nat → List (Nat × Lane) → Option (Nat × Lane)
  inSight : ∀ i riding, InSight riding (seen i riding)

namespace Replay

def opposed (seen : Option (Nat × Lane)) (d : Direction) : Bool :=
  seen.any fun x => x.2.direction != d

def wakeSeeing (seen : Option (Nat × Lane)) (r : Replay) (l : Lane) (count : Nat) :
    Except Breach Replay :=
  if r.waiting.get l < count then .error (.grantWithoutWaiter l)
  else
    let r := r.rouse l count
    if r.jumpsWaiting l then .error (.priorityBypassed l)
    else if opposed seen l.direction then .error (.conflictingGrant l)
    else .ok r

def rideSeeing (seen : Option (Nat × Lane)) (capacity : Nat) (r : Replay) (task : Nat)
    (l : Lane) : Except Breach Replay :=
  if opposed seen l.direction then .error (.mixedDirections task)
  else
    let r := r.seated task l
    if capacity < r.onBus then .error (.overCapacity r.onBus capacity) else .ok r

def takeSeeing (seen : Option (Nat × Lane)) (capacity : Nat) (r : Replay) :
    Event → Except Breach Replay
  | .queued _ l => .ok (r.queue l)
  | .woken l count => r.wakeSeeing seen l count
  | .boarded task l granted =>
    r.present task l granted >>= fun r => r.rideSeeing seen capacity task l
  | .left task _ => r.leave task

def stepSeeing (seen : Option (Nat × Lane)) (capacity : Nat) (r : Replay) (e : Event) :
    Except Breach Replay :=
  r.takeSeeing seen capacity e >>= fun r =>
    if capacity < r.onBus + r.reserved then .error (.overCommitted r.onBus r.reserved capacity)
    else .ok r

def runSeeing (g : Glance) (capacity : Nat) : Nat → Replay → List Event → Except Violation Replay
  | _, r, [] => .ok r
  | index, r, e :: es =>
    match r.stepSeeing (g.seen index r.riding) capacity e with
    | .ok r => runSeeing g capacity (index + 1) r es
    | .error b => .error ⟨index, b⟩

end Replay

/-- The check of a trace that finds the direction of the bus by `g`. -/
def checkSeeing (g : Glance) (capacity : Nat) (events : List Event) : Except Violation Summary :=
  (Replay.runSeeing g capacity 0 Replay.start events).map Replay.summary

namespace Replay

variable {r : Replay} {es before : List Event} {d : Direction} {seen : Option (Nat × Lane)}

theorem Seats.opposed_eq (h : Seats r es) (hseen : InSight r.riding seen) (d : Direction) :
    opposed seen d = r.opposes d := by
  cases hr : r.riding with
  | nil =>
    cases seen with
    | none => simp [opposed, opposes, heading, hr]
    | some x =>
      have hx := hseen.mem x rfl
      rw [hr] at hx
      cases hx
  | cons y rest =>
    obtain ⟨x, rfl⟩ := hseen.exists_seen (by rw [hr]; exact List.cons_ne_nil y rest)
    -- The replay itself looks at the head of the list.
    have hxy : x.2.direction = y.2.direction :=
      h.one_way x (hseen.mem x rfl) y (by rw [hr]; exact List.mem_cons_self)
    simp only [opposed, opposes, heading, hr, Option.any_some, hxy, List.head?_cons,
      Option.map_some]
    cases y.2.direction <;> cases d <;> rfl

theorem Seats.takeSeeing_eq (h : Seats r es) (hseen : InSight r.riding seen) (capacity : Nat)
    (e : Event) : r.takeSeeing seen capacity e = r.take capacity e := by
  have hopposed := h.opposed_eq hseen
  cases e with
  | queued t l => rfl
  | woken l n =>
    change r.wakeSeeing seen l n = r.wake l n
    simp only [wakeSeeing, wake, hopposed]
    rfl
  | boarded t l granted =>
    change (r.present t l granted >>= fun r => r.rideSeeing seen capacity t l) =
      r.present t l granted >>= fun r => r.ride capacity t l
    cases hp : r.present t l granted with
    | error b => rfl
    | ok r' =>
      have hsame := opposes_of_present hp l.direction
      change r'.rideSeeing seen capacity t l = r'.ride capacity t l
      simp only [rideSeeing, ride, hopposed, hsame]
      rfl
  | left t l => rfl

theorem Seats.runSeeing_eq (h : Seats r before) (g : Glance) (capacity index : Nat)
    (es : List Event) : runSeeing g capacity index r es = run capacity index r es := by
  induction es generalizing index r before with
  | nil => rfl
  | cons e es ih =>
    have hstep : r.stepSeeing (g.seen index r.riding) capacity e = r.step capacity e := by
      unfold stepSeeing step
      rw [h.takeSeeing_eq (g.inSight index r.riding)]
    rw [runSeeing, run_cons, hstep]
    cases hs : r.step capacity e with
    | error b => rfl
    | ok r' =>
      obtain ⟨ha, -, rfl⟩ := step_eq_ok_iff.mp hs
      exact ih (h.after ha) (index + 1)

end Replay

/-- Whichever riders the check of a trace looks at, it comes to the same verdict, with
the same summary or the same breach. For wherever it gets to, everybody has one entry
among the riders and all of them move in one direction. -/
theorem check_same_at_any_glance (g : Glance) (capacity : Nat) (events : List Event) :
    checkSeeing g capacity events = check capacity events ∧
      ∀ i r, Replay.runSeeing g capacity 0 Replay.start (events.take i) = .ok r →
        (r.riding.map Prod.fst).Nodup ∧
          ∀ x ∈ r.riding, ∀ y ∈ r.riding, x.2.direction = y.2.direction := by
  constructor
  · unfold checkSeeing check
    rw [Replay.seats_start.runSeeing_eq]
  · intro i r hr
    rw [Replay.seats_start.runSeeing_eq] at hr
    obtain ⟨-, hrec⟩ := (Replay.run_start_iff capacity (events.take i)).2 r hr
    exact ⟨hrec.nodup, hrec.one_way⟩

/-- Looks at the rider who boarded last and at the one who boarded first, by turns. -/
def byTurns : Glance where
  seen i riding := if i % 2 = 0 then riding.head? else riding.getLast?
  inSight i riding := by
    by_cases hi : i % 2 = 0
    · rw [if_pos hi]
      exact ⟨fun _ => List.mem_of_mem_head?, fun h => ⟨_, List.head?_eq_some_head h⟩⟩
    · rw [if_neg hi]
      exact ⟨fun _ => List.mem_of_mem_getLast?, fun h => ⟨_, List.getLast?_eq_some_getLast h⟩⟩

/-- The first task boards once more by another lane while a second one rides; a task of
the other direction is then refused whoever is looked at. -/
def reboarding : List Event :=
  [.boarded 1 (.normal .send) false, .boarded 2 (.normal .send) false,
    .boarded 1 (.priority .send) false, .queued 3 (.priority .receive),
    .boarded 4 (.normal .send) false, .boarded 5 (.priority .receive) false]

theorem check_same_at_any_glance_reboarding :
    checkSeeing byTurns 3 reboarding = .error ⟨5, .mixedDirections 5⟩ ∧
      check 3 reboarding = .error ⟨5, .mixedDirections 5⟩ ∧
      ∃ r, Replay.runSeeing byTurns 3 0 Replay.start (reboarding.take 5) = .ok r ∧
        r.riding = [(4, .normal .send), (1, .priority .send), (2, .normal .send)] ∧
        ∀ x ∈ r.riding, ∀ y ∈ r.riding, x.2.direction = y.2.direction := by
  obtain ⟨hsame, hreached⟩ := check_same_at_any_glance byTurns 3 reboarding
  have hcheck : check 3 reboarding = .error ⟨5, .mixedDirections 5⟩ := by decide
  refine ⟨hsame.trans hcheck, hcheck, _, rfl, rfl, ?_⟩
  exact (hreached 5 _ rfl).2

end HalfDuplex.Trace
