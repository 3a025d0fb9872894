import HalfDuplex.PerLane
import HalfDuplex.Proofs.Trace.Ledger
import HalfDuplex.Trace.Replay
import Mathlib.Algebra.GroupWithZero.Nat
import Mathlib.Data.Finset.Card

/-!
# The rules of admission, by counting

What an event may do is said here without a replay, by counting the events before
it: how many tasks of a lane have queued, been woken and come back, and which
tasks ride because they have boarded and not left since.
-/

namespace HalfDuplex

namespace Event

def isQueuedIn (l : Lane) : Event → Bool
  | .queued _ k => k == l
  | _ => false

/-- How many tasks of `l` the event wakes. -/
def wakes (l : Lane) : Event → Nat
  | .woken k n => if k = l then n else 0
  | _ => 0

def isReturnIn (l : Lane) : Event → Bool
  | .boarded _ k true => k == l
  | _ => false

/-- What the event says of the seat of a task: that it has one since it boarded by
some lane, that it has none since it left, or nothing. -/
def seat? (task : Nat) : Event → Option (Option Lane)
  | .boarded t l _ => if t = task then some (some l) else none
  | .left t _ => if t = task then some none else none
  | _ => none

end Event

namespace Trace

variable {l k : Lane} {d : Direction} {task t : Nat} {e : Event} {es fs : List Event}

def queuedIn (l : Lane) (es : List Event) : Nat := es.countP (Event.isQueuedIn l)

def wokenIn (l : Lane) (es : List Event) : Nat := (es.map (Event.wakes l)).sum

def returnedIn (l : Lane) (es : List Event) : Nat := es.countP (Event.isReturnIn l)

/-- The lane that a task rides by, if it rides: the latest of its boardings and
departures is a boarding by this lane. -/
def laneOf (task : Nat) (es : List Event) : Option Lane :=
  (es.reverse.findSome? (Event.seat? task)).join

def riders (es : List Event) : Finset Nat :=
  ((es.filterMap Event.boarding?).map Prod.fst).toFinset.filter fun t => (laneOf t es).isSome

/-- Everybody who rides moves in direction `d`. -/
def AllHead (d : Direction) (es : List Event) : Prop :=
  ∀ t ∈ riders es, (laneOf t es).map Lane.direction = some d

/-- How many grants have been given out and not been taken up. -/
def outstanding (es : List Event) : Nat :=
  (PerLane.ofFn fun l => wokenIn l es - returnedIn l es).sum

/-- What the events `before` it have to be like for an event. -/
def Admissible (before : List Event) : Event → Prop
  | .queued _ _ => True
  | .woken l n => n ≤ queuedIn l before - wokenIn l before ∧
      (l.rank = .normal → queuedIn (.priority l.direction) before =
        wokenIn (.priority l.direction) before) ∧ AllHead l.direction before
  | .boarded _ l true => returnedIn l before < wokenIn l before ∧ AllHead l.direction before
  | .boarded _ l false =>
      (l.rank = .normal → queuedIn (.priority l.direction) before =
        returnedIn (.priority l.direction) before) ∧ AllHead l.direction before
  | .left task _ => task ∈ riders before

/-- Every event is admissible, and after each one riders and outstanding grants fit
the bus. -/
def Lawful (capacity : Nat) (events : List Event) : Prop :=
  ∀ i (h : i < events.length), Admissible (events.take i) events[i] ∧
    (riders (events.take (i + 1))).card + outstanding (events.take (i + 1)) ≤ capacity

def mostRiders (events : List Event) : Nat :=
  ((List.range (events.length + 1)).map fun i => (riders (events.take i)).card).foldl max 0

def tally (events : List Event) : Summary where
  queued := events.countP Event.isQueued
  boarded := (events.filterMap Event.boarding?).length
  left := (events.filterMap Event.leaving?).length
  peakOnBus := mostRiders events
  unfinished := (PerLane.ofFn fun l => queuedIn l events - returnedIn l events).sum

instance : Decidable (AllHead d es) := inferInstanceAs (Decidable (∀ t ∈ riders es, _))

instance (before : List Event) (e : Event) : Decidable (Admissible before e) :=
  match e with
  | .queued _ _ => inferInstanceAs (Decidable True)
  | .woken _ _ => inferInstanceAs (Decidable (_ ∧ (_ → _) ∧ AllHead _ _))
  | .boarded _ _ true => inferInstanceAs (Decidable (_ ∧ AllHead _ _))
  | .boarded _ _ false => inferInstanceAs (Decidable ((_ → _) ∧ AllHead _ _))
  | .left _ _ => inferInstanceAs (Decidable (_ ∈ riders _))

instance (capacity : Nat) (events : List Event) : Decidable (Lawful capacity events) :=
  inferInstanceAs (Decidable (∀ i (_h : i < events.length), _))

theorem queuedIn_concat (l : Lane) (es : List Event) (e : Event) :
    queuedIn l (es ++ [e]) = queuedIn l es + if e.isQueuedIn l then 1 else 0 := by
  unfold queuedIn
  rw [List.countP_append, List.countP_singleton]

theorem wokenIn_concat (l : Lane) (es : List Event) (e : Event) :
    wokenIn l (es ++ [e]) = wokenIn l es + e.wakes l := by
  unfold wokenIn
  rw [List.map_append, List.sum_append, List.map_singleton, List.sum_singleton]

theorem returnedIn_concat (l : Lane) (es : List Event) (e : Event) :
    returnedIn l (es ++ [e]) = returnedIn l es + if e.isReturnIn l then 1 else 0 := by
  unfold returnedIn
  rw [List.countP_append, List.countP_singleton]

theorem laneOf_concat (t : Nat) (es : List Event) (e : Event) :
    laneOf t (es ++ [e]) = (e.seat? t).elim (laneOf t es) id := by
  unfold laneOf
  rw [List.reverse_append, List.reverse_singleton, List.singleton_append, List.findSome?_cons]
  cases e.seat? t <;> rfl

theorem boarding?_of_seat? (h : e.seat? t = some (some l)) : e.boarding? = some (t, l) := by
  cases e with
  | boarded task k granted =>
    obtain ⟨rfl, hl⟩ := Option.ite_none_right_eq_some.mp h
    cases hl
    rfl
  | left task k =>
    obtain ⟨-, hl⟩ := Option.ite_none_right_eq_some.mp h
    cases hl
  | queued task k => cases h
  | woken k n => cases h

theorem mem_riders_iff : t ∈ riders es ↔ ∃ l, laneOf t es = some l := by
  unfold riders
  rw [Finset.mem_filter, List.mem_toFinset, Option.isSome_iff_exists]
  refine and_iff_right_of_imp fun ⟨l, hl⟩ => ?_
  obtain ⟨e, he, hseat⟩ := List.exists_of_findSome?_eq_some (Option.join_eq_some_iff.mp hl)
  exact List.mem_map.mpr ⟨(t, l), List.mem_filterMap.mpr
    ⟨e, List.mem_reverse.mp he, boarding?_of_seat? hseat⟩, rfl⟩

theorem take_concat {i : Nat} (hi : i ≤ es.length) : (es ++ [e]).take i = es.take i :=
  List.take_append_of_le_length hi

theorem lawful_nil (capacity : Nat) : Lawful capacity [] := fun _ h => absurd h (Nat.not_lt_zero _)

theorem lawful_concat_iff {capacity : Nat} : Lawful capacity (es ++ [e]) ↔
    Lawful capacity es ∧ Admissible es e ∧
      (riders (es ++ [e])).card + outstanding (es ++ [e]) ≤ capacity := by
  have hlength : (es ++ [e]).length = es.length + 1 := List.length_append
  have hend : es.length < (es ++ [e]).length := by omega
  have hlast : (es ++ [e])[es.length] = e := List.getElem_concat_length rfl _
  have htake : (es ++ [e]).take es.length = es := List.take_left
  have hall : (es ++ [e]).take (es.length + 1) = es ++ [e] := by rw [← hlength, List.take_length]
  constructor
  · intro h
    constructor
    · intro i hi
      have hi' := h i (by omega)
      rwa [take_concat (Nat.le_of_lt hi), take_concat hi, List.getElem_append_left hi] at hi'
    · have hnew := h es.length hend
      rwa [htake, hall, hlast] at hnew
  · rintro ⟨h, hnew⟩ i hi
    obtain hi' | rfl := Nat.lt_or_eq_of_le (Nat.le_of_lt_succ (hlength ▸ hi))
    · rw [take_concat (Nat.le_of_lt hi'), take_concat hi', List.getElem_append_left hi']
      exact h i hi'
    · rw [htake, hall, hlast]
      exact hnew

theorem mostRiders_eq (es : List Event) : mostRiders es =
    max (((List.range es.length).map fun i => (riders (es.take i)).card).foldl max 0)
      (riders es).card := by
  unfold mostRiders
  rw [List.range_succ, List.map_append, List.foldl_append, List.map_singleton, List.take_length]
  rfl

theorem card_riders_le_mostRiders (es : List Event) : (riders es).card ≤ mostRiders es := by
  rw [mostRiders_eq]
  exact Nat.le_max_right _ _

theorem mostRiders_concat (es : List Event) (e : Event) :
    mostRiders (es ++ [e]) = max (mostRiders es) (riders (es ++ [e])).card := by
  have hlength : (es ++ [e]).length = es.length + 1 := List.length_append
  have hbefore : (List.range (es.length + 1)).map (fun i => (riders ((es ++ [e]).take i)).card) =
      (List.range (es.length + 1)).map fun i => (riders (es.take i)).card := by
    apply List.map_congr_left
    intro i hi
    rw [take_concat (Nat.le_of_lt_succ (List.mem_range.mp hi))]
  rw [mostRiders_eq (es ++ [e]), hlength, hbefore]
  rfl

end Trace

end HalfDuplex
