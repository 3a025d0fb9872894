import HalfDuplex.Proofs.Trace.Steps
import Mathlib.Logic.Function.Basic

/-!
# Tasks under other names

The check tells tasks apart by their ids and takes nothing else from an id. With other
ids, two tasks having different ones as before, a trace is judged as it was, and a breach
names the same task.
-/

namespace HalfDuplex

def Event.rename (f : Nat → Nat) : Event → Event
  | .queued t l => .queued (f t) l
  | .woken l n => .woken l n
  | .boarded t l granted => .boarded (f t) l granted
  | .left t l => .left (f t) l

namespace Trace

def Breach.rename (f : Nat → Nat) : Breach → Breach
  | .mixedDirections t => .mixedDirections (f t)
  | .boardWithoutGrant t => .boardWithoutGrant (f t)
  | .unknownTask t => .unknownTask (f t)
  | b => b

def Violation.rename (f : Nat → Nat) (v : Violation) : Violation := ⟨v.index, v.breach.rename f⟩

namespace Replay

variable {f : Nat → Nat} {r : Replay} {es : List Event} {e : Event} {l : Lane} {d : Direction}
  {t n cap index : Nat}

def rename (f : Nat → Nat) (r : Replay) : Replay :=
  { r with riding := r.riding.map (Prod.map f id) }

/-- What a step comes to, with `f t` for every id `t`. -/
def renameResult (f : Nat → Nat) (x : Except Breach Replay) : Except Breach Replay :=
  (x.map (rename f)).mapError (Breach.rename f)

theorem onBus_rename : (r.rename f).onBus = r.onBus := List.length_map _

theorem opposes_rename : (r.rename f).opposes d = r.opposes d := by
  unfold opposes heading rename
  cases r.riding <;> rfl

theorem rides_rename (hf : Function.Injective f) : (r.rename f).rides (f t) = r.rides t := by
  unfold rides rename
  rw [List.any_map]
  congr 1
  funext x
  exact Bool.eq_iff_iff.mpr (by simp [hf.eq_iff])

theorem without_rename (hf : Function.Injective f) :
    (r.rename f).without (f t) = (r.without t).map (Prod.map f id) := by
  unfold without rename
  rw [List.filter_map]
  congr 2
  funext x
  exact Bool.eq_iff_iff.mpr (by simp [hf.eq_iff])

theorem seated_rename (hf : Function.Injective f) :
    (r.rename f).seated (f t) l = (r.seated t l).rename f := by
  unfold seated
  rw [without_rename hf, List.length_map]
  rfl

theorem wake_rename : (r.rename f).wake l n = renameResult f (r.wake l n) := by
  unfold wake
  change (if r.waiting.get l < n then _ else if (r.rouse l n).jumpsWaiting l = true then _ else
    if ((r.rouse l n).rename f).opposes l.direction = true then _ else _) = _
  rw [opposes_rename]
  simp only [apply_ite (renameResult f)]
  rfl

theorem present_rename {granted : Bool} :
    (r.rename f).present (f t) l granted = renameResult f (r.present t l granted) := by
  unfold present
  simp only [apply_ite (renameResult f)]
  rfl

theorem ride_rename (hf : Function.Injective f) :
    (r.rename f).ride cap (f t) l = renameResult f (r.ride cap t l) := by
  unfold ride
  rw [opposes_rename]
  simp only [apply_ite (renameResult f)]
  change (if r.opposes l.direction = true then _ else
    if cap < ((r.rename f).seated (f t) l).onBus then
      Except.error (Breach.overCapacity ((r.rename f).seated (f t) l).onBus cap) else
      Except.ok ((r.rename f).seated (f t) l)) = _
  rw [seated_rename hf, onBus_rename]
  rfl

theorem leave_rename (hf : Function.Injective f) :
    (r.rename f).leave (f t) = renameResult f (r.leave t) := by
  unfold leave
  rw [rides_rename hf, without_rename hf, apply_ite (renameResult f)]
  rfl

theorem take_rename (hf : Function.Injective f) :
    (r.rename f).take cap (e.rename f) = renameResult f (r.take cap e) := by
  cases e with
  | queued t l => rfl
  | woken l n => exact wake_rename
  | boarded t l granted =>
    change (r.rename f).present (f t) l granted >>= (fun r => r.ride cap (f t) l) =
      renameResult f (r.present t l granted >>= fun r => r.ride cap t l)
    rw [present_rename]
    cases r.present t l granted with
    | error b => rfl
    | ok r' => exact ride_rename hf
  | left t l => exact leave_rename hf

theorem step_rename (hf : Function.Injective f) :
    (r.rename f).step cap (e.rename f) = renameResult f (r.step cap e) := by
  unfold step
  rw [take_rename hf]
  cases r.take cap e with
  | error b => rfl
  | ok r' =>
    change (if cap < (r'.rename f).onBus + r'.reserved then
      Except.error (.overCommitted (r'.rename f).onBus r'.reserved cap) else _) =
        renameResult f (if cap < r'.onBus + r'.reserved then _ else _)
    rw [onBus_rename, apply_ite (renameResult f)]
    rfl

theorem run_rename (hf : Function.Injective f) :
    run cap index (r.rename f) (es.map (Event.rename f)) =
      ((run cap index r es).map (rename f)).mapError (Violation.rename f) := by
  induction es generalizing index r with
  | nil => rfl
  | cons e es ih =>
    rw [List.map_cons, run_cons, run_cons, step_rename hf]
    cases r.step cap e with
    | error b => rfl
    | ok r' => exact ih

end Replay

theorem check_rename {f : Nat → Nat} (hf : Function.Injective f) (capacity : Nat)
    (events : List Event) : check capacity (events.map (Event.rename f)) =
      (check capacity events).mapError (Violation.rename f) := by
  have hrun : Replay.run capacity 0 Replay.start (events.map (Event.rename f)) =
      ((Replay.run capacity 0 Replay.start events).map (Replay.rename f)).mapError
        (Violation.rename f) := Replay.run_rename (r := Replay.start) hf
  unfold check
  rw [hrun]
  cases Replay.run capacity 0 Replay.start events <;> rfl

end Trace

end HalfDuplex
