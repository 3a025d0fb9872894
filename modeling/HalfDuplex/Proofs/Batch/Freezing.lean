import HalfDuplex.Batch.Run
import HalfDuplex.Proofs.Crew.Integrity
import HalfDuplex.Proofs.Semaphore.Accounts

/-!
# Frozen buses

Who gives back a slot on a bus that nobody rides lifts the free permits above
their bound, and the fault poisons the bus before anything else has changed. Every
later call faults too. Nothing that the lock guards changes any more, whoever has
been promised a slot; only the permits grow, by one with each further departure.
-/

namespace HalfDuplex

namespace Bus

variable {b b' b'' : Bus} {cap k : Nat}

/-- What the lock guards is the same in both buses. -/
structure Untouched (b b' : Bus) : Prop where
  arbiter_eq : b'.arbiter = b.arbiter
  stats_eq : b'.stats = b.stats
  trace_eq : b'.trace = b.trace

theorem untouched_refl (b : Bus) : Untouched b b := ⟨rfl, rfl, rfl⟩

theorem Untouched.trans (h : Untouched b b') (h' : Untouched b' b'') : Untouched b b'' :=
  ⟨h'.arbiter_eq.trans h.arbiter_eq, h'.stats_eq.trans h.stats_eq, h'.trace_eq.trans h.trace_eq⟩

/-- The bus is poisoned, and `k` departures have gone past the bound of its slots. -/
structure Frozen (cap k : Nat) (b : Bus) : Prop where
  poisoned : b.poisoned = true
  slots_eq : b.slots = ⟨cap, min (cap + k) Word.largest⟩

theorem release_of_full (hs : b.slots = ⟨cap, min (cap + k) Word.largest⟩)
    (hcap : cap < Word.size) (t : Task) :
    ∃ b', b.release false t =
        .fault b' (.semaphore (Semaphore.excess (min (cap + k) Word.largest) cap)) ∧
      Frozen cap (k + 1) b' ∧ Untouched b b' := by
  have hlargest : Word.largest + 1 = Word.size := rfl
  have hsig := Semaphore.signal_of_full (s := ⟨cap, min (cap + k) Word.largest⟩)
    (by change cap ≤ min (cap + k) Word.largest; omega) (Nat.min_le_right _ _)
  have hmin : min (min (cap + k) Word.largest + 1) Word.largest =
      min (cap + (k + 1)) Word.largest := by omega
  dsimp only at hsig
  rw [hmin] at hsig
  refine ⟨{ b with slots := ⟨cap, min (cap + (k + 1)) Word.largest⟩, poisoned := true }, ?_,
    ⟨rfl, rfl⟩, ⟨rfl, rfl, rfl⟩⟩
  rw [release, if_neg Bool.false_ne_true, giveBack, hs, hsig]
  rfl

/-- What a thread that is not giving up can do about a bus. -/
inductive Op where
  | enter (t : Task)
  | comeBack (t : Task)
  | release (t : Task)
  | runTask (t : Task) (c : Batch.Config) (thread : Option String) (givesUp : String → Bool)
  | snapshot
  | readStats
  | takeTrace
  /-- A task that is blocked on `l` picks a permit up. It makes no call. -/
  | pickUp (l : Lane)

def Op.isCall : Op → Bool
  | .pickUp _ => false
  | _ => true

def Op.isRelease : Op → Bool
  | .release _ => true
  | _ => false

/-- The bus after the operation, and whether it faulted. -/
def perform (b : Bus) : Op → Outcome Bus Failure Unit
  | .enter t => ((b.enter t).map fun _ => ()).within id .bus
  | .comeBack t => (b.comeBack t).within id .bus
  | .release t => ((b.release false t).map fun _ => ()).within id .bus
  | .runTask t c thread givesUp =>
    let crew := Batch.runTask b t c thread givesUp
    match crew.workers.findSome? Worker.failure? with
    | some f => .fault crew.bus f
    | none => .done crew.bus ()
  | .snapshot => ⟨b, (b.snapshot.map fun _ => ()).mapError .bus⟩
  | .readStats => ⟨b, (b.readStats.map fun _ => ()).mapError .bus⟩
  | .takeTrace => (b.takeTrace.map fun _ => ()).within id .bus
  | .pickUp l => .done ((b.passQueue? l).getD b) ()

def afterOps (b : Bus) (ops : List Op) : Bus := ops.foldl (fun b op => (b.perform op).state) b

theorem runTask_of_poisoned (h : b.poisoned = true) (t : Task) (c : Batch.Config)
    (thread : Option String) (givesUp : String → Bool) :
    b.perform (.runTask t c thread givesUp) = .fault b (.bus .poisoned) := by
  obtain ⟨arbiter, slots, queues, stats, trace, poisoned⟩ := b
  cases h
  rfl

theorem perform_of_poisoned (h : b.poisoned = true) {op : Op} (hcall : op.isCall = true)
    (hrelease : op.isRelease = false) : b.perform op = .fault b (.bus .poisoned) := by
  cases op with
  | enter t => rw [perform, enter_of_poisoned h]; rfl
  | comeBack t => rw [perform, comeBack_of_poisoned h]; rfl
  | release t => cases hrelease
  | runTask t c thread givesUp => exact runTask_of_poisoned h t c thread givesUp
  | snapshot => rw [perform, snapshot, read, if_pos h]; rfl
  | readStats => rw [perform, readStats, read, if_pos h]; rfl
  | takeTrace => rw [perform, takeTrace, if_pos h]; rfl
  | pickUp l => cases hcall

theorem Frozen.perform (h : Frozen cap k b) (hcap : cap < Word.size) (op : Op) :
    Frozen cap (k + op.isRelease.toNat) (b.perform op).state ∧
      Untouched b (b.perform op).state ∧ (op.isCall = true → (b.perform op).isDone = false) := by
  cases op with
  | release t =>
    obtain ⟨b', he, hfrozen, hsame⟩ := release_of_full h.slots_eq hcap t
    rw [Bus.perform, he]
    exact ⟨hfrozen, hsame, fun _ => rfl⟩
  | pickUp l =>
    rw [Bus.perform]
    cases hp : b.passQueue? l with
    | none => exact ⟨h, untouched_refl b, fun hcall => by cases hcall⟩
    | some b' =>
      obtain ⟨s, -, rfl⟩ := Option.map_eq_some_iff.mp hp
      exact ⟨⟨h.poisoned, h.slots_eq⟩, ⟨rfl, rfl, rfl⟩, fun hcall => by cases hcall⟩
  | _ =>
    rw [perform_of_poisoned h.poisoned rfl rfl]
    exact ⟨h, untouched_refl b, fun _ => rfl⟩

theorem Frozen.afterOps (h : Frozen cap k b) (hcap : cap < Word.size) (ops : List Op) :
    Frozen cap (k + ops.countP Op.isRelease) (b.afterOps ops) ∧
      Untouched b (b.afterOps ops) := by
  induction ops generalizing b k with
  | nil => exact ⟨h, untouched_refl b⟩
  | cons op ops ih =>
    obtain ⟨hone, hsame, -⟩ := h.perform hcap op
    obtain ⟨hrest, hsame'⟩ := ih hone
    have hcount : k + (op :: ops).countP Op.isRelease =
        k + op.isRelease.toNat + ops.countP Op.isRelease := by
      rw [List.countP_cons]
      cases op.isRelease with
      | true =>
        change k + (ops.countP Op.isRelease + 1) = k + 1 + ops.countP Op.isRelease
        omega
      | false => rfl
    rw [hcount]
    exact ⟨hrest, hsame.trans hsame'⟩

end Bus

namespace Crew

open Bus

variable {cfg : Bus.Config} {workers : List Worker} {c : Crew}

/-- On a bus that a crew has used and that nobody rides now, a departure of any task
faults at the semaphore of the slots, and freezes the bus: after whatever threads do
then, the lock guards what it did, a call faults, and the permits are one more with
each departure. All other calls fault at the lock, and change nothing. -/
theorem stray_release_freezes (hc : 0 < cfg.capacity) (hcap : cfg.capacity < Word.size)
    (hs : ∀ w ∈ workers, w.phase = .starting)
    (hr : Reaches (start (Bus.fresh cfg) workers) c) (h0 : c.bus.arbiter.onBus = 0)
    (t : Task) (ops : List Op) :
    ∃ b, c.bus.release false t =
        .fault b (.semaphore (if cfg.capacity + 1 < Word.size
          then .overSignal (cfg.capacity + 1) cfg.capacity else .overflow)) ∧
      Untouched c.bus b ∧ Untouched c.bus (b.afterOps ops) ∧
      (∀ op : Op, op.isCall = true → ((b.afterOps ops).perform op).isDone = false) ∧
      (∀ op : Op, op.isCall = true → op.isRelease = false →
        (b.afterOps ops).perform op = .fault (b.afterOps ops) (.bus .poisoned)) ∧
      ∀ k, 1 + ops.countP Op.isRelease = k → cfg.capacity + k < Word.size →
        (b.afterOps ops).slots.permits = cfg.capacity + k := by
  have h := hr.manned hc hcap hs
  have hlargest : Word.largest + 1 = Word.size := rfl
  have hfull : min (cfg.capacity + 0) Word.largest = cfg.capacity := by omega
  have hslots : c.bus.slots = ⟨cfg.capacity, min (cfg.capacity + 0) Word.largest⟩ := by
    rw [h.slots_eq, unoccupied, h0, h.capacity_eq, hfull]
    rfl
  obtain ⟨b, hrelease, hfrozen, hsame⟩ := release_of_full hslots hcap t
  obtain ⟨hfrozen', hsame'⟩ := hfrozen.afterOps hcap ops
  rw [hfull] at hrelease
  refine ⟨b, hrelease, hsame, hsame.trans hsame', fun op => (hfrozen'.perform hcap op).2.2,
    fun op => perform_of_poisoned hfrozen'.poisoned, ?_⟩
  rintro k rfl hk
  rw [hfrozen'.slots_eq]
  change min (cfg.capacity + (0 + 1 + ops.countP Op.isRelease)) Word.largest = _
  omega

/-- A receiver has its grant and another one waits when a task that never got a slot
gives one back. -/
theorem stray_release_freezes_promised :
    ∃ c b ops, Reaches (start (Bus.fresh ⟨1, true⟩) trio) c ∧ c.bus.arbiter.onBus = 0 ∧
      c.bus.arbiter.reserved = 1 ∧ c.bus.arbiter.totalWaiting = 1 ∧
      c.bus.release false ⟨7, .normal .send, 0⟩ = .fault b (.semaphore (.overSignal 2 1)) ∧
      ops.length = 5 ∧ (b.afterOps ops).arbiter.reserved = 1 ∧
      ((b.afterOps ops).perform (.comeBack ⟨1, .priority .receive, 5⟩)).isDone = false ∧
      (b.afterOps ops).slots.permits = 3 := by
  have hr : Reaches (start (Bus.fresh ⟨1, true⟩) trio) _ :=
    .step 0 (.step 2 (.step 1 (.step 0 .refl rfl) rfl) rfl) rfl
  let ops : List Op := [.snapshot, .pickUp (.priority .receive), .release ⟨7, .normal .send, 0⟩,
    .runTask ⟨8, .priority .send, 3⟩ {} none (fun _ => true), .takeTrace]
  obtain ⟨b, hrelease, -, hsame, hcalls, -, hpermits⟩ :=
    stray_release_freezes (by decide) (by decide) (by decide) hr (by decide)
      ⟨7, .normal .send, 0⟩ ops
  refine ⟨_, b, ops, hr, by decide, by decide, by decide, hrelease, rfl, ?_, hcalls _ rfl,
    hpermits 2 (by decide) (by decide)⟩
  rw [hsame.arbiter_eq]
  decide

end Crew

end HalfDuplex
