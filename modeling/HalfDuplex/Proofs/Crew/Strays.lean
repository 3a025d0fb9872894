import HalfDuplex.Proofs.Bus.Recording
import HalfDuplex.Proofs.Crew.Integrity

/-!
# Stray departures

Somebody who has no slot gives one back while others ride. The bus cannot tell: the
departure is counted, the free permits go along with the count and no rule of the
arbiter is broken. But everything recorded before it replays, so the replay knows who
rides, and it stops at the stray departure whatever is recorded after it.
-/

namespace HalfDuplex

namespace Trace

open Replay

variable {cap : Nat} {events : List Event} {r : Replay} {task : Nat} {l : Lane}

theorem check_of_stray (hlead : Leads cap Replay.start events r) (hr : r.rides task = false)
    (fs : List Event) :
    check cap (events ++ .left task l :: fs) = .error ⟨events.length, .unknownTask task⟩ := by
  have hstep : r.step cap (.left task l) = .error (.unknownTask task) := by
    rw [Replay.step, Replay.take, Replay.leave, hr]
    rfl
  rw [check, Replay.run_append, hlead 0]
  dsimp only
  rw [Replay.run_cons, hstep, Nat.zero_add]
  rfl

end Trace

namespace Crew

open Trace Replay

variable {cfg : Bus.Config} {workers : List Worker} {acts : List (Nat × Phase)} {c : Crew}
  {x : Crew} {t : Task} {r : Replay} {b : Bus} {ws : Multiset Worker}

theorem Runs.reaches (hr : Runs x acts c) : Reaches x c := by
  induction hr with
  | nil => exact .refl
  | snoc i _ hstep _ ih => exact ih.step i hstep

/-- No worker that rides has the id of `t`. -/
def Stray (t : Task) (ws : Multiset Worker) : Prop :=
  ∀ w ∈ ws, w.phase.isRiding = true → w.task.id ≠ t.id

theorem Mirrors.rides_of_stray (hm : Mirrors r b ws) (hstray : Stray t ws) :
    r.rides t.id = false := by
  rw [rides, List.any_eq_false]
  intro x hx hid
  have hseat : x ∈ seats ws := by
    rw [← hm.riding_eq]
    exact Multiset.mem_coe.mpr hx
  obtain ⟨u, hu, rfl⟩ := Multiset.mem_map.mp hseat
  obtain ⟨w, hw, rfl⟩ := Multiset.mem_map.mp hu
  obtain ⟨hmem, hriding⟩ := Multiset.mem_filter.mp hw
  exact hstray w hmem hriding (eq_of_beq hid)

theorem Manned.stray_release {cap : Nat} (h : Manned cap b ws) (ho : 0 < b.arbiter.onBus)
    (lenient : Bool) (t : Task) :
    ∃ b' d, b.release lenient t = .done b' d ∧ b'.arbiter.onBus + 1 = b.arbiter.onBus ∧
      b'.slots.permits = cap - b'.arbiter.onBus ∧ b'.arbiter.violation? = none ∧
      ∃ es, b'.trace = b.trace.map (· ++ .left t.id t.lane :: es) := by
  obtain ⟨d, hd⟩ := h.toSound.release_eq (t := t) lenient ho
  have hsound := h.toSound.part ho t
  have hcap : (b.part t).arbiter.capacity = cap :=
    (Arbiter.capacity_handOver b.arbiter.vacate).trans h.capacity_eq
  refine ⟨b.part t, d, hd, ?_, ?_, hsound.violation?_eq_none, _, rfl⟩
  · change b.arbiter.vacate.handOver.2.onBus + 1 = b.arbiter.onBus
    rw [Arbiter.onBus_handOver]
    exact Nat.sub_add_cancel ho
  · rw [hsound.permits_eq, hcap]

/-- A stray departure is never silent. After a run of a crew from a fresh bus somebody
gives a slot back while others ride. The call does not fail and keeps the accounts of
the bus. If the bus has been recording and no rider has the id of the departing task,
then the trace as far as that departure fails there by that task, whatever events
follow it; and so does everything recorded since the bus was fresh, whatever is done
to the bus and whenever the trace is taken. -/
theorem stray_release_detected (hc : 0 < cfg.capacity) (hcap : cfg.capacity < Word.size)
    (htrace : cfg.recordTrace = true) (hs : ∀ w ∈ workers, w.phase = .starting)
    (hr : Runs (start (Bus.fresh cfg) workers) acts c) (ho : 0 < c.bus.arbiter.onBus)
    (lenient : Bool) (t : Task) :
    ∃ b d, c.bus.release lenient t = .done b d ∧ b.arbiter.onBus + 1 = c.bus.arbiter.onBus ∧
      b.slots.permits = cfg.capacity - b.arbiter.onBus ∧ b.arbiter.violation? = none ∧
      (workers.length < Word.size → c.bus.poisoned = false) ∧
      (c.bus.poisoned = false →
        (∀ past d, past <+: acts → Runs (start (Bus.fresh cfg) workers) past d →
          RidersApart d.workers) →
        Stray t c.workers → ∃ events, c.bus.trace = some events ∧
          (∀ fs, Trace.check cfg.capacity (events ++ .left t.id t.lane :: fs) =
            .error ⟨events.length, .unknownTask t.id⟩) ∧
          ∀ taken b', Bus.Later b taken b' → ∃ log, b'.logged taken = some log ∧
            log[events.length]? = some (.left t.id t.lane) ∧
            Trace.check cfg.capacity log = .error ⟨events.length, .unknownTask t.id⟩) := by
  have hmanned := hr.reaches.manned hc hcap hs
  obtain ⟨b, d, hd, honBus, hpermits, hviolation, woken, hafter⟩ :=
    hmanned.stray_release ho lenient t
  refine ⟨b, d, hd, honBus, hpermits, hviolation,
    fun hn => (hr.spec hc hcap hs hn).1.unpoisoned, fun hu hapart hstray => ?_⟩
  obtain hp | ⟨-, ⟨events, r, hevents, hleads, hm⟩, hcapacity⟩ :=
    hr.recorded hc hcap htrace hs hapart
  · rw [hp] at hu
    cases hu
  rw [hcapacity] at hleads
  have hcheck := check_of_stray (l := t.lane) hleads (hm.rides_of_stray hstray)
  refine ⟨events, hevents, hcheck, fun taken b' hlater => ?_⟩
  rw [hevents] at hafter
  obtain ⟨es, hlog⟩ := hlater.logged hafter
  rw [List.append_assoc, List.cons_append] at hlog
  refine ⟨_, hlog, ?_, hcheck (woken ++ es)⟩
  rw [List.getElem?_append_right le_rfl, Nat.sub_self]
  rfl

/-- A task that nobody knows of leaves while the first worker rides; the slot it gives
back is handed to the second. -/
theorem stray_release_detected_handing_over :
    ∃ acts c b d events, Runs (start (Bus.fresh ⟨1, true⟩) trio) acts c ∧
      c.bus.arbiter.onBus = 1 ∧ c.bus.release false ⟨7, .normal .send, 0⟩ = .done b d ∧
      b.arbiter.onBus = 0 ∧ c.bus.trace = some events ∧ events.length = 2 ∧
      (∀ fs, Trace.check 1 (events ++ .left 7 (.normal .send) :: fs) =
        .error ⟨2, .unknownTask 7⟩) ∧
      ∃ log, (b.enter ⟨9, .normal .send, 0⟩).state.logged [] = some log ∧ log.length = 5 ∧
        Trace.check 1 log = .error ⟨2, .unknownTask 7⟩ := by
  have hr : Runs (start (Bus.fresh ⟨1, true⟩) trio) _ _ := .snoc 1 (.snoc 0 .nil rfl rfl) rfl rfl
  have hids : ((trio : Multiset Worker).map fun w => w.task.id).Nodup := by decide
  obtain ⟨b, d, hd, honBus, -, -, hsound, hdetected⟩ :=
    stray_release_detected (by decide) (by decide) rfl (by decide) hr (by decide) false
      ⟨7, .normal .send, 0⟩
  obtain ⟨events, hevents, hcheck, hlater⟩ := hdetected (hsound (by decide))
    (fun past d _ hpast =>
      hpast.ridersApart (by decide) (by decide) (by decide) (by decide) hids)
    (by unfold Stray; decide)
  obtain ⟨log, hlog, -, hfails⟩ := hlater [] _ (.enter ⟨9, .normal .send, 0⟩ .refl)
  cases hevents
  cases hd
  cases hlog
  exact ⟨_, _, _, _, _, hr, rfl, rfl, rfl, rfl, rfl, hcheck, _, rfl, rfl, hfails⟩

end Crew

end HalfDuplex
