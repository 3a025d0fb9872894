import HalfDuplex.Proofs.Arbiter.Acts
import Mathlib.Data.List.Infix

/-!
# Priority over normal tasks

While a priority task waits, the normal tasks of its direction are neither
granted a slot nor let past it. Those that were granted one before it came may
still board, and nobody else.
-/

namespace HalfDuplex.Arbiter

variable {s : Arbiter} {d : Direction} {a : Act} {as past : List Act} {c : Nat}

theorem waiting_priority_of_handOver_normal (hg : 0 < s.handOver.1.get (.normal d)) :
    (s.handOver.2.queue (.priority d)).waiting = 0 := by
  unfold handOver at hg ⊢
  cases ht : s.turn with
  | none =>
    rw [ht] at hg
    dsimp only at hg
    rw [PerLane.get_fill] at hg
    cases hg
  | some e =>
    rw [ht] at hg
    dsimp only at hg
    by_cases hd : d = e
    · subst hd
      rw [Grants.get_toward_normal] at hg
      change ((s.shareOut d).queue (.priority d)).waiting = 0
      rw [shareOut, queue_grant, if_neg (fun h => by cases h)]
      exact waiting_priority_of_normalShare_pos hg
    · rw [Grants.get_toward_of_ne (l := .normal d) hd] at hg
      cases hg

theorem Coherent.grantsTo_normal_eq_zero (h : s.Coherent) (ha : s.Permits a)
    (hw : 0 < ((s.next a).queue (.priority d)).waiting) : s.grantsTo (.normal d) a = 0 := by
  cases a with
  | leave =>
    rw [h.grantsTo_leave ha]
    rw [next, h.leave_eq ha] at hw
    apply Nat.eq_zero_of_not_pos
    intro hg
    have h0 := waiting_priority_of_handOver_normal hg
    change 0 < (s.vacate.handOver.2.queue (.priority d)).waiting at hw
    omega
  | _ => rfl

theorem Coherent.admits_normal_eq_zero (h : s.Coherent)
    (hw : 0 < (s.queue (.priority d)).waiting) (a : Act) : s.admits (.normal d) a = 0 := by
  cases a with
  | arrive m =>
    cases hm : s.mustWait m with
    | true => exact admits_of_mustWait hm _
    | false =>
      rw [h.admits_of_not_mustWait hm, if_neg]
      rintro rfl
      have hp := (mustWait_eq_false_iff.mp hm).2.2 rfl
      unfold Queue.pending at hp
      change (s.queue (.priority d)).waiting + _ = 0 at hp
      omega
  | _ => rfl

/-- A priority task of direction `d` waits before the act and after it. -/
structure Overlooks (d : Direction) (s : Arbiter) (a : Act) : Prop where
  before : 0 < (s.queue (.priority d)).waiting
  after : 0 < ((s.next a).queue (.priority d)).waiting

theorem Coherent.seats_add_granted (h : s.Coherent) (ha : s.Permits a) (ho : Overlooks d s a) :
    s.seats (.normal d) a + ((s.next a).queue (.normal d)).granted =
      (s.queue (.normal d)).granted := by
  have hnext := h.granted_next ha (.normal d)
  rw [h.grantsTo_normal_eq_zero ha ho.after] at hnext
  rw [seats, h.admits_normal_eq_zero ho.before]
  omega

theorem overlooks_of_prefixes
    (hw : ∀ before, before <+: as → 0 < ((s.after before).queue (.priority d)).waiting)
    (before : List Act) (a : Act) (rest : List Act) (he : as = before ++ a :: rest) :
    Overlooks d (s.after before) a where
  before := hw before ⟨_, he.symm⟩
  after := by
    have hone : before ++ [a] <+: as := ⟨rest, by rw [he, List.append_assoc]; rfl⟩
    have hlater := hw _ hone
    rwa [after_append] at hlater

/-- Along a row of acts during all of which a priority task of a direction waits,
its normal tasks are neither granted a slot nor admitted without a wait, and no
more of them board than had been granted a slot before. -/
theorem overtaking_bounded (hc : 0 < c) (hall : (idle c).Allows (past ++ as))
    (hs : (idle c).after past = s)
    (hw : ∀ before, before <+: as → 0 < ((s.after before).queue (.priority d)).waiting) :
    s.tally (grantsTo (.normal d)) as = 0 ∧ s.tally (admits (.normal d)) as = 0 ∧
      s.tally (seats (.normal d)) as ≤ (s.queue (.normal d)).granted ∧
      (s.queue (.normal d)).granted ≤ c := by
  obtain ⟨hpast, has⟩ := allows_append.mp hall
  obtain ⟨h, hcap⟩ := (coherent_idle hc).after hpast
  rw [hs] at h hcap has
  change s.capacity = c at hcap
  have hwaits := overlooks_of_prefixes hw
  have hgrants := h.tally_add (f := grantsTo (.normal d)) (g := fun _ => 0) (R := Overlooks d)
    (fun h ha ho => h.grantsTo_normal_eq_zero ha ho.after) has hwaits
  have hadmits := h.tally_add (f := admits (.normal d)) (g := fun _ => 0) (R := Overlooks d)
    (fun h _ ho => h.admits_normal_eq_zero ho.before _) has hwaits
  have hseats := h.tally_add (f := seats (.normal d)) (g := fun s => (s.queue (.normal d)).granted)
    (R := Overlooks d) (fun h ha ho => h.seats_add_granted ha ho) has hwaits
  have hle := h.granted_le_reserved (.normal d)
  have hfits := h.fits
  exact ⟨hgrants, hadmits, by omega, by omega⟩

/-- Two normal tasks have their grants when two priority tasks queue. Both of them
board; the slot that falls vacant in between goes to a priority task. -/
theorem overtaking_bounded_by_two :
    ∃ past as s, (idle 2).Allows (past ++ as) ∧ (idle 2).after past = s ∧
      (∀ before, before <+: as → 0 < ((s.after before).queue (.priority .send)).waiting) ∧
      as.length = 4 ∧ s.tally (grantsTo (.priority .send)) as = 1 ∧
      s.tally (grantsTo (.normal .send)) as = 0 ∧ s.tally (admits (.normal .send)) as = 0 ∧
      s.tally (seats (.normal .send)) as = 2 ∧ (s.queue (.normal .send)).granted = 2 := by
  let past : List Act := [.arrive (.normal .receive), .arrive (.normal .receive),
    .arrive (.normal .send), .arrive (.normal .send), .leave, .leave,
    .arrive (.priority .send), .arrive (.priority .send)]
  let as : List Act :=
    [.comeBack (.normal .send), .leave, .arrive (.normal .send), .comeBack (.normal .send)]
  have hall : (idle 2).Allows (past ++ as) := by decide
  have hinits : ∀ before ∈ as.inits,
      0 < ((((idle 2).after past).after before).queue (.priority .send)).waiting := by decide
  have hw : ∀ before, before <+: as →
      0 < ((((idle 2).after past).after before).queue (.priority .send)).waiting :=
    fun before hb => hinits before ((List.mem_inits before as).mpr hb)
  obtain ⟨hgrants, hadmits, -, -⟩ := overtaking_bounded (by decide) hall rfl hw
  exact ⟨past, as, _, hall, rfl, hw, rfl, by decide, hgrants, hadmits, by decide, by decide⟩

end HalfDuplex.Arbiter
