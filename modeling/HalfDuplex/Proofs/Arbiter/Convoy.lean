import HalfDuplex.Proofs.Arbiter.HandOver
import Mathlib.Data.Multiset.AddSub

/-!
# Runs of an arbiter

A convoy is an arbiter together with the lanes of the tasks that ride. Tasks
arrive, come back with a grant and leave in any order; whoever leaves is any one
of the riders. The counters never contradict each other on the way, all riders
and all grants keep the direction in which the bus is held, and no call faults.
-/

namespace HalfDuplex.Arbiter

variable {s : Arbiter} {l m : Lane} {d : Direction} {riders : Multiset Lane}

/-- A coherent arbiter whose riders have the lanes `riders`. -/
structure Carries (s : Arbiter) (riders : Multiset Lane) : Prop extends Coherent s where
  card_eq : riders.card = s.onBus
  alike : ∀ l ∈ riders, s.heading = some l.direction

theorem carries_idle {c : Nat} (hc : 0 < c) : (idle c).Carries 0 where
  toCoherent := coherent_idle hc
  card_eq := rfl
  alike l hl := absurd hl (Multiset.notMem_zero l)

theorem Carries.direction_of_mem (h : s.Carries riders) (hn : s.heldAgainst d = false)
    (hm : m ∈ riders) : m.direction = d := by
  have ha := h.alike m hm
  rcases heldAgainst_eq_false_iff.mp hn with hd | hd <;> rw [hd] at ha
  · cases ha
  · exact (Option.some.inj ha).symm

theorem Carries.addWaiting (h : s.Carries riders) (hw : s.mustWait l = true) :
    (s.addWaiting l).Carries riders where
  toCoherent := h.toCoherent.addWaiting hw
  card_eq := h.card_eq
  alike := h.alike

theorem Carries.addRider (h : s.Carries riders) (hw : s.mustWait l = false) :
    (s.addRider l.direction).Carries (l ::ₘ riders) where
  toCoherent := h.toCoherent.addRider hw
  card_eq := by
    rw [Multiset.card_cons, h.card_eq]
    rfl
  alike m hm := by
    rcases Multiset.mem_cons.mp hm with rfl | hm
    · rfl
    · have hn := (open_of_mustWait_eq_false hw).notAgainst
      exact congrArg some (h.direction_of_mem hn hm).symm

theorem Carries.comeBack (h : s.Carries riders) (hg : 0 < (s.queue l).granted) :
    ((s.useGrant l).addRider l.direction).Carries (l ::ₘ riders) where
  toCoherent := h.toCoherent.comeBack hg
  card_eq := by
    rw [Multiset.card_cons, h.card_eq]
    rfl
  alike m hm := by
    rcases Multiset.mem_cons.mp hm with rfl | hm
    · rfl
    · have hn := heldAgainst_eq_false_iff.mpr (.inr (h.ahead l hg))
      exact congrArg some (h.direction_of_mem hn hm).symm

theorem Carries.onBus_pos (h : s.Carries riders) (hl : l ∈ riders) : 0 < s.onBus := by
  rw [← h.card_eq]
  exact Multiset.card_pos_iff_exists_mem.mpr ⟨l, hl⟩

theorem Carries.departed (h : s.Carries riders) (hl : l ∈ riders) :
    s.vacate.handOver.2.Carries (riders.erase l) where
  toCoherent := h.toCoherent.departed (h.onBus_pos hl)
  card_eq := by
    rw [Multiset.card_erase_of_mem hl, h.card_eq, onBus_handOver]
    rfl
  alike m hm := by
    have hpos := Multiset.card_pos_iff_exists_mem.mpr ⟨m, hm⟩
    rw [Multiset.card_erase_of_mem hl, h.card_eq, Nat.pred_eq_sub_one] at hpos
    have hhold := heading_vacate_of_one_lt (s := s) (by omega)
    apply heading_handOver_of_heading
    rw [hhold]
    exact h.alike m (Multiset.mem_of_mem_erase hm)

inductive Move where
  | arrive (l : Lane)
  | comeBack (l : Lane)
  | leave (l : Lane)
deriving DecidableEq

def Move.isArrival : Move → Bool
  | .arrive _ => true
  | _ => false

def arrivals (ms : List Move) : Nat := ms.countP Move.isArrival

structure Convoy where
  arbiter : Arbiter
  riders : Multiset Lane

namespace Convoy

variable {x y : Convoy} {ms : List Move} {mv : Move} {c : Nat}

def start (capacity : Nat) : Convoy := ⟨idle capacity, 0⟩

/-- Whether a move can be made: only a granted task comes back, and only a rider
leaves. -/
def Allows (x : Convoy) : Move → Prop
  | .arrive _ => True
  | .comeBack l => 0 < (x.arbiter.queue l).granted
  | .leave l => 0 < x.arbiter.onBus ∧ l ∈ x.riders

instance (x : Convoy) : (mv : Move) → Decidable (x.Allows mv)
  | .arrive _ => inferInstanceAs (Decidable True)
  | .comeBack l => inferInstanceAs (Decidable (0 < (x.arbiter.queue l).granted))
  | .leave l => inferInstanceAs (Decidable (0 < x.arbiter.onBus ∧ l ∈ x.riders))

def ask {α : Type} (x : Convoy) (r : Result α) : Outcome Convoy Fault α :=
  r.within (fun s => { x with arbiter := s }) id

def step (x : Convoy) : Move → Outcome Convoy Fault Unit
  | .arrive l =>
    (x.ask (x.arbiter.arrive l)).andThen fun x a =>
      match a with
      | .boarded => .done { x with riders := l ::ₘ x.riders } ()
      | .queued => .done x ()
  | .comeBack l =>
    (x.ask (x.arbiter.resumeBoard l)).andThen fun x _ =>
      .done { x with riders := l ::ₘ x.riders } ()
  | .leave l =>
    (x.ask x.arbiter.leave).andThen fun x _ => .done { x with riders := x.riders.erase l } ()

/-- `x` comes to be `y` by moves that could all be made. A move that faults
leaves what it had changed by then. -/
inductive Runs (x : Convoy) : List Move → Convoy → Prop where
  | nil : Runs x [] x
  | snoc {ms : List Move} {y : Convoy} (mv : Move) :
    Runs x ms y → y.Allows mv → Runs x (ms ++ [mv]) (y.step mv).state

/-- Tasks that have arrived and not left. -/
def present (x : Convoy) : Nat := x.arbiter.onBus + x.arbiter.totalPending

theorem step_arrive_of_wait (h : x.arbiter.Carries x.riders) {l : Lane}
    (hw : x.arbiter.mustWait l = true) (hroom : (x.arbiter.queue l).waiting + 1 < Word.size) :
    x.step (.arrive l) = .done ⟨x.arbiter.addWaiting l, x.riders⟩ () := by
  simp only [step, ask, Arbiter.arrive, hw, if_true, h.enqueue_eq hw hroom]
  rfl

theorem step_arrive_of_not_wait (h : x.arbiter.Carries x.riders) {l : Lane}
    (hw : x.arbiter.mustWait l = false) :
    x.step (.arrive l) = .done ⟨x.arbiter.addRider l.direction, l ::ₘ x.riders⟩ () := by
  simp only [step, ask, Arbiter.arrive, hw, if_neg Bool.false_ne_true, h.board_eq hw]
  rfl

theorem step_comeBack (h : x.arbiter.Carries x.riders) {l : Lane}
    (hg : 0 < (x.arbiter.queue l).granted) :
    x.step (.comeBack l) =
      .done ⟨(x.arbiter.useGrant l).addRider l.direction, l ::ₘ x.riders⟩ () := by
  simp only [step, ask, resumeBoard, h.resume_eq hg, Outcome.done_andThen,
    h.board_useGrant_eq hg]
  rfl

theorem step_leave (h : x.arbiter.Carries x.riders) {l : Lane} (hl : l ∈ x.riders) :
    x.step (.leave l) = .done ⟨x.arbiter.vacate.handOver.2, x.riders.erase l⟩ () := by
  simp only [step, ask, h.leave_eq (h.onBus_pos hl)]
  rfl

/-- What one move does: it goes through, and it keeps what a run relies on. -/
theorem step_spec (h : x.arbiter.Carries x.riders) (ha : x.Allows mv)
    (hroom : mv.isArrival = true → x.present + 1 < Word.size) :
    ∃ y : Convoy, x.step mv = .done y () ∧ y.arbiter.Carries y.riders ∧
      y.arbiter.capacity = x.arbiter.capacity ∧
      y.present ≤ x.present + if mv.isArrival then 1 else 0 := by
  cases mv with
  | arrive l =>
    have hlt := hroom rfl
    have hpend := x.arbiter.pending_le_totalPending l
    unfold present at hlt
    unfold Queue.pending at hpend
    cases hw : x.arbiter.mustWait l with
    | true =>
      refine ⟨_, step_arrive_of_wait h hw (by omega), h.addWaiting hw, rfl, ?_⟩
      change x.arbiter.onBus + (x.arbiter.addWaiting l).totalPending ≤ x.present + 1
      rw [totalPending_addWaiting]
      exact Nat.le_refl _
    | false =>
      refine ⟨_, step_arrive_of_not_wait h hw, h.addRider hw, rfl, ?_⟩
      change x.arbiter.onBus + 1 + x.arbiter.totalPending ≤ x.present + 1
      unfold present
      omega
  | comeBack l =>
    refine ⟨_, step_comeBack h ha, h.comeBack ha, rfl, ?_⟩
    have hpend := totalPending_useGrant ha
    change x.arbiter.onBus + 1 + (x.arbiter.useGrant l).totalPending ≤ x.present + 0
    unfold present
    omega
  | leave l =>
    refine ⟨_, step_leave h ha.2, h.departed ha.2, capacity_handOver _, ?_⟩
    change x.arbiter.vacate.handOver.2.onBus + x.arbiter.vacate.handOver.2.totalPending ≤
      x.present + 0
    rw [onBus_handOver, totalPending_handOver]
    change x.arbiter.onBus - 1 + x.arbiter.totalPending ≤ x.present + 0
    unfold present
    omega

theorem arrivals_snoc (ms : List Move) (mv : Move) :
    arrivals (ms ++ [mv]) = arrivals ms + if mv.isArrival then 1 else 0 := by
  unfold arrivals
  rw [List.countP_append, List.countP_singleton]

theorem runs_spec (hc : 0 < c) (hr : (start c).Runs ms x) (hn : arrivals ms < Word.size) :
    x.arbiter.Carries x.riders ∧ x.arbiter.capacity = c ∧ x.present ≤ arrivals ms := by
  induction hr with
  | nil => exact ⟨carries_idle hc, rfl, Nat.le_refl _⟩
  | @snoc ms x mv _ ha ih =>
    rw [arrivals_snoc] at hn
    obtain ⟨h, hcap, hp⟩ := ih (by omega)
    have hroom : mv.isArrival = true → x.present + 1 < Word.size := by
      intro hm
      rw [if_pos hm] at hn
      omega
    obtain ⟨y, hy, hcarries, hcap', hp'⟩ := step_spec h ha hroom
    rw [hy, arrivals_snoc]
    exact ⟨hcarries, hcap'.trans hcap, by change y.present ≤ _; omega⟩

/-- In every run with fewer arrivals than a word counts, no move faults, and
after each the counters agree, the riders are as many as the slots taken, and all
riders and all grants have the direction in which the bus is held. Everybody who
is counted has arrived, so that no sum of the counters outgrows a word. -/
theorem run_without_fault (hc : 0 < c) (hr : (start c).Runs ms x)
    (hn : arrivals ms < Word.size) :
    x.arbiter.violation? = none ∧
      x.riders.card = x.arbiter.onBus ∧ x.arbiter.onBus + x.arbiter.reserved ≤ c ∧
      (∀ l ∈ x.riders, x.arbiter.heading = some l.direction) ∧
      (∀ l, 0 < (x.arbiter.queue l).granted → x.arbiter.heading = some l.direction) ∧
      x.arbiter.onBus + x.arbiter.totalPending < Word.size ∧
      ∀ mv, x.Allows mv → arrivals (ms ++ [mv]) < Word.size → (x.step mv).isDone = true := by
  obtain ⟨h, hcap, hp⟩ := runs_spec hc hr hn
  refine ⟨h.violation?_eq_none, h.card_eq, hcap ▸ h.fits, h.alike, h.ahead,
    Nat.lt_of_le_of_lt hp hn, ?_⟩
  intro mv ha hlt
  rw [arrivals_snoc] at hlt
  have hroom : mv.isArrival = true → x.present + 1 < Word.size := by
    intro hm
    rw [if_pos hm] at hlt
    omega
  obtain ⟨y, hy, -⟩ := step_spec h ha hroom
  rw [hy]
  rfl

/-- A bus with two slots that turns under four waiting tasks, with a grant still
out when the next rider leaves. -/
theorem run_without_fault_turning :
    ∃ ms x, (start 2).Runs ms x ∧ arrivals ms < Word.size ∧ ms.length = 10 ∧
      x.riders = {.priority .send, .priority .send} ∧ x.arbiter.heading = some .send ∧
      x.arbiter.violation? = none ∧
      ∀ mv, x.Allows mv → arrivals (ms ++ [mv]) < Word.size → (x.step mv).isDone = true := by
  have hr : (start 2).Runs _ _ :=
    .snoc (.comeBack (.priority .send)) (.snoc (.comeBack (.priority .send))
      (.snoc (.leave (.normal .receive)) (.snoc (.leave (.normal .receive))
        (.snoc (.arrive (.normal .send)) (.snoc (.arrive (.priority .send))
          (.snoc (.arrive (.priority .send)) (.snoc (.arrive (.priority .send))
            (.snoc (.arrive (.normal .receive)) (.snoc (.arrive (.normal .receive))
              .nil trivial) trivial) trivial) trivial) trivial) trivial)
        (by decide)) (by decide)) (by decide)) (by decide)
  obtain ⟨hv, -, -, -, -, -, hdone⟩ := run_without_fault (by decide) hr (by decide)
  exact ⟨_, _, hr, by decide, rfl, by decide, by decide, hv, hdone⟩

end Convoy

end HalfDuplex.Arbiter
