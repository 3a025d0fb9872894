import HalfDuplex.Proofs.Bus.Outlook
import HalfDuplex.Proofs.Crew.Integrity
import HalfDuplex.Proofs.Crew.Progress

/-!
# Driven crews

A driver gives one order at a time, to a new worker of some lane or to a rider of
some lane, and waits until everybody who was granted a slot has boarded. It is
left open which worker of the lane obeys, which of the blocked workers take the
permits, and in which order they board; none of this can be told from the bus
afterwards.
-/

namespace HalfDuplex.Crew

/-- What a driver asks for. -/
inductive Order where
  | arrive (lane : Lane)
  | release (lane : Lane)
deriving DecidableEq

def Order.IsFor : Order → Worker → Prop
  | .arrive l, w => w.phase = .starting ∧ w.task.lane = l
  | .release l, w => w.phase.isRiding = true ∧ w.task.lane = l

/-- Everybody who holds a grant boards: blocked workers take permits of their
queues and board with them, in any order, until there is no grant left. -/
inductive Settles : Crew → Crew → Prop where
  | rest {c : Crew} : c.bus.arbiter.totalGranted = 0 → Settles c c
  | pickUp {c d e : Crew} {w : Worker} (i : Nat) : c.workers[i]? = some w → w.phase = .queued →
    c.step? i = some d → Settles d e → Settles c e
  | board {c d e : Crew} {w v : Worker} (i : Nat) : c.workers[i]? = some w →
    w.phase = .returning → c.step? i = some d → d.workers[i]? = some v →
      v.phase.isRiding = true → Settles d e → Settles c e

/-- The crew carries the orders out one by one, and settles after each; the list
has the crew as it is after every order. -/
inductive Drives : Crew → List Order → List Crew → Prop where
  | nil {c : Crew} : Drives c [] []
  | cons {c m d : Crew} {o : Order} {orders : List Order} {cs : List Crew} {w : Worker} (i : Nat) :
    c.workers[i]? = some w → o.IsFor w → c.step? i = some m → Settles m d → Drives d orders cs →
      Drives c (o :: orders) (d :: cs)

variable {cfg : Bus.Config} {workers workers' : List Worker} {orders : List Order} {o : Order}
  {c c' d d' m m' : Crew} {cs cs' : List Crew} {w w' v : Worker} {i i' : Nat}

theorem exists_due (h : w.phase.isRiding = true) : ∃ due, w.phase = .riding due := by
  cases hp : w.phase with
  | riding due => exact ⟨due, rfl⟩
  | _ => rw [hp] at h; cases h

theorem phase_eq_returning (h : w.phase.isReturning = true) : w.phase = .returning := by
  cases hp : w.phase with
  | returning => rfl
  | _ => rw [hp] at h; cases h

theorem phase_eq_queued (h : w.phase.isQueued = true) : w.phase = .queued := by
  cases hp : w.phase with
  | queued => rfl
  | _ => rw [hp] at h; cases h

theorem comeBack_eq_done (hw : c.workers[i]? = some w) (hv : (c.comeBack i w).workers[i]? = some v)
    (hr : v.phase.isRiding = true) : c.bus.comeBack w.task = .done (c.comeBack i w).bus () := by
  have hi := (List.getElem?_eq_some_iff.mp hw).1
  unfold comeBack at hv ⊢
  cases hb : c.bus.comeBack w.task with
  | mk b answer =>
    rw [hb] at hv
    cases answer with
    | ok _ => rfl
    | error f =>
      change (c.workers.set i _)[i]? = some v at hv
      rw [List.getElem?_set_self hi] at hv
      cases hv
      cases hr

theorem outlook_passQueue? (hs : c.passQueue? i w = some d) : d.bus.outlook = c.bus.outlook := by
  obtain ⟨b, hb, rfl⟩ := Option.map_eq_some_iff.mp hs
  obtain ⟨s, -, rfl⟩ := Option.map_eq_some_iff.mp hb
  rfl

theorem outlook_comeBack (h : c.bus.poisoned = false → Joint c.bus c.workers)
    (hw : c.workers[i]? = some w) (hp : w.phase = .returning)
    (hd : c.bus.comeBack w.task = .done d.bus ()) : d.bus.outlook = c.bus.outlook := by
  have hu : c.bus.poisoned = false := by
    cases hu : c.bus.poisoned with
    | false => rfl
    | true =>
      rw [Bus.comeBack_of_poisoned hu] at hd
      cases (Outcome.mk.inj hd).2
  obtain ⟨others, ho, -⟩ := exists_others hw w
  have hj := h hu
  rw [ho] at hj
  have hg := hj.granted_pos hp
  obtain he | ⟨b, f, he, -⟩ := hj.sound.comeBack_cases (t := w.task) hu hg
  · rw [he] at hd
    obtain ⟨hbus, -⟩ := Outcome.mk.inj hd
    rw [← hbus]
    exact hj.sound.outlook_seatGranted hg
  · rw [he] at hd
    cases (Outcome.mk.inj hd).2

theorem Reaches.settle (hc : 0 < cfg.capacity) (hcap : cfg.capacity < Word.size)
    (hs : ∀ w ∈ workers, w.phase = .starting)
    (hr : Reaches (start (Bus.fresh cfg) workers) m) (h : Settles m d) :
    Reaches (start (Bus.fresh cfg) workers) d ∧ d.bus.view = m.bus.outlook := by
  induction h with
  | rest hg => exact ⟨hr, ((hr.manned hc hcap hs).outlook_eq_view hg).symm⟩
  | @pickUp c d e w i hw hp hstep _ ih =>
    obtain ⟨hr', hview⟩ := ih (hr.step i hstep)
    simp only [step?, hw, hp] at hstep
    exact ⟨hr', hview.trans (outlook_passQueue? hstep)⟩
  | @board c d e w v i hw hp hstep hv hride _ ih =>
    obtain ⟨hr', hview⟩ := ih (hr.step i hstep)
    simp only [step?, hw, hp] at hstep
    cases hstep
    exact ⟨hr', hview.trans
      (outlook_comeBack (hr.joint hc hcap hs) hw hp (comeBack_eq_done hw hv hride))⟩

theorem Turn.isRiding_of_returning {b b' : Bus} {t : Task} {q : Phase}
    (ht : Turn b t .returning b' q) : q.isRiding = true := by
  cases ht
  rfl

/-- A crew whose statistics have room can settle, for whoever goes on brings it
nearer to the end. -/
theorem Ready.exists_settles (h : c.Ready) : ∃ d, Settles c d := by
  induction hn : stepsLeft c.workers using Nat.strong_induction_on generalizing c with
  | _ n ih =>
    have hgo : ∀ i m, c.step? i = some m → ∃ d, Settles m d := fun i m hstep =>
      ih _ (hn ▸ h.stepsLeft_lt hstep) (h.step hstep).1 rfl
    by_cases hg : c.bus.arbiter.totalGranted = 0
    · exact ⟨c, .rest hg⟩
    · obtain ⟨l, hl⟩ := Arbiter.exists_granted (Nat.pos_of_ne_zero hg)
      obtain ⟨w, hw, hp⟩ | ⟨w, hw, hp, hpos⟩ := h.joint.returning_or_permit hl
      · obtain ⟨i, hi⟩ := List.mem_iff_getElem?.mp hw
        have hphase := phase_eq_returning hp
        have hstep : c.step? i = some (c.comeBack i w) := by simp only [step?, hi, hphase]
        obtain ⟨w', q, hw', hset, ht⟩ := step?_turn h.joint h.room hstep
        obtain rfl : w = w' := Option.some.inj (hi.symm.trans hw')
        have hv := List.getElem?_set_self (a := { w with phase := q })
          (List.getElem?_eq_some_iff.mp hi).1
        rw [← hset] at hv
        obtain ⟨d, hd⟩ := hgo i _ hstep
        exact ⟨d, .board i hi hphase hstep hv (Turn.isRiding_of_returning (hphase ▸ ht)) hd⟩
      · obtain ⟨i, hi⟩ := List.mem_iff_getElem?.mp hw
        have hphase := phase_eq_queued hp
        have hstep : c.step? i = some (c.move i w (c.bus.pickUp w.task.lane) .returning) := by
          simp only [step?, hi, hphase, passQueue?, Bus.passQueue?_eq_some hpos, Option.map_some]
        obtain ⟨d, hd⟩ := hgo i _ hstep
        exact ⟨d, .pickUp i hi hphase hstep hd⟩

theorem bus_enter (c : Crew) (i : Nat) (w : Worker) :
    (c.enter i w).bus = (c.bus.enter w.task).state := by
  unfold enter
  split <;> next he => rw [he]; rfl

theorem bus_release (h : c.bus.Sound) (ho : 0 < c.bus.arbiter.onBus) (i : Nat) (w : Worker)
    (due : Nat) : (c.release i w due).bus = c.bus.part w.task := by
  obtain ⟨dep, hd⟩ := h.release_eq (t := w.task) w.givesUp ho
  unfold release
  dsimp only
  rw [hd]
  rfl

theorem Manned.bus_release {cap : Nat} (h : Manned cap c.bus c.workers)
    (hw : c.workers[i]? = some w) (hr : w.phase.isRiding = true) (hs : c.step? i = some m) :
    m.bus = c.bus.part w.task := by
  obtain ⟨due, hp⟩ := exists_due hr
  obtain ⟨others, ho, -⟩ := exists_others hw w
  rw [ho] at h
  simp only [step?, hw, hp] at hs
  cases hs
  exact Crew.bus_release h.toSound (h.onBus_pos hp) i w due

theorem order_alike {cap : Nat} (h : c.bus.Alike c'.bus) (hm : Manned cap c.bus c.workers)
    (hm' : Manned cap c'.bus c'.workers) (hw : c.workers[i]? = some w)
    (hw' : c'.workers[i']? = some w') (ho : o.IsFor w) (ho' : o.IsFor w')
    (hs : c.step? i = some m) (hs' : c'.step? i' = some m') : m.bus.Alike m'.bus := by
  cases o with
  | arrive l =>
    simp only [step?, hw, ho.1] at hs
    simp only [step?, hw', ho'.1] at hs'
    cases hs
    cases hs'
    rw [bus_enter, bus_enter]
    exact h.enter (ho.2.trans ho'.2.symm)
  | release l =>
    rw [hm.bus_release hw ho.1 hs, hm'.bus_release hw' ho'.1 hs']
    exact h.part (ho.2.trans ho'.2.symm)

theorem Drives.views_eq (hc : 0 < cfg.capacity) (hcap : cfg.capacity < Word.size)
    (hs : ∀ w ∈ workers, w.phase = .starting) (hs' : ∀ w ∈ workers', w.phase = .starting)
    (hr : Reaches (start (Bus.fresh cfg) workers) c)
    (hr' : Reaches (start (Bus.fresh cfg) workers') c') (hv : c.bus.view = c'.bus.view)
    (h : Drives c orders cs) (h' : Drives c' orders cs') :
    cs.map (fun d => d.bus.view) = cs'.map fun d => d.bus.view := by
  induction h generalizing c' cs' with
  | nil => cases h'; rfl
  | @cons c m d o orders cs w i hw ho hstep hsettle _ ih =>
    cases h' with
    | @cons _ m' d' _ _ cs' w' i' hw' ho' hstep' hsettle' hrest' =>
      have hm := hr.manned hc hcap hs
      have hm' := hr'.manned hc hcap hs'
      have halike := order_alike (hm.toSound.alike hm'.toSound hv) hm hm' hw hw' ho ho' hstep hstep'
      obtain ⟨hd, hview⟩ := (hr.step i hstep).settle hc hcap hs hsettle
      obtain ⟨hd', hview'⟩ := (hr'.step i' hstep').settle hc hcap hs' hsettle'
      have hsame : d.bus.view = d'.bus.view := by
        rw [hview, hview', Bus.outlook_congr halike.view_eq]
      rw [List.map_cons, List.map_cons, hsame, ih hd hd' hsame hrest']

/-- Two crews that carry the same orders out, each settling after every order in
whatever way, have buses that cannot be told apart after any of the orders: the
arbiters and the statistics are equal, and the traces are but for the names of
tasks and the order within each run of granted boardings. -/
theorem timing_does_not_show (hc : 0 < cfg.capacity) (hcap : cfg.capacity < Word.size)
    (hs : ∀ w ∈ workers, w.phase = .starting) (hs' : ∀ w ∈ workers', w.phase = .starting)
    (h : Drives (start (Bus.fresh cfg) workers) orders cs)
    (h' : Drives (start (Bus.fresh cfg) workers') orders cs') :
    cs.map (fun d => d.bus.view) = cs'.map fun d => d.bus.view :=
  Drives.views_eq hc hcap hs hs' .refl .refl rfl h h'

def senders : List Worker :=
  [⟨"receiver", ⟨0, .normal .receive, 5⟩, 5, false, .starting⟩,
    ⟨"sender-prio", ⟨1, .priority .send, 5⟩, 5, false, .starting⟩,
    ⟨"sender", ⟨2, .normal .send, 5⟩, 5, false, .starting⟩,
    ⟨"late", ⟨3, .normal .send, 5⟩, 5, false, .starting⟩]

/-- Once the receiver has left, the priority sender and one of the others have a
grant. In one crew the priority sender boards first, and in the other the sender
that came last. -/
theorem timing_does_not_show_on_senders :
    ∃ orders cs cs', Drives (start (Bus.fresh ⟨2, true⟩) senders) orders cs ∧
      Drives (start (Bus.fresh ⟨2, true⟩) senders) orders cs' ∧
      (cs.map fun d => d.bus.trace.map (·.map Event.mark)) ≠
        (cs'.map fun d => d.bus.trace.map (·.map Event.mark)) ∧
      cs.map (fun d => d.bus.view) = cs'.map fun d => d.bus.view := by
  -- All arrive, the receiver leaves, and then the two who were granted a slot board.
  have h : Drives (start (Bus.fresh ⟨2, true⟩) senders)
      [.arrive (.normal .receive), .arrive (.priority .send), .arrive (.normal .send),
        .arrive (.normal .send), .release (.normal .receive)] _ :=
    .cons 0 rfl ⟨rfl, rfl⟩ rfl (.rest rfl) <| .cons 1 rfl ⟨rfl, rfl⟩ rfl (.rest rfl) <|
      .cons 2 rfl ⟨rfl, rfl⟩ rfl (.rest rfl) <| .cons 3 rfl ⟨rfl, rfl⟩ rfl (.rest rfl) <|
      .cons 0 rfl ⟨rfl, rfl⟩ rfl
        (.pickUp 1 rfl rfl rfl <| .board 1 rfl rfl rfl rfl rfl <|
          .pickUp 2 rfl rfl rfl <| .board 2 rfl rfl rfl rfl rfl <| .rest rfl) .nil
  have h' : Drives (start (Bus.fresh ⟨2, true⟩) senders)
      [.arrive (.normal .receive), .arrive (.priority .send), .arrive (.normal .send),
        .arrive (.normal .send), .release (.normal .receive)] _ :=
    .cons 0 rfl ⟨rfl, rfl⟩ rfl (.rest rfl) <| .cons 1 rfl ⟨rfl, rfl⟩ rfl (.rest rfl) <|
      .cons 2 rfl ⟨rfl, rfl⟩ rfl (.rest rfl) <| .cons 3 rfl ⟨rfl, rfl⟩ rfl (.rest rfl) <|
      .cons 0 rfl ⟨rfl, rfl⟩ rfl
        (.pickUp 3 rfl rfl rfl <| .pickUp 1 rfl rfl rfl <| .board 3 rfl rfl rfl rfl rfl <|
          .board 1 rfl rfl rfl rfl rfl <| .rest rfl) .nil
  exact ⟨_, _, _, h, h', by decide,
    timing_does_not_show (by decide) (by decide) (by decide) (by decide) h h'⟩

end HalfDuplex.Crew
