import HalfDuplex.Proofs.Bus.Calls
import HalfDuplex.Proofs.Trace.Marks

/-!
# A bus up to the names of its tasks

The view of a bus is what can be told of it without naming a task. Its outlook is
the view that it will have once everybody who holds a grant has boarded: one
boarding more leaves it as it was, whichever task and lane it is, so buses with
one outlook settle alike.
-/

namespace HalfDuplex

def Queue.served (q : Queue) : Queue := { q with granted := 0 }

namespace Arbiter

variable {s : Arbiter} {l : Lane}

/-- The boardings that the outstanding grants promise, in table order. -/
def promised (s : Arbiter) : List Mark :=
  Lane.all.flatMap fun l => List.replicate (s.queue l).granted (.boarded l true)

def allAboard (s : Arbiter) : Arbiter :=
  { s with
    onBus := s.onBus + s.reserved
    reserved := 0
    queues := s.queues.map Queue.served }

theorem isGranted_of_mem_promised {m : Mark} (hm : m ∈ s.promised) : m.isGranted = true := by
  obtain ⟨l, -, hl⟩ := List.mem_flatMap.mp hm
  rw [List.eq_of_mem_replicate hl]
  rfl

theorem promised_eq_nil (h : ∀ l, (s.queue l).granted = 0) : s.promised = [] := by
  unfold promised
  rw [List.flatMap_eq_nil_iff]
  intro l _
  rw [h l]
  rfl

theorem promised_useGrant (hg : 0 < (s.queue l).granted) :
    (Mark.boarded l true :: (s.useGrant l).promised).Perm s.promised := by
  have hone : Lane.all.flatMap (fun k => if k = l then [Mark.boarded k true] else []) =
      [.boarded l true] := by
    rcases l with ⟨_ | _, _ | _⟩ <;> rfl
  have hsplit : s.promised = Lane.all.flatMap fun k =>
      (if k = l then [Mark.boarded k true] else []) ++
        List.replicate ((s.useGrant l).queue k).granted (.boarded k true) := by
    unfold promised
    congr 1
    funext k
    rw [← granted_useGrant hg k]
    split <;> rfl
  have hperm := List.flatMap_append_perm Lane.all
    (fun k => if k = l then [Mark.boarded k true] else [])
    fun k => List.replicate ((s.useGrant l).queue k).granted (Mark.boarded k true)
  rw [hone, ← hsplit] at hperm
  exact hperm

theorem allAboard_eq_self (hr : s.reserved = 0) (h : ∀ l, (s.queue l).granted = 0) :
    s.allAboard = s := by
  have hqueues : s.queues.map Queue.served = s.queues := by
    apply PerLane.ext_get
    intro l
    rw [PerLane.get_map, Queue.served, ← show _ = 0 from h l]
    rfl
  obtain ⟨capacity, heading, onBus, reserved, queues⟩ := s
  obtain rfl : reserved = 0 := hr
  change (⟨capacity, heading, onBus, 0, queues.map Queue.served⟩ : Arbiter) = _
  rw [hqueues]

theorem Coherent.allAboard_comeBack (h : s.Coherent) (hg : 0 < (s.queue l).granted) :
    ((s.useGrant l).addRider l.direction).allAboard = s.allAboard := by
  have hr := h.reserved_pos hg
  have hqueues : (s.useGrant l).queues.map Queue.served = s.queues.map Queue.served := by
    apply PerLane.ext_get
    intro k
    rw [PerLane.get_map, PerLane.get_map]
    change ((s.useGrant l).queue k).served = (s.queue k).served
    rw [queue_useGrant]
    split <;> rfl
  have honBus : s.onBus + 1 + (s.reserved - 1) = s.onBus + s.reserved := by omega
  change (⟨s.capacity, some l.direction, s.onBus + 1 + (s.reserved - 1), 0,
    (s.useGrant l).queues.map Queue.served⟩ : Arbiter) = ⟨s.capacity, s.heading, _, 0, _⟩
  rw [honBus, hqueues, h.ahead l hg]

end Arbiter

namespace Stats

variable {s : Stats} {a : Arbiter}

def allAboard (s : Stats) (a : Arbiter) : Stats :=
  { s with
    admitted := s.admitted + a.reserved
    peakOnBus := if a.reserved = 0 then s.peakOnBus else max s.peakOnBus (a.onBus + a.reserved) }

theorem allAboard_eq_self (hr : a.reserved = 0) : s.allAboard a = s := by
  rw [allAboard, if_pos hr, hr]
  rfl

/-- The last one of those who board together makes the peak. -/
theorem allAboard_comeBack {l : Lane} (hr : 0 < a.reserved) :
    ({ s with
        admitted := s.admitted + 1
        peakOnBus := max s.peakOnBus (a.onBus + 1) } : Stats).allAboard
      ((a.useGrant l).addRider l.direction) = s.allAboard a := by
  change (⟨s.blocked, s.admitted + 1 + (a.reserved - 1), if a.reserved - 1 = 0
      then max s.peakOnBus (a.onBus + 1)
      else max (max s.peakOnBus (a.onBus + 1)) (a.onBus + 1 + (a.reserved - 1))⟩ : Stats) =
    ⟨s.blocked, s.admitted + a.reserved, if a.reserved = 0 then _ else _⟩
  congr 1
  · omega
  · split <;> split <;> omega

end Stats

/-- What a trace comes to without the names of its tasks, if the marks `ms` follow. -/
def marksAfter (trace : Option (List Event)) (ms : List Mark) : Option (List Mark) :=
  trace.map fun es => Mark.tidy (es.map Event.mark ++ ms)

variable {trace trace' : Option (List Event)} {ms ns : List Mark}

theorem marksAfter_append (trace : Option (List Event)) (es : List Event) (ms : List Mark) :
    marksAfter (trace.map (· ++ es)) ms = marksAfter trace (es.map Event.mark ++ ms) := by
  cases trace with
  | none => rfl
  | some fs =>
    change some (Mark.tidy ((fs ++ es).map Event.mark ++ ms)) = _
    rw [List.map_append, List.append_assoc]
    rfl

theorem marksAfter_congr (h : marksAfter trace [] = marksAfter trace' []) (ms : List Mark) :
    marksAfter trace ms = marksAfter trace' ms := by
  cases trace with
  | none =>
    cases trace' with
    | none => rfl
    | some fs => cases h
  | some es =>
    cases trace' with
    | none => cases h
    | some fs =>
      have htidy := Option.some.inj h
      dsimp only at htidy
      rw [List.append_nil, List.append_nil] at htidy
      exact congrArg some (Mark.tidy_append_congr htidy ms)

theorem marksAfter_perm (hp : ms.Perm ns) (hg : ∀ m ∈ ms, m.isGranted = true) :
    marksAfter trace ms = marksAfter trace ns := by
  unfold marksAfter
  congr 1
  funext es
  exact Mark.tidy_append_perm hp hg

namespace Bus

variable {b c : Bus} {t u : Task}

/-- What can be told of a bus without naming a task. -/
structure View where
  arbiter : Arbiter
  stats : Stats
  marks : Option (List Mark)
  poisoned : Bool
deriving DecidableEq

def view (b : Bus) : View := ⟨b.arbiter, b.stats, marksAfter b.trace [], b.poisoned⟩

/-- The view of the bus once everybody who holds a grant has boarded. -/
def outlook (b : Bus) : View where
  arbiter := b.arbiter.allAboard
  stats := b.stats.allAboard b.arbiter
  marks := marksAfter b.trace b.arbiter.promised
  poisoned := b.poisoned

theorem Sound.outlook_eq_view (h : b.Sound) (hg : b.arbiter.totalGranted = 0) :
    b.outlook = b.view := by
  have hr : b.arbiter.reserved = 0 := h.granted_eq.symm.trans hg
  have hl : ∀ l, (b.arbiter.queue l).granted = 0 := fun l =>
    Nat.le_zero.mp (hg ▸ b.arbiter.granted_le_totalGranted l)
  unfold outlook view
  rw [Arbiter.allAboard_eq_self hr hl, Stats.allAboard_eq_self hr, Arbiter.promised_eq_nil hl]

theorem outlook_congr (h : b.view = c.view) : b.outlook = c.outlook := by
  obtain ⟨harbiter, hstats, hmarks, hpoisoned⟩ := View.mk.inj h
  unfold outlook
  rw [harbiter, hstats, hpoisoned, marksAfter_congr hmarks]

/-- Whoever boards by a grant, the bus will look the same in the end. -/
theorem Sound.outlook_seatGranted (h : b.Sound) (hg : 0 < (b.arbiter.queue t.lane).granted) :
    (b.seatGranted t).outlook = b.outlook := by
  have hmarks : marksAfter (b.seatGranted t).trace (b.seatGranted t).arbiter.promised =
      marksAfter b.trace b.arbiter.promised := by
    change marksAfter (b.trace.map (· ++ [.boarded t.id t.lane true]))
      (b.arbiter.useGrant t.lane).promised = _
    have hp := Arbiter.promised_useGrant hg
    rw [marksAfter_append]
    exact marksAfter_perm hp fun m hm => Arbiter.isGranted_of_mem_promised (hp.mem_iff.mp hm)
  unfold outlook
  rw [hmarks]
  congr 1
  · exact h.toCoherent.allAboard_comeBack hg
  · exact Stats.allAboard_comeBack (h.reserved_pos hg)

/-- The buses differ in nothing but the permits of their queues and the names of
tasks in their traces. -/
structure Alike (b c : Bus) : Prop where
  arbiter_eq : b.arbiter = c.arbiter
  slots_eq : b.slots = c.slots
  stats_eq : b.stats = c.stats
  marks_eq : marksAfter b.trace [] = marksAfter c.trace []
  poisoned_eq : b.poisoned = c.poisoned

theorem Alike.view_eq (h : b.Alike c) : b.view = c.view := by
  unfold view
  rw [h.arbiter_eq, h.stats_eq, h.marks_eq, h.poisoned_eq]

theorem Sound.alike (hb : b.Sound) (hc : c.Sound) (h : b.view = c.view) : b.Alike c := by
  obtain ⟨harbiter, hstats, hmarks, hpoisoned⟩ := View.mk.inj h
  refine ⟨harbiter, ?_, hstats, hmarks, hpoisoned⟩
  rw [hb.slots_eq, hc.slots_eq, unoccupied, unoccupied, harbiter]

theorem Alike.marks_append (h : b.Alike c) {es fs : List Event}
    (he : es.map Event.mark = fs.map Event.mark) :
    marksAfter (b.trace.map (· ++ es)) [] = marksAfter (c.trace.map (· ++ fs)) [] := by
  rw [marksAfter_append, marksAfter_append, he, marksAfter_congr h.marks_eq]

theorem Alike.counted (h : b.Alike c) (stats : Stats) {e f : Event} (he : e.mark = f.mark) :
    ({ b with stats := stats }.record e).Alike ({ c with stats := stats }.record f) :=
  ⟨h.arbiter_eq, h.slots_eq, rfl, h.marks_append (congrArg ([·]) he), h.poisoned_eq⟩

/-- Two calls leave buses that look alike, and both fault or neither does. -/
structure Parallel {α β : Type} (r : Result α) (r' : Result β) : Prop where
  alike : r.state.Alike r'.state
  isDone_eq : r.isDone = r'.isDone

theorem Parallel.andThen {α β γ δ : Type} {r : Result α} {r' : Result β}
    {f : Bus → α → Result γ} {g : Bus → β → Result δ} (h : Parallel r r')
    (hf : ∀ b c a a', b.Alike c → Parallel (f b a) (g c a')) :
    Parallel (r.andThen f) (r'.andThen g) := by
  obtain ⟨b, _ | a⟩ := r <;> obtain ⟨c, _ | a'⟩ := r' <;> cases h.isDone_eq
  · exact ⟨h.alike, rfl⟩
  · exact hf b c a a' h.alike

theorem Parallel.map {α β γ δ : Type} {r : Result α} {r' : Result β} (h : Parallel r r')
    (f : α → γ) (g : β → δ) : Parallel (r.map f) (r'.map g) := by
  have hd := h.isDone_eq
  obtain ⟨b, _ | a⟩ := r <;> obtain ⟨c, _ | a'⟩ := r' <;> cases hd <;> exact ⟨h.alike, rfl⟩

theorem Parallel.locked {α β : Type} {r : Result α} {r' : Result β} (h : Parallel r r') :
    Parallel (Bus.locked r) (Bus.locked r') := by
  have ha := h.alike
  obtain ⟨b, _ | a⟩ := r <;> obtain ⟨c, _ | a'⟩ := r' <;> cases h.isDone_eq
  · exact ⟨⟨ha.arbiter_eq, ha.slots_eq, ha.stats_eq, ha.marks_eq, rfl⟩, rfl⟩
  · exact h

theorem Alike.ask {α : Type} (h : b.Alike c) (call : Arbiter → Arbiter.Result α) :
    Parallel (b.ask call) (c.ask call) := by
  unfold Bus.ask
  rw [h.arbiter_eq]
  obtain ⟨a, answer⟩ := call c.arbiter
  refine ⟨⟨rfl, h.slots_eq, h.stats_eq, h.marks_eq, h.poisoned_eq⟩, ?_⟩
  cases answer <;> rfl

theorem Alike.slotsChecked (h : b.Alike c) : Parallel b.slotsChecked c.slotsChecked := by
  unfold Bus.slotsChecked unoccupied
  rw [h.slots_eq, h.arbiter_eq]
  split <;> exact ⟨h, rfl⟩

theorem Alike.queueUp (h : b.Alike c) (hl : t.lane = u.lane) :
    Parallel (b.queueUp t) (c.queueUp u) := by
  unfold Bus.queueUp
  rw [hl]
  apply (h.ask _).andThen
  intro b c _ _ h
  rw [h.stats_eq]
  cases c.stats.countBlocked? with
  | none => exact ⟨h, rfl⟩
  | some stats => exact ⟨h.counted stats rfl, rfl⟩

theorem Alike.takeSlot (h : b.Alike c) (hl : t.lane = u.lane) (granted : Bool) :
    Parallel (b.takeSlot t granted) (c.takeSlot u granted) := by
  unfold Bus.takeSlot
  rw [hl, h.slots_eq]
  cases c.slots.take? with
  | none => exact ⟨h, rfl⟩
  | some slots =>
    have htaken : { b with slots := slots }.Alike { c with slots := slots } :=
      ⟨h.arbiter_eq, rfl, h.stats_eq, h.marks_eq, h.poisoned_eq⟩
    apply (htaken.ask _).andThen
    intro b c _ _ h
    apply h.slotsChecked.andThen
    intro b c _ _ h
    rw [h.stats_eq, congrArg Arbiter.onBus h.arbiter_eq]
    cases c.stats.countAdmitted? c.arbiter.onBus with
    | none => exact ⟨h, rfl⟩
    | some stats => exact ⟨h.counted stats rfl, rfl⟩

theorem Alike.enter (h : b.Alike c) (hl : t.lane = u.lane) :
    (b.enter t).state.Alike (c.enter u).state := by
  unfold Bus.enter
  rw [h.poisoned_eq, h.arbiter_eq, hl]
  split
  · exact h
  · split
    · exact ((h.queueUp hl).map _ _).locked.alike
    · exact ((h.takeSlot hl false).map _ _).locked.alike

theorem Alike.part (h : b.Alike c) (hl : t.lane = u.lane) : (b.part t).Alike (c.part u) := by
  unfold Bus.part
  rw [h.arbiter_eq, h.slots_eq, hl]
  exact ⟨rfl, rfl, h.stats_eq, h.marks_append rfl, h.poisoned_eq⟩

end Bus

end HalfDuplex
