import HalfDuplex.Proofs.Bus.Calls

/-!
# Traces only grow

No call on a bus takes an event back, whether it ends in a fault or not and whoever
makes it. So the events recorded since a bus was fresh, those that were taken away
included, always begin with the events recorded by some earlier time.
-/

namespace HalfDuplex.Bus

variable {α β : Type} {b b' c : Bus} {r : Result α} {e : Event} {t : Task} {l : Lane}
  {taken events : List Event}

def Extends (b b' : Bus) : Prop := ∃ es, b'.trace = b.trace.map (· ++ es)

theorem extends_of_trace_eq (h : b'.trace = b.trace) : b.Extends b' :=
  ⟨[], by simp [h]⟩

theorem Extends.trans (h : b.Extends b') (h' : b'.Extends c) : b.Extends c := by
  obtain ⟨es, hes⟩ := h
  obtain ⟨fs, hfs⟩ := h'
  exact ⟨es ++ fs, by rw [hfs, hes, map_append_append]⟩

theorem extends_record (h : b'.trace = b.trace) (e : Event) : b.Extends (b'.record e) :=
  ⟨[e], by rw [record, h]⟩

theorem Extends.andThen {f : Bus → α → Result β} (h : b.Extends r.state)
    (hf : ∀ (c : Bus) (a : α), c.Extends (f c a).state) : b.Extends (r.andThen f).state := by
  obtain ⟨c, _ | a⟩ := r
  · exact h
  · exact h.trans (hf c a)

theorem Extends.locked (h : b.Extends r.state) : b.Extends (Bus.locked r).state := by
  obtain ⟨c, _ | a⟩ := r <;> exact h

theorem extends_queueUp (b : Bus) (t : Task) : b.Extends (b.queueUp t).state := by
  apply Extends.andThen (extends_of_trace_eq rfl)
  intro c _
  dsimp only
  split
  · exact extends_record rfl _
  · exact extends_of_trace_eq rfl

theorem extends_slotsChecked (b : Bus) : b.Extends b.slotsChecked.state := by
  unfold slotsChecked
  split <;> exact extends_of_trace_eq rfl

theorem extends_takeSlot (b : Bus) (t : Task) (granted : Bool) :
    b.Extends (b.takeSlot t granted).state := by
  unfold takeSlot
  split
  · exact extends_of_trace_eq rfl
  · apply Extends.andThen (extends_of_trace_eq rfl)
    intro c _
    apply (extends_slotsChecked c).andThen
    intro d _
    split
    · exact extends_record rfl _
    · exact extends_of_trace_eq rfl

theorem extends_enter (b : Bus) (t : Task) : b.Extends (b.enter t).state := by
  unfold enter
  split
  · exact extends_of_trace_eq rfl
  · split
    · exact (extends_queueUp b t).locked (r := (b.queueUp t).map Entry.queued)
    · exact (extends_takeSlot b t false).locked
        (r := (b.takeSlot t false).map fun _ => Entry.boarded)

theorem extends_comeBack (b : Bus) (t : Task) : b.Extends (b.comeBack t).state := by
  unfold comeBack
  split
  · exact extends_of_trace_eq rfl
  · exact (Extends.andThen (extends_of_trace_eq rfl) fun c _ => extends_takeSlot c t true).locked

theorem extends_passQueue? (h : b.passQueue? l = some b') : b.Extends b' := by
  obtain ⟨s, -, rfl⟩ := Option.map_eq_some_iff.mp h
  exact extends_of_trace_eq rfl

theorem extends_announce (lenient : Bool) (gs : List (Lane × Nat)) (b : Bus) :
    b.Extends (b.announce lenient gs).state := by
  induction gs generalizing b with
  | nil => exact extends_of_trace_eq rfl
  | cons x gs ih => exact Extends.andThen (extends_record rfl (.woken x.1 x.2)) fun c _ => ih c

theorem extends_giveBack (lenient : Bool) (b : Bus) (t : Task) :
    b.Extends (b.giveBack lenient t).state := by
  apply Extends.andThen (extends_of_trace_eq rfl)
  intro c _
  apply Extends.andThen (extends_of_trace_eq rfl)
  intro d grants
  apply (extends_slotsChecked d).andThen
  intro e _
  refine Extends.andThen ?_ fun f _ => extends_of_trace_eq rfl
  exact (extends_record rfl (.left t.id t.lane)).trans (extends_announce lenient _ _)

theorem extends_release (lenient : Bool) (b : Bus) (t : Task) :
    b.Extends (b.release lenient t).state := by
  cases lenient with
  | true => exact extends_giveBack true b t
  | false => exact (extends_giveBack false b t).locked

/-- The bus comes to be `b'` by calls on it, each of them by any task at any time and
with any answer. Now and then somebody takes the trace away; `taken` is all that was
taken. -/
inductive Later (b : Bus) : List Event → Bus → Prop where
  | refl : Later b [] b
  | enter {taken : List Event} {c : Bus} (t : Task) : Later b taken c →
      Later b taken (c.enter t).state
  | passQueue {taken : List Event} {c d : Bus} (l : Lane) : Later b taken c →
      c.passQueue? l = some d → Later b taken d
  | comeBack {taken : List Event} {c : Bus} (t : Task) : Later b taken c →
      Later b taken (c.comeBack t).state
  | release {taken : List Event} {c : Bus} (lenient : Bool) (t : Task) : Later b taken c →
      Later b taken (c.release lenient t).state
  | takeTrace {taken es : List Event} {c d : Bus} : Later b taken c →
      c.takeTrace = .done d es → Later b (taken ++ es) d

/-- All events recorded since the bus was fresh, if they are recorded. -/
def logged (b : Bus) (taken : List Event) : Option (List Event) := b.trace.map (taken ++ ·)

theorem Extends.logged (h : b.Extends b') (hlog : b.logged taken = some events) :
    ∃ es, b'.logged taken = some (events ++ es) := by
  obtain ⟨es, hes⟩ := h
  obtain ⟨past, hpast, rfl⟩ := Option.map_eq_some_iff.mp hlog
  refine ⟨es, ?_⟩
  rw [Bus.logged, hes, hpast, List.append_assoc]
  rfl

theorem logged_takeTrace {es : List Event} (h : c.takeTrace = .done b es)
    (hlog : c.logged taken = some events) : b.logged (taken ++ es) = some events := by
  obtain ⟨past, hpast, rfl⟩ := Option.map_eq_some_iff.mp hlog
  unfold takeTrace at h
  split at h
  · cases h
  · cases h
    rw [Bus.logged, hpast]
    simp

theorem Later.logged (h : Later b taken b') (htrace : b.trace = some events) :
    ∃ es, b'.logged taken = some (events ++ es) := by
  have hstep : ∀ {taken : List Event} {c d : Bus}, c.Extends d →
      (∃ es, c.logged taken = some (events ++ es)) →
      ∃ es, d.logged taken = some (events ++ es) := by
    rintro taken c d hcd ⟨es, hes⟩
    obtain ⟨fs, hfs⟩ := hcd.logged hes
    exact ⟨es ++ fs, by rw [hfs, List.append_assoc]⟩
  induction h with
  | refl => exact ⟨[], by simp [Bus.logged, htrace]⟩
  | enter t _ ih => exact hstep (extends_enter _ t) ih
  | passQueue l _ hpass ih => exact hstep (extends_passQueue? hpass) ih
  | comeBack t _ ih => exact hstep (extends_comeBack _ t) ih
  | release lenient t _ ih => exact hstep (extends_release lenient _ t) ih
  | takeTrace _ htake ih =>
    obtain ⟨es, hes⟩ := ih
    exact ⟨es, logged_takeTrace htake hes⟩

end HalfDuplex.Bus
