import HalfDuplex.Semaphore
import Mathlib.Data.List.Basic

/-!
# Threads asleep at a semaphore

Threads share a semaphore whose count is behind a lock. A thread that finds no permit
falls asleep and gives the lock up. A signal notifies one sleeper only after it has given
the lock up, and the sleeper has to take the lock anew and may find the permit gone. Still
no permit lies idle while somebody sleeps: for each permit there is a thread that was
notified and has yet to look, or a signal that has yet to notify. The calls of a turnstile
are runs of such threads.
-/

namespace HalfDuplex.Semaphore

inductive Stance where
  | outside
  /-- Has the lock and waits for a permit, having been notified or not. -/
  | looking (notified : Bool)
  | trying
  | adding (lenient : Bool)
  | asleep
  /-- No longer asleep, since it was notified or for no reason, and wants the lock back. -/
  | woken (notified : Bool)
  /-- Has added a permit and given the lock up, and is about to notify a sleeper. -/
  | notifying
deriving DecidableEq

namespace Stance

def holdsLock : Stance → Bool
  | .looking _ => true
  | .trying => true
  | .adding _ => true
  | _ => false

def isAsleep : Stance → Bool
  | .asleep => true
  | _ => false

def isNotified : Stance → Bool
  | .looking notified => notified
  | .woken notified => notified
  | _ => false

def isNotifying : Stance → Bool
  | .notifying => true
  | _ => false

/-- How many permits the thread answers for: it is to look for one, or to make a sleeper
look for one. -/
def pledges (t : Stance) : Nat := t.isNotified.toNat + t.isNotifying.toNat

end Stance

inductive Call where
  | wait
  | tryWait
  | signal (lenient : Bool)
deriving DecidableEq

def Call.stance : Call → Stance
  | .wait => .looking false
  | .tryWait => .trying
  | .signal lenient => .adding lenient

inductive Deed where
  | take
  | add
  | fault
  | nothing
deriving DecidableEq

structure Shared where
  semaphore : Semaphore
  threads : List Stance
deriving DecidableEq

namespace Shared

def start (s : Semaphore) (n : Nat) : Shared := ⟨s, List.replicate n .outside⟩

def move (c : Shared) (i : Nat) (t : Stance) (s : Semaphore) : Shared := ⟨s, c.threads.set i t⟩

def Unlocked (c : Shared) : Prop := ∀ t ∈ c.threads, t.holdsLock = false

instance (c : Shared) : Decidable c.Unlocked :=
  inferInstanceAs (Decidable (∀ t ∈ c.threads, t.holdsLock = false))

def sleepers (c : Shared) : Nat := c.threads.countP Stance.isAsleep

def notified (c : Shared) : Nat := c.threads.countP Stance.isNotified

def notifying (c : Shared) : Nat := c.threads.countP Stance.isNotifying

def pledged (c : Shared) : Nat := c.notified + c.notifying

end Shared

variable {s s' : Semaphore} {c c' : Shared} {d : Deed} {deeds : List Deed} {t : Stance} {i n : Nat}

/-- One step of one thread. What is done under the lock is one step together with giving
the lock up, as falling asleep is. -/
inductive Step (c : Shared) : Deed → Shared → Prop where
  | begin (i : Nat) (call : Call) : c.threads[i]? = some .outside → c.Unlocked →
      Step c .nothing (c.move i call.stance c.semaphore)
  | take (i : Nat) {notified : Bool} {s : Semaphore} :
      c.threads[i]? = some (.looking notified) → c.semaphore.take? = some s →
      Step c .take (c.move i .outside s)
  | sleep (i : Nat) {notified : Bool} :
      c.threads[i]? = some (.looking notified) → c.semaphore.take? = none →
      Step c .nothing (c.move i .asleep c.semaphore)
  | seize (i : Nat) {s : Semaphore} : c.threads[i]? = some .trying →
      c.semaphore.take? = some s → Step c .take (c.move i .outside s)
  | miss (i : Nat) : c.threads[i]? = some .trying → c.semaphore.take? = none →
      Step c .nothing (c.move i .outside c.semaphore)
  | add (i : Nat) {lenient : Bool} {s : Semaphore} : c.threads[i]? = some (.adding lenient) →
      c.semaphore.signal lenient = .done s () → Step c .add (c.move i .notifying s)
  | fault (i : Nat) {lenient : Bool} {s : Semaphore} {f : Fault} :
      c.threads[i]? = some (.adding lenient) → c.semaphore.signal lenient = .fault s f →
      Step c .fault (c.move i .outside s)
  | notify (i j : Nat) : c.threads[i]? = some .notifying → c.threads[j]? = some .asleep →
      Step c .nothing ((c.move i .outside c.semaphore).move j (.woken true) c.semaphore)
  | notifyNobody (i : Nat) : c.threads[i]? = some .notifying → .asleep ∉ c.threads →
      Step c .nothing (c.move i .outside c.semaphore)
  | stir (i : Nat) : c.threads[i]? = some .asleep →
      Step c .nothing (c.move i (.woken false) c.semaphore)
  | relock (i : Nat) {notified : Bool} : c.threads[i]? = some (.woken notified) → c.Unlocked →
      Step c .nothing (c.move i (.looking notified) c.semaphore)

/-- The steps that threads have taken, in whatever order. -/
inductive Runs (x : Shared) : List Deed → Shared → Prop where
  | nil : Runs x [] x
  | snoc {deeds : List Deed} {c c' : Shared} {d : Deed} :
      Runs x deeds c → Step c d c' → Runs x (deeds ++ [d]) c'

theorem permits_take (h : s.take? = some s') : s'.permits + 1 = s.permits := by
  unfold take? at h
  split at h
  · cases h
  · cases h
    exact Nat.sub_one_add_one ‹_›

theorem permits_signal {lenient : Bool} (h : s.signal lenient = .done s' ()) :
    s'.permits = s.permits + 1 := by
  unfold signal at h
  split at h
  · cases h
  · dsimp only at h
    split at h
    · cases h
    · cases h
      rfl

theorem Step.permits (h : Step c d c') (hd : d ≠ .fault) :
    c'.semaphore.permits + [d].count .take = c.semaphore.permits + [d].count .add := by
  cases h with
  | take _ _ hs => exact permits_take hs
  | seize _ _ hs => exact permits_take hs
  | add _ _ hs => exact permits_signal hs
  | fault => exact absurd rfl hd
  | _ => rfl

theorem countP_set_add {α : Type} {l : List α} {a : α} (h : l[i]? = some a) (b : α)
    (p : α → Bool) : (l.set i b).countP p + (p a).toNat = l.countP p + (p b).toNat := by
  obtain ⟨hi, rfl⟩ := List.getElem?_eq_some_iff.mp h
  have hle : (if p l[i] = true then 1 else 0) ≤ l.countP p := List.boole_getElem_le_countP hi
  rw [List.countP_set hi]
  cases hp : p l[i] <;> cases p b <;>
    simp only [hp, reduceIte, Bool.false_eq_true, Bool.toNat_true, Bool.toNat_false] at hle ⊢ <;>
    omega

/-- For each permit, one who sleeps can rely on a thread that was notified and has yet to
look, or on a signal that has yet to notify. -/
def Shared.Covered (c : Shared) : Prop := 0 < c.sleepers → c.semaphore.permits ≤ c.pledged

theorem Shared.sleepers_pos_iff : 0 < c.sleepers ↔ .asleep ∈ c.threads := by
  unfold sleepers
  rw [List.countP_pos_iff]
  constructor
  · rintro ⟨t, ht, hasleep⟩
    cases t with
    | asleep => exact ht
    | _ => cases hasleep
  · intro h
    exact ⟨.asleep, h, rfl⟩

theorem Shared.covered_start (s : Semaphore) (n : Nat) : (start s n).Covered := by
  intro hpos
  cases List.eq_of_mem_replicate (sleepers_pos_iff.mp hpos)

theorem Shared.covered_of_no_permits (h : c.semaphore.permits = 0) : c.Covered := by
  intro _
  omega

theorem Shared.sleepers_move (ht : c.threads[i]? = some t) (u : Stance) (s : Semaphore) :
    (c.move i u s).sleepers + t.isAsleep.toNat = c.sleepers + u.isAsleep.toNat :=
  countP_set_add ht u _

theorem Shared.pledged_move (ht : c.threads[i]? = some t) (u : Stance) (s : Semaphore) :
    (c.move i u s).pledged + t.pledges = c.pledged + u.pledges := by
  have hnotified : (c.move i u s).notified + _ = c.notified + _ := countP_set_add ht u _
  have hnotifying : (c.move i u s).notifying + _ = c.notifying + _ := countP_set_add ht u _
  unfold pledged Stance.pledges
  omega

theorem Shared.Covered.of_le (hc : c.Covered) (hs : c'.sleepers ≤ c.sleepers)
    (hp : c'.semaphore.permits + c.pledged ≤ c.semaphore.permits + c'.pledged) : c'.Covered := by
  intro hpos
  have hle := hc (Nat.lt_of_lt_of_le hpos hs)
  omega

/-- A thread may move without falling asleep if the permits grow by no more than the
pledges. -/
theorem Shared.Covered.move {u : Stance} (hc : c.Covered) (ht : c.threads[i]? = some t)
    (hs : u.isAsleep.toNat ≤ t.isAsleep.toNat)
    (hp : s.permits + t.pledges ≤ c.semaphore.permits + u.pledges) :
    (c.move i u s).Covered := by
  have hsleepers := sleepers_move ht u s
  have hpledged := pledged_move ht u s
  apply hc.of_le
  · omega
  · change s.permits + c.pledged ≤ c.semaphore.permits + (c.move i u s).pledged
    omega

theorem Shared.Covered.notify {j : Nat} (hc : c.Covered) (hi : c.threads[i]? = some .notifying)
    (hj : c.threads[j]? = some .asleep) :
    ((c.move i .outside c.semaphore).move j (.woken true) c.semaphore).Covered := by
  have hne : i ≠ j := by
    rintro rfl
    rw [hi] at hj
    cases hj
  generalize hmid : c.move i .outside c.semaphore = mid
  have hj' : mid.threads[j]? = some .asleep := by
    rw [← hmid, ← hj]
    exact List.getElem?_set_ne hne
  have hgiven : mid.pledged + 1 = c.pledged := hmid ▸ pledged_move hi .outside _
  have hgot : (mid.move j (.woken true) c.semaphore).pledged = mid.pledged + 1 :=
    pledged_move hj' (.woken true) _
  have hsame : mid.sleepers = c.sleepers := hmid ▸ sleepers_move hi .outside _
  have hfewer : (mid.move j (.woken true) c.semaphore).sleepers + 1 = mid.sleepers :=
    sleepers_move hj' (.woken true) _
  apply hc.of_le
  · omega
  · change c.semaphore.permits + c.pledged ≤ c.semaphore.permits + _
    omega

theorem Shared.covered_of_nobody (h : .asleep ∉ c.threads) : c.Covered :=
  fun hpos => absurd (sleepers_pos_iff.mp hpos) h

theorem Step.covered (h : Step c d c') (hc : c.Covered) (hd : d ≠ .fault) : c'.Covered := by
  cases h with
  | begin _ call ht _ =>
    cases call <;> exact hc.move ht (Nat.le_refl 0) (Nat.le_refl _)
  | @take _ notified s ht hs =>
    have hpermits := permits_take hs
    have hone := notified.toNat_le
    refine hc.move ht (Nat.le_refl 0) ?_
    change s.permits + notified.toNat ≤ c.semaphore.permits + 0
    omega
  | sleep _ _ hs => exact Shared.covered_of_no_permits (take?_eq_none_iff.mp hs)
  | seize _ ht hs => exact hc.move ht (Nat.le_refl 0) (permits_take hs ▸ Nat.le_succ _)
  | miss _ ht _ => exact hc.move ht (Nat.le_refl 0) (Nat.le_refl _)
  | add _ ht hs => exact hc.move ht (Nat.le_refl 0) (Nat.le_of_eq (permits_signal hs))
  | fault => exact absurd rfl hd
  | notify _ _ hi hj => exact hc.notify hi hj
  | notifyNobody _ _ hnobody =>
    apply Shared.covered_of_nobody
    intro hmem
    obtain hmem | hmem := List.mem_or_eq_of_mem_set hmem
    · exact hnobody hmem
    · cases hmem
  | stir _ ht => exact hc.move ht (Nat.zero_le 1) (Nat.le_refl _)
  | relock _ ht _ => exact hc.move ht (Nat.le_refl 0) (Nat.le_refl _)

theorem Runs.covered (h : Runs (Shared.start s n) deeds c) (hsound : .fault ∉ deeds) :
    c.Covered := by
  induction h with
  | nil => exact Shared.covered_start s n
  | snoc _ hstep ih =>
    rw [List.mem_append, List.mem_singleton, not_or] at hsound
    exact hstep.covered (ih hsound.1) fun h => hsound.2 h.symm

theorem Runs.permits (h : Runs (Shared.start s n) deeds c) (hsound : .fault ∉ deeds) :
    c.semaphore.permits + deeds.count .take = s.permits + deeds.count .add := by
  induction h with
  | nil => rfl
  | snoc _ hstep ih =>
    rw [List.mem_append, List.mem_singleton, not_or] at hsound
    have hbefore := ih hsound.1
    have hpermits := hstep.permits fun h => hsound.2 h.symm
    rw [List.count_append, List.count_append]
    omega

/-- Waiters are not stranded, whatever the order in which any number of threads take
their steps, as long as no signal has faulted. Permits are added by signals and taken by
waits and tries, and by nothing else. While a thread sleeps that nobody has notified,
there are no more permits than threads that were notified and have yet to look, and
signals that have yet to notify. So where there are none of these, nobody sleeps in front
of a permit. -/
theorem no_sleeper_is_stranded (h : Runs (Shared.start s n) deeds c) (hsound : .fault ∉ deeds) :
    c.semaphore.permits + deeds.count .take = s.permits + deeds.count .add ∧
    (.asleep ∈ c.threads → c.semaphore.permits ≤ c.notified + c.notifying) ∧
    (c.notified = 0 → c.notifying = 0 → 0 < c.semaphore.permits → .asleep ∉ c.threads) := by
  have hcovered : .asleep ∈ c.threads → c.semaphore.permits ≤ c.notified + c.notifying :=
    fun hasleep => h.covered hsound (Shared.sleepers_pos_iff.mpr hasleep)
  refine ⟨h.permits hsound, hcovered, fun hnotified hnotifying hpos hasleep => ?_⟩
  have hle := hcovered hasleep
  omega

/-- Two threads sleep, and the permit that one of them is notified of is taken by a third
before it looks. When that thread has signalled anew and not yet notified anybody, both
of them are asleep in front of a permit. -/
theorem no_sleeper_is_stranded_after_theft :
    ∃ deeds c, Runs (Shared.start (unbounded 0) 3) deeds c ∧ .fault ∉ deeds ∧
      c.threads = [.asleep, .asleep, .notifying] ∧ c.semaphore.permits = 1 ∧
      c.semaphore.permits + deeds.count .take = 0 + deeds.count .add ∧
      c.semaphore.permits ≤ c.notified + c.notifying := by
  have asleep : Runs (Shared.start (unbounded 0) 3) _ _ :=
    Runs.nil |>.snoc (.begin 0 .wait rfl (by decide)) |>.snoc (.sleep 0 rfl rfl)
      |>.snoc (.begin 1 .wait rfl (by decide)) |>.snoc (.sleep 1 rfl rfl)
  have stolen :=
    asleep.snoc (.begin 2 (.signal false) rfl (by decide)) |>.snoc (.add 2 rfl rfl)
      |>.snoc (.notify 2 0 rfl rfl)
      |>.snoc (.begin 2 .tryWait rfl (by decide)) |>.snoc (.seize 2 rfl rfl)
  have signalled :=
    stolen.snoc (.relock 0 rfl (by decide)) |>.snoc (.sleep 0 rfl rfl)
      |>.snoc (.begin 2 (.signal false) rfl (by decide)) |>.snoc (.add 2 rfl rfl)
  obtain ⟨hpermits, hcovered, -⟩ := no_sleeper_is_stranded signalled (by decide)
  exact ⟨_, _, signalled, by decide, rfl, rfl, hpermits, hcovered (by decide)⟩

/-- Nobody is in the middle of a call but those who sleep, and the turnstile counts these. -/
structure Shared.Rests (c : Shared) (x : Turnstile) : Prop where
  semaphore_eq : c.semaphore = x.semaphore
  sleepers_eq : c.sleepers = x.blocked
  idle : ∀ t ∈ c.threads, t = .outside ∨ t = .asleep

def takeDeeds (taken : Bool) : List Deed := [.nothing, if taken then .take else .nothing]

/-- A signal adds a permit and notifies. A sleeper that it wakes takes the lock and then
the permit. -/
def signalDeeds : Except Fault Turnstile.Effect → List Deed
  | .error _ => [.nothing, .fault]
  | .ok .kept => [.nothing, .add, .nothing]
  | .ok .woke => [.nothing, .add, .nothing, .nothing, .take]

variable {x x' : Turnstile} {u : Stance}

theorem Shared.rests_start (s : Semaphore) (n : Nat) : (start s n).Rests ⟨s, 0⟩ where
  semaphore_eq := rfl
  sleepers_eq := by
    unfold sleepers start
    rw [List.countP_replicate]
    rfl
  idle _ ht := .inl (List.eq_of_mem_replicate ht)

theorem Shared.getElem?_move (ht : c.threads[i]? = some t) (u : Stance) (s : Semaphore) :
    (c.move i u s).threads[i]? = some u :=
  List.getElem?_set_self (List.getElem?_eq_some_iff.mp ht).1

theorem Shared.move_move (c : Shared) (i : Nat) (t u : Stance) (s s' : Semaphore) :
    (c.move i t s).move i u s' = c.move i u s' := by
  unfold move
  rw [List.set_set]

theorem Shared.Unlocked.move (h : c.Unlocked) (hu : u.holdsLock = false) (i : Nat)
    (s : Semaphore) : (c.move i u s).Unlocked := by
  intro t ht
  obtain ht | rfl := List.mem_or_eq_of_mem_set ht
  · exact h t ht
  · exact hu

theorem Shared.Rests.unlocked (h : c.Rests x) : c.Unlocked := by
  intro t ht
  obtain rfl | rfl := h.idle t ht <;> rfl

theorem Shared.Rests.move {b : Nat} (h : c.Rests x) (ht : c.threads[i]? = some t)
    (hu : u = .outside ∨ u = .asleep) (hb : b + t.isAsleep.toNat = x.blocked + u.isAsleep.toNat)
    (s : Semaphore) : (c.move i u s).Rests ⟨s, b⟩ where
  semaphore_eq := rfl
  sleepers_eq := by
    have hmoved := sleepers_move ht u s
    have hbefore := h.sleepers_eq
    dsimp only
    omega
  idle v hv := by
    obtain hv | rfl := List.mem_or_eq_of_mem_set hv
    · exact h.idle v hv
    · exact hu

theorem Shared.Rests.runs_wait (h : c.Rests x) (hi : c.threads[i]? = some .outside) :
    ∃ c', Runs c (takeDeeds (x.wait.1 = .taken)) c' ∧ c'.Rests x.wait.2 := by
  have hbegin := Runs.nil.snoc (.begin i .wait hi h.unlocked)
  have hlook := getElem?_move hi (.looking false) c.semaphore
  unfold Turnstile.wait
  rw [← h.semaphore_eq]
  cases hs : c.semaphore.take? with
  | none =>
    refine ⟨_, hbegin.snoc (.sleep i hlook hs), ?_⟩
    rw [move_move]
    exact h.move hi (.inr rfl) rfl _
  | some s =>
    refine ⟨_, hbegin.snoc (.take i hlook hs), ?_⟩
    rw [move_move]
    exact h.move hi (.inl rfl) rfl s

theorem Shared.Rests.runs_tryWait (h : c.Rests x) (hi : c.threads[i]? = some .outside) :
    ∃ c', Runs c (takeDeeds x.tryWait.1) c' ∧ c'.Rests x.tryWait.2 := by
  have hbegin := Runs.nil.snoc (.begin i .tryWait hi h.unlocked)
  have htry := getElem?_move hi .trying c.semaphore
  unfold Turnstile.tryWait
  rw [← h.semaphore_eq]
  cases hs : c.semaphore.take? with
  | none =>
    refine ⟨_, hbegin.snoc (.miss i htry hs), ?_⟩
    rw [move_move, h.semaphore_eq]
    exact h.move hi (.inl rfl) rfl _
  | some s =>
    refine ⟨_, hbegin.snoc (.seize i htry hs), ?_⟩
    rw [move_move]
    exact h.move hi (.inl rfl) rfl s

theorem exists_take?_of_signal {lenient : Bool} (h : s.signal lenient = .done s' ()) :
    ∃ r, s'.take? = some r := by
  have hpermits := permits_signal h
  unfold take?
  rw [if_neg (by omega)]
  exact ⟨_, rfl⟩

theorem Shared.Rests.runs_add (h : c.Rests x) (hi : c.threads[i]? = some .outside)
    (hs : c.semaphore.signal false = .done s ()) :
    Runs c [.nothing, .add] (c.move i .notifying s) := by
  have hbegin := Runs.nil.snoc (.begin i (.signal false) hi h.unlocked)
  rw [← move_move c i (.adding false) .notifying c.semaphore s]
  exact hbegin.snoc (.add i (getElem?_move hi _ _) hs)

theorem Shared.Rests.runs_notifyNobody (h : c.Rests x) (hi : c.threads[i]? = some .outside)
    (hs : c.semaphore.signal false = .done s ()) (hb : x.blocked = 0) :
    ∃ c', Runs c (signalDeeds (.ok .kept)) c' ∧ c'.Rests ⟨s, x.blocked⟩ := by
  have hnobody : .asleep ∉ (c.move i .notifying s).threads := by
    have hsleepers : (c.move i .notifying s).sleepers + 0 = c.sleepers + 0 :=
      sleepers_move hi .notifying s
    rw [← sleepers_pos_iff]
    have hnone := h.sleepers_eq
    omega
  refine ⟨_, (h.runs_add hi hs).snoc (.notifyNobody i (getElem?_move hi _ _) hnobody), ?_⟩
  rw [move_move]
  exact h.move hi (.inl rfl) rfl s

theorem Shared.Rests.runs_wake {r : Semaphore} (h : c.Rests x)
    (hi : c.threads[i]? = some .outside) (hs : c.semaphore.signal false = .done s ())
    (hr : s.take? = some r) (hb : x.blocked ≠ 0) :
    ∃ c', Runs c (signalDeeds (.ok .woke)) c' ∧ c'.Rests ⟨r, x.blocked - 1⟩ := by
  obtain ⟨j, hj⟩ : ∃ j : Nat, c.threads[j]? = some .asleep := by
    rw [← List.mem_iff_getElem?, ← sleepers_pos_iff, h.sleepers_eq]
    exact Nat.pos_of_ne_zero hb
  have hne : i ≠ j := by
    rintro rfl
    rw [hi] at hj
    cases hj
  have hleft : (c.move i .outside s).Rests ⟨s, x.blocked⟩ := h.move hi (.inl rfl) rfl s
  have hasleep : (c.move i .outside s).threads[j]? = some .asleep :=
    (List.getElem?_set_ne hne).trans hj
  have hnotify := (h.runs_add hi hs).snoc
    (.notify i j (getElem?_move hi _ _) ((List.getElem?_set_ne hne).trans hj))
  rw [move_move] at hnotify
  have hrelock := hnotify.snoc
    (.relock j (getElem?_move hasleep _ _) (hleft.unlocked.move rfl j _))
  rw [move_move] at hrelock
  refine ⟨_, hrelock.snoc (.take j (getElem?_move hasleep _ _) hr), ?_⟩
  rw [move_move]
  exact hleft.move hasleep (.inl rfl) (Nat.sub_one_add_one hb) r

theorem Shared.Rests.runs_signal (h : c.Rests x) (hi : c.threads[i]? = some .outside) :
    ∃ c', Runs c (signalDeeds x.signal.answer) c' ∧ c'.Rests x.signal.state := by
  unfold Turnstile.signal
  rw [← h.semaphore_eq]
  obtain ⟨s, hs⟩ | ⟨s, f, hs⟩ : (∃ s, c.semaphore.signal false = .done s ()) ∨
      ∃ s f, c.semaphore.signal false = .fault s f := by
    obtain ⟨s, f | _⟩ := c.semaphore.signal false
    · exact .inr ⟨s, f, rfl⟩
    · exact .inl ⟨s, rfl⟩
  · rw [hs, Outcome.done_within, Outcome.done_andThen]
    obtain ⟨r, hr⟩ := exists_take?_of_signal hs
    split
    · next hb => exact h.runs_notifyNobody hi hs hb
    · next hb =>
      rw [hr]
      exact h.runs_wake hi hs hr hb
  · rw [hs, Outcome.fault_within, Outcome.fault_andThen]
    have hbegin := Runs.nil.snoc (.begin i (.signal false) hi h.unlocked)
    refine ⟨_, hbegin.snoc (.fault i (getElem?_move hi _ _) hs), ?_⟩
    rw [move_move]
    exact h.move hi (.inl rfl) rfl s

end HalfDuplex.Semaphore
