import HalfDuplex.Proofs.Semaphore.Sleepers

/-!
# The permits of a turnstile accounted for

Threads come to a turnstile and wait, try or signal, one call after the other, and some of
the signals fault. A permit that lifts the count above the bound is kept all the same, and
only a count that is at its largest loses one; so the permits at hand are those that were
there or were added, less those that were taken. A signal that faults notifies nobody, and
nobody is blocked then.
-/

namespace HalfDuplex

namespace Semaphore

variable {s : Semaphore}

def excess (permits bound : Nat) : Fault :=
  if permits + 1 < Word.size then .overSignal (permits + 1) bound else .overflow

theorem signal_of_full (hb : s.bound ≤ s.permits) (hw : s.permits ≤ Word.largest) :
    s.signal false =
      .fault { s with permits := min (s.permits + 1) Word.largest } (excess s.permits s.bound) := by
  unfold signal excess
  have hlargest : Word.largest + 1 = Word.size := rfl
  by_cases hroom : s.permits + 1 < Word.size
  · have hover : s.bound < s.permits + 1 ∧ (!false) = true := ⟨by omega, rfl⟩
    rw [if_neg (by omega), if_pos hroom]
    dsimp only
    rw [if_pos hover, Nat.min_eq_left (by omega)]
  · have hsame : min (s.permits + 1) Word.largest = s.permits := by omega
    rw [if_pos (by omega), if_neg hroom, hsame]

/-- The semaphores that can be made: those that start with any number of permits and are
bounded by the word, and those that start full. -/
inductive Made : Semaphore → Prop where
  | unbounded (permits : Nat) : permits < Word.size → Made (unbounded permits)
  | bounded {capacity : Nat} {s : Semaphore} : capacity < Word.size →
    createBounded capacity = .ok s → Made s

end Semaphore

namespace Turnstile

open Semaphore (excess)

inductive Visit where
  | wait
  | tryWait
  | signal
deriving DecidableEq

variable {x : Turnstile} {s : Semaphore} {v : Visit} {visits : List Visit} {bound : Nat}

def opened (s : Semaphore) : Turnstile := ⟨s, 0⟩

def next (x : Turnstile) : Visit → Turnstile
  | .wait => x.wait.2
  | .tryWait => x.tryWait.2
  | .signal => x.signal.state

/-- Each visit is over before the next one comes. -/
def after (x : Turnstile) (visits : List Visit) : Turnstile := visits.foldl next x

/-- One if the visit is a signal that adds a permit: whoever overflows the count adds none. -/
def adds (x : Turnstile) : Visit → Nat
  | .signal =>
    match x.signal.answer with
    | .error .overflow => 0
    | _ => 1
  | _ => 0

/-- One if the visit takes a permit, or wakes a thread that takes one. -/
def takes (x : Turnstile) : Visit → Nat
  | .wait =>
    match x.wait.1 with
    | .taken => 1
    | .blocked => 0
  | .tryWait => x.tryWait.1.toNat
  | .signal =>
    match x.signal.answer with
    | .ok .woke => 1
    | _ => 0

def tally (f : Turnstile → Visit → Nat) : Turnstile → List Visit → Nat
  | _, [] => 0
  | x, v :: visits => f x v + tally f (x.next v) visits

def withPermits (x : Turnstile) (permits : Nat) : Turnstile :=
  { x with semaphore := { x.semaphore with permits := permits } }

theorem wait_of_pos (h : 0 < x.available) :
    x.wait = (.taken, x.withPermits (x.available - 1)) := by
  have hsome : x.semaphore.permits ≠ 0 := Nat.pos_iff_ne_zero.mp h
  rw [wait, Semaphore.take?, if_neg hsome]
  rfl

theorem wait_of_none (h : x.available = 0) :
    x.wait = (.blocked, { x with blocked := x.blocked + 1 }) := by
  rw [wait, Semaphore.take?_eq_none_iff.mpr h]

theorem tryWait_of_pos (h : 0 < x.available) :
    x.tryWait = (true, x.withPermits (x.available - 1)) := by
  have hsome : x.semaphore.permits ≠ 0 := Nat.pos_iff_ne_zero.mp h
  rw [tryWait, Semaphore.take?, if_neg hsome]
  rfl

theorem tryWait_of_none (h : x.available = 0) : x.tryWait = (false, x) := by
  rw [tryWait, Semaphore.take?_eq_none_iff.mpr h]

/-- The semaphore keeps its bound, which may be exceeded, and nobody is blocked in front of
a permit. -/
structure Orderly (bound : Nat) (x : Turnstile) : Prop where
  bound_eq : x.semaphore.bound = bound
  available_le : x.available ≤ Word.largest
  no_permits : 0 < x.blocked → x.available = 0

theorem Orderly.signal_of_full (h : x.Orderly bound) (hfull : bound ≤ x.available) :
    x.signal =
      .fault (x.withPermits (min (x.available + 1) Word.largest)) (excess x.available bound) := by
  rw [← h.bound_eq] at hfull ⊢
  rw [signal, Semaphore.signal_of_full hfull h.available_le, Outcome.fault_within,
    Outcome.fault_andThen]
  rfl

theorem Orderly.signal_of_nobody (h : x.Orderly bound) (hw : bound < Word.size)
    (hroom : x.available < bound) (hnobody : x.blocked = 0) :
    x.signal = .done (x.withPermits (x.available + 1)) .kept := by
  rw [← h.bound_eq] at hroom hw
  rw [signal, Semaphore.signal_of_lt false hroom hw, Outcome.done_within, Outcome.done_andThen,
    if_pos hnobody]
  rfl

/-- The permit that a signal adds is gone again with the thread that it wakes. -/
theorem Orderly.signal_of_blocked (h : x.Orderly bound) (hb : 0 < bound) (hw : bound < Word.size)
    (hblocked : 0 < x.blocked) : x.signal = .done { x with blocked := x.blocked - 1 } .woke := by
  obtain ⟨⟨_, permits⟩, blocked⟩ := x
  obtain rfl : permits = 0 := h.no_permits hblocked
  obtain rfl := h.bound_eq
  rw [signal, Semaphore.signal_of_lt false hb hw, Outcome.done_within, Outcome.done_andThen,
    if_neg (Nat.pos_iff_ne_zero.mp hblocked)]
  rfl

theorem Orderly.withPermits {permits : Nat} (h : x.Orderly bound) (hle : permits ≤ Word.largest)
    (hnobody : 0 < x.blocked → permits = 0) : (x.withPermits permits).Orderly bound :=
  ⟨h.bound_eq, hle, hnobody⟩

theorem Orderly.nobody (h : x.Orderly bound) (hpos : 0 < x.available) : x.blocked = 0 := by
  have hnone := h.no_permits
  omega

theorem Orderly.take (h : x.Orderly bound) (hpos : 0 < x.available) :
    (x.withPermits (x.available - 1)).Orderly bound ∧
      (x.withPermits (x.available - 1)).available + 1 = x.available := by
  have hle := h.available_le
  have hnobody := h.nobody hpos
  exact ⟨h.withPermits (by omega) (by omega), Nat.sub_one_add_one (Nat.ne_of_gt hpos)⟩

theorem Orderly.adds_of_full (h : x.Orderly bound) (hfull : bound ≤ x.available) :
    x.available + x.adds .signal = min (x.available + 1) Word.largest := by
  have hle := h.available_le
  have hlargest : Word.largest + 1 = Word.size := rfl
  by_cases hroom : x.available + 1 < Word.size
  · have hone : x.adds .signal = 1 := by
      rw [adds, h.signal_of_full hfull, excess, if_pos hroom]
      rfl
    omega
  · have hlost : x.adds .signal = 0 := by
      rw [adds, h.signal_of_full hfull, excess, if_neg hroom]
      rfl
    omega

theorem Orderly.next (h : x.Orderly bound) (hb : 0 < bound) (hw : bound < Word.size) (v : Visit) :
    (x.next v).Orderly bound ∧ (x.next v).available + x.takes v = x.available + x.adds v := by
  have hle := h.available_le
  have hlargest : Word.largest + 1 = Word.size := rfl
  cases v with
  | wait =>
    obtain hnone | hpos := Nat.eq_zero_or_pos x.available
    · rw [Turnstile.next, takes, wait_of_none hnone]
      exact ⟨⟨h.bound_eq, hle, fun _ => hnone⟩, rfl⟩
    · rw [Turnstile.next, takes, wait_of_pos hpos]
      exact h.take hpos
  | tryWait =>
    obtain hnone | hpos := Nat.eq_zero_or_pos x.available
    · rw [Turnstile.next, takes, tryWait_of_none hnone]
      exact ⟨h, rfl⟩
    · rw [Turnstile.next, takes, tryWait_of_pos hpos]
      exact h.take hpos
  | signal =>
    by_cases hfull : bound ≤ x.available
    · have hnobody := h.nobody (by omega)
      rw [Turnstile.next, takes, h.adds_of_full hfull, h.signal_of_full hfull]
      exact ⟨h.withPermits (Nat.min_le_right ..) (by omega), rfl⟩
    · obtain hnobody | hblocked := Nat.eq_zero_or_pos x.blocked
      · rw [Turnstile.next, takes, adds, h.signal_of_nobody hw (by omega) hnobody]
        exact ⟨h.withPermits (by omega) (by omega), rfl⟩
      · rw [Turnstile.next, takes, adds, h.signal_of_blocked hb hw hblocked]
        exact ⟨⟨h.bound_eq, hle, fun _ => h.no_permits hblocked⟩, rfl⟩

theorem Orderly.after (h : x.Orderly bound) (hb : 0 < bound) (hw : bound < Word.size)
    (visits : List Visit) : (x.after visits).Orderly bound ∧
      (x.after visits).available + x.tally takes visits = x.available + x.tally adds visits := by
  induction visits generalizing x with
  | nil => exact ⟨h, rfl⟩
  | cons v visits ih =>
    obtain ⟨hnext, hstep⟩ := h.next hb hw v
    obtain ⟨hafter, hrest⟩ := ih hnext
    refine ⟨hafter, ?_⟩
    change ((x.next v).after visits).available + (x.takes v + (x.next v).tally takes visits) =
      x.available + (x.adds v + (x.next v).tally adds visits)
    omega

theorem orderly_opened (hs : s.Made) :
    (opened s).Orderly s.bound ∧ 0 < s.bound ∧ s.bound < Word.size := by
  have hlargest : Word.largest + 1 = Word.size := rfl
  have hnobody : ∀ s : Semaphore, 0 < (opened s).blocked → (opened s).available = 0 :=
    fun _ h => absurd h (Nat.lt_irrefl 0)
  cases hs with
  | unbounded permits hp =>
    have hpos : 0 < Word.largest := by decide
    exact ⟨⟨rfl, Nat.le_of_lt_succ hp, hnobody _⟩, hpos, Nat.lt_succ_self _⟩
  | @bounded capacity _ hc hmade =>
    unfold Semaphore.createBounded at hmade
    split at hmade
    · cases hmade
    · next hpos =>
      cases hmade
      exact ⟨⟨rfl, Nat.le_of_lt_succ hc, hnobody _⟩, Nat.pos_of_ne_zero hpos, hc⟩

theorem blocked_next_le (x : Turnstile) (v : Visit) : (x.next v).blocked ≤ x.blocked + 1 := by
  cases v with
  | wait =>
    unfold next wait
    cases x.semaphore.take? with
    | none => exact Nat.le_refl _
    | some s => exact Nat.le_succ _
  | tryWait =>
    unfold next tryWait
    cases x.semaphore.take? <;> exact Nat.le_succ _
  | signal =>
    unfold next signal
    obtain ⟨s, f | _⟩ := x.semaphore.signal false
    · exact Nat.le_succ _
    · change (if x.blocked = 0 then _ else _ : Outcome Turnstile _ _).state.blocked ≤ _
      split
      · exact Nat.le_succ _
      · split
        · exact Nat.le_trans (Nat.sub_le _ _) (Nat.le_succ _)
        · exact Nat.le_succ _

end Turnstile

namespace Semaphore

variable {c c' c'' : Shared} {d : Deed} {deeds more : List Deed} {x : Turnstile}
  {visits : List Turnstile.Visit}

theorem Runs.append (h : Runs c deeds c') (h' : Runs c' more c'') :
    Runs c (deeds ++ more) c'' := by
  induction h' with
  | nil => rwa [List.append_nil]
  | snoc _ hstep ih =>
    rw [← List.append_assoc]
    exact ih.snoc hstep

theorem Step.length_eq (h : Step c d c') : c'.threads.length = c.threads.length := by
  cases h with
  | notify => exact List.length_set.trans List.length_set
  | _ => exact List.length_set

theorem Runs.length_eq (h : Runs c deeds c') : c'.threads.length = c.threads.length := by
  induction h with
  | nil => rfl
  | snoc _ hstep ih => exact hstep.length_eq.trans ih

theorem Shared.Rests.exists_outside (h : c.Rests x) (hlt : x.blocked < c.threads.length) :
    ∃ i : Nat, c.threads[i]? = some .outside := by
  rw [← List.mem_iff_getElem?]
  apply Classical.byContradiction
  intro hnone
  have hall : ∀ t ∈ c.threads, t.isAsleep = true := by
    intro t ht
    obtain rfl | rfl := h.idle t ht
    · exact absurd ht hnone
    · rfl
  have hsleepers : c.sleepers = c.threads.length := List.countP_eq_length.mpr hall
  rw [h.sleepers_eq] at hsleepers
  omega

theorem Shared.Rests.runs_next (h : c.Rests x) (hlt : x.blocked < c.threads.length)
    (v : Turnstile.Visit) : ∃ deeds c', Runs c deeds c' ∧ c'.Rests (x.next v) := by
  obtain ⟨i, hi⟩ := h.exists_outside hlt
  cases v with
  | wait => exact ⟨_, h.runs_wait hi⟩
  | tryWait => exact ⟨_, h.runs_tryWait hi⟩
  | signal => exact ⟨_, h.runs_signal hi⟩

theorem Shared.Rests.runs_after (h : c.Rests x)
    (hroom : x.blocked + visits.length ≤ c.threads.length) :
    ∃ deeds c', Runs c deeds c' ∧ c'.Rests (x.after visits) := by
  induction visits generalizing c x with
  | nil => exact ⟨[], c, .nil, h⟩
  | cons v visits ih =>
    rw [List.length_cons] at hroom
    obtain ⟨deeds, c', hr, hrests⟩ := h.runs_next (by omega) v
    have hblocked := x.blocked_next_le v
    have hlength := hr.length_eq
    obtain ⟨more, c'', hr', hrests'⟩ := ih hrests (by omega)
    exact ⟨deeds ++ more, c'', hr.append hr', hrests'⟩

end Semaphore

namespace Turnstile

open Semaphore (Runs excess)

variable {x : Turnstile} {s : Semaphore} {visits : List Visit}

/-- Whatever threads come for, one after the other, and however many of the signals fault:
the permits at hand and those that were taken are together the initial ones and those that
were added, and nobody is blocked in front of a permit. A signal faults just where the
permits are as many as the bound or more. It then keeps its permit unless the count is at
its largest, and has nobody to notify. Where somebody is blocked, it wakes one. Threads
that share the semaphore, as many as there are visits, come to stand as the turnstile
says. -/
theorem permits_accounted_for (hs : s.Made) (hx : (opened s).after visits = x) :
    x.available + (opened s).tally takes visits = s.permits + (opened s).tally adds visits ∧
    (0 < x.blocked → x.available = 0) ∧
    (x.blocked = 0 → (x.signal.isDone = false ↔ s.bound ≤ x.available)) ∧
    (s.bound ≤ x.available → x.blocked = 0 ∧
      x.signal = .fault (x.withPermits (min (x.available + 1) Word.largest))
        (excess x.available s.bound)) ∧
    (0 < x.blocked → x.signal = .done { x with blocked := x.blocked - 1 } .woke) ∧
    ∀ n, visits.length ≤ n →
      ∃ deeds c, Runs (.start s n) deeds c ∧ c.Rests x := by
  obtain ⟨hopened, hb, hw⟩ := orderly_opened hs
  obtain ⟨h, haccount⟩ := hopened.after hb hw visits
  rw [hx] at h haccount
  refine ⟨haccount, h.no_permits, fun hnobody => ?_, fun hfull => ?_,
    h.signal_of_blocked hb hw, fun n hn => ?_⟩
  · by_cases hfull : s.bound ≤ x.available
    · rw [h.signal_of_full hfull]
      exact iff_of_true rfl hfull
    · rw [h.signal_of_nobody hw (by omega) hnobody]
      exact iff_of_false (fun hd => by cases hd) hfull
  · exact ⟨h.nobody (by omega), h.signal_of_full hfull⟩
  · have hlength : (Semaphore.Shared.start s n).threads.length = n := List.length_replicate
    rw [← hx]
    apply (Semaphore.Shared.rests_start s n).runs_after
    change 0 + visits.length ≤ _
    omega

/-- Two signals lift the count of a full semaphore above its bound. All three permits are
taken, and one of the two threads that come after that is woken by the next signal. -/
theorem permits_accounted_for_above_bound :
    let s := Semaphore.bounded 1
    let visits : List Visit := [.signal, .signal, .wait, .tryWait, .wait, .wait, .wait]
    let x := (opened s).after visits
    s.Made ∧ (opened s).tally adds visits = 2 ∧ (opened s).tally takes visits = 3 ∧
      x.available + 3 = s.permits + 2 ∧ x.blocked = 2 ∧
      x.signal = .done { x with blocked := 1 } .woke ∧
      ∃ deeds c, Runs (.start s 7) deeds c ∧ c.Rests x := by
  intro s visits x
  have hmade : s.Made := .bounded (show 1 < Word.size by decide) rfl
  have hadds : (opened s).tally adds visits = 2 := by decide
  have htakes : (opened s).tally takes visits = 3 := by decide
  obtain ⟨haccount, -, -, -, hwakes, hthreads⟩ := permits_accounted_for hmade (x := x) rfl
  have hblocked : x.blocked = 2 := by decide
  rw [hadds, htakes] at haccount
  rw [hblocked] at hwakes
  exact ⟨hmade, hadds, htakes, haccount, hblocked, hwakes (by decide), hthreads 7 (by decide)⟩

end Turnstile

end HalfDuplex
