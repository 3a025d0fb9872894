import HalfDuplex.Proofs.Arbiter.HandOver

/-!
# Rows of acts

Tasks arrive, come back with a grant and leave, in any order and as many as
there may be: an arrival whose queue can count no more is turned away and
changes nothing. Acts are deterministic, so that a row of them is a run, and
what happens in it can be counted act by act.
-/

namespace HalfDuplex.Arbiter

variable {s t : Arbiter} {l m : Lane} {d : Direction} {c : Nat}

inductive Act where
  | arrive (l : Lane)
  | comeBack (l : Lane)
  | leave
deriving DecidableEq

def Act.isArrival : Act → Bool
  | .arrive _ => true
  | _ => false

variable {a : Act} {as bs : List Act}

def Permits (s : Arbiter) : Act → Prop
  | .arrive _ => True
  | .comeBack l => 0 < (s.queue l).granted
  | .leave => 0 < s.onBus

instance (s : Arbiter) : (a : Act) → Decidable (s.Permits a)
  | .arrive _ => inferInstanceAs (Decidable True)
  | .comeBack l => inferInstanceAs (Decidable (0 < (s.queue l).granted))
  | .leave => inferInstanceAs (Decidable (0 < s.onBus))

def next (s : Arbiter) : Act → Arbiter
  | .arrive l => (s.arrive l).state
  | .comeBack l => (s.resumeBoard l).state
  | .leave => s.leave.state

def after (s : Arbiter) (as : List Act) : Arbiter := as.foldl next s

def Allows : Arbiter → List Act → Prop
  | _, [] => True
  | s, a :: as => s.Permits a ∧ (s.next a).Allows as

instance decidableAllows : (s : Arbiter) → (as : List Act) → Decidable (s.Allows as)
  | _, [] => inferInstanceAs (Decidable True)
  | s, a :: as => @instDecidableAnd (s.Permits a) _ _ (decidableAllows (s.next a) as)

theorem after_append (s : Arbiter) (as bs : List Act) :
    s.after (as ++ bs) = (s.after as).after bs := List.foldl_append

theorem allows_append : s.Allows (as ++ bs) ↔ s.Allows as ∧ (s.after as).Allows bs := by
  induction as generalizing s with
  | nil => exact ⟨fun h => ⟨trivial, h⟩, And.right⟩
  | cons a as ih =>
    change s.Permits a ∧ (s.next a).Allows (as ++ bs) ↔ _
    rw [ih, ← and_assoc]
    rfl

/-- The ways in which an act can go. -/
inductive Effect (s : Arbiter) : Act → Arbiter → Prop where
  | queue (l : Lane) : s.mustWait l = true → Effect s (.arrive l) (s.addWaiting l)
  | turnAway (l : Lane) : s.mustWait l = true → Effect s (.arrive l) s
  | board (l : Lane) : s.mustWait l = false → Effect s (.arrive l) (s.addRider l.direction)
  | comeBack (l : Lane) : 0 < (s.queue l).granted →
    Effect s (.comeBack l) ((s.useGrant l).addRider l.direction)
  | leave : 0 < s.onBus → Effect s .leave s.vacate.handOver.2

theorem Coherent.resumeBoard_eq (h : s.Coherent) (hg : 0 < (s.queue l).granted) :
    s.resumeBoard l = .done ((s.useGrant l).addRider l.direction) () := by
  rw [resumeBoard, h.resume_eq hg, Outcome.done_andThen, h.board_useGrant_eq hg]

theorem Coherent.arrive_eq (h : s.Coherent) (hw : s.mustWait l = false) :
    s.arrive l = .done (s.addRider l.direction) .boarded := by
  rw [arrive, hw, if_neg Bool.false_ne_true, h.board_eq hw]
  rfl

theorem Coherent.effect (h : s.Coherent) (ha : s.Permits a) : Effect s a (s.next a) := by
  cases a with
  | arrive l =>
    cases hw : s.mustWait l with
    | true =>
      have hstate : s.next (.arrive l) = (s.enqueue l).state := by
        rw [next, arrive, if_pos hw]
        rfl
      by_cases hroom : (s.queue l).waiting + 1 < Word.size
      · rw [hstate, h.enqueue_eq hw hroom]
        exact .queue l hw
      · rw [hstate, enqueue, if_neg hroom]
        exact .turnAway l hw
    | false =>
      rw [next, h.arrive_eq hw]
      exact .board l hw
  | comeBack l =>
    rw [next, h.resumeBoard_eq ha]
    exact .comeBack l ha
  | leave =>
    rw [next, h.leave_eq ha]
    exact .leave ha

theorem Effect.coherent (he : Effect s a t) (h : s.Coherent) : t.Coherent := by
  cases he with
  | queue l hw => exact h.addWaiting hw
  | turnAway l hw => exact h
  | board l hw => exact h.addRider hw
  | comeBack l hg => exact h.comeBack hg
  | leave ho => exact h.departed ho

theorem Effect.capacity_eq (he : Effect s a t) : t.capacity = s.capacity := by
  cases he with
  | leave ho => exact capacity_handOver _
  | _ => rfl

theorem Coherent.after (h : s.Coherent) (hall : s.Allows as) :
    (s.after as).Coherent ∧ (s.after as).capacity = s.capacity := by
  induction as generalizing s with
  | nil => exact ⟨h, rfl⟩
  | cons a as ih =>
    have he := h.effect hall.1
    obtain ⟨h', hcap⟩ := ih (he.coherent h) hall.2
    exact ⟨h', hcap.trans he.capacity_eq⟩

/-- The sum of what `f` counts at each act of the row. -/
def tally (f : Arbiter → Act → Nat) : Arbiter → List Act → Nat
  | _, [] => 0
  | s, a :: as => f s a + tally f (s.next a) as

/-- How many tasks of lane `l` the act grants a slot. -/
def grantsTo (l : Lane) (s : Arbiter) : Act → Nat
  | .leave =>
    match s.leave.answer with
    | .ok grants => grants.get l
    | .error _ => 0
  | _ => 0

/-- One if the act puts a task of lane `l` on the bus that did not have to wait. -/
def admits (l : Lane) (s : Arbiter) : Act → Nat
  | .arrive m =>
    match (s.arrive m).answer with
    | .ok .boarded => if l = m then 1 else 0
    | _ => 0
  | _ => 0

/-- One if the act puts a task of lane `l` on the bus by its grant. -/
def bringsBack (l : Lane) (s : Arbiter) : Act → Nat
  | .comeBack m => if l = m ∧ (s.resumeBoard m).isDone = true then 1 else 0
  | _ => 0

def seats (l : Lane) (s : Arbiter) (a : Act) : Nat := s.admits l a + s.bringsBack l a

def departs (s : Arbiter) : Act → Nat
  | .leave => if s.leave.isDone then 1 else 0
  | _ => 0

theorem Coherent.grantsTo_leave (h : s.Coherent) (ho : 0 < s.onBus) (l : Lane) :
    s.grantsTo l .leave = s.vacate.handOver.1.get l := by
  rw [grantsTo, h.leave_eq ho]
  rfl

theorem admits_of_mustWait (hw : s.mustWait m = true) (l : Lane) :
    s.admits l (.arrive m) = 0 := by
  rw [admits, arrive, if_pos hw]
  rcases s.enqueue m with ⟨t, _ | _⟩ <;> rfl

theorem Coherent.admits_of_not_mustWait (h : s.Coherent) (hw : s.mustWait m = false) (l : Lane) :
    s.admits l (.arrive m) = if l = m then 1 else 0 := by
  rw [admits, h.arrive_eq hw]
  rfl

theorem Coherent.bringsBack_comeBack (h : s.Coherent) (hg : 0 < (s.queue m).granted) (l : Lane) :
    s.bringsBack l (.comeBack m) = if l = m then 1 else 0 := by
  rw [bringsBack, h.resumeBoard_eq hg]
  simp only [Outcome.isDone, Outcome.done, Except.isOk, Except.toBool, and_true]

theorem Coherent.departs_leave (h : s.Coherent) (ho : 0 < s.onBus) : s.departs .leave = 1 := by
  rw [departs, h.leave_eq ho]
  rfl

theorem Coherent.granted_next (h : s.Coherent) (ha : s.Permits a) (l : Lane) :
    s.bringsBack l a + ((s.next a).queue l).granted = s.grantsTo l a + (s.queue l).granted := by
  have he := h.effect ha
  generalize s.next a = t at he ⊢
  cases he with
  | queue m hw => exact congrArg (0 + ·) (s.granted_addWaiting m l)
  | turnAway m hw => rfl
  | board m hw => rfl
  | comeBack m hg =>
    have hl := granted_useGrant hg l
    rw [h.bringsBack_comeBack hg]
    change _ + ((s.useGrant m).queue l).granted = 0 + _
    omega
  | leave ho =>
    rw [h.grantsTo_leave ho, queue_handOver, queue_vacate]
    change 0 + _ = _
    dsimp only
    omega

/-- If each act of a row adds to `f` what it takes from `g`, then so does the row.
`R` is what is known of every act and the arbiter that it finds. -/
theorem Coherent.tally_add {f : Arbiter → Act → Nat} {g : Arbiter → Nat}
    {R : Arbiter → Act → Prop}
    (hstep : ∀ {s : Arbiter} {a : Act}, s.Coherent → s.Permits a → R s a →
      f s a + g (s.next a) = g s)
    (h : s.Coherent) (hall : s.Allows as)
    (hR : ∀ before a rest, as = before ++ a :: rest → R (s.after before) a) :
    s.tally f as + g (s.after as) = g s := by
  induction as generalizing s with
  | nil => exact Nat.zero_add _
  | cons a as ih =>
    have hone := hstep h hall.1 (hR [] a as rfl)
    have hrest := ih ((h.effect hall.1).coherent h) hall.2 fun before b rest he =>
      hR (a :: before) b rest (congrArg (a :: ·) he)
    change f s a + (s.next a).tally f as + g ((s.next a).after as) = g s
    omega

end HalfDuplex.Arbiter
