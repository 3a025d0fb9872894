/-!
# Calls that may fault half-way

A call that faults leaves the state as it had changed it by then: nothing is
rolled back, and later calls go on from there.
-/

namespace HalfDuplex

/-- The state in which a call ends, and its answer unless a fault cut it short. -/
structure Outcome (σ ε α : Type) where
  state : σ
  answer : Except ε α

namespace Outcome

variable {σ τ ε δ α β : Type}

def done (s : σ) (a : α) : Outcome σ ε α := ⟨s, .ok a⟩

def fault (s : σ) (e : ε) : Outcome σ ε α := ⟨s, .error e⟩

def isDone (o : Outcome σ ε α) : Bool := o.answer.isOk

def map (f : α → β) (o : Outcome σ ε α) : Outcome σ ε β := ⟨o.state, o.answer.map f⟩

/-- Goes on with `f` in the state reached, unless a fault came first. -/
def andThen (o : Outcome σ ε α) (f : σ → α → Outcome σ ε β) : Outcome σ ε β :=
  match o.answer with
  | .ok a => f o.state a
  | .error e => fault o.state e

/-- A call on a part, seen as a call on the whole. -/
def within (o : Outcome σ ε α) (put : σ → τ) (cause : ε → δ) : Outcome τ δ α :=
  ⟨put o.state, o.answer.mapError cause⟩

def onFault (o : Outcome σ ε α) (f : σ → σ) : Outcome σ ε α :=
  match o.answer with
  | .ok _ => o
  | .error e => fault (f o.state) e

@[simp] theorem done_andThen (s : σ) (a : α) (f : σ → α → Outcome σ ε β) :
    (done s a).andThen f = f s a := rfl

@[simp] theorem fault_andThen (s : σ) (e : ε) (f : σ → α → Outcome σ ε β) :
    (fault s e).andThen f = fault s e := rfl

@[simp] theorem done_within (s : σ) (a : α) (put : σ → τ) (cause : ε → δ) :
    (done s a).within put cause = done (put s) a := rfl

@[simp] theorem fault_within (s : σ) (e : ε) (put : σ → τ) (cause : ε → δ) :
    (fault s e : Outcome σ ε α).within put cause = fault (put s) (cause e) := rfl

@[simp] theorem done_onFault (s : σ) (a : α) (f : σ → σ) :
    (done s a : Outcome σ ε α).onFault f = done s a := rfl

@[simp] theorem fault_onFault (s : σ) (e : ε) (f : σ → σ) :
    (fault s e : Outcome σ ε α).onFault f = fault (f s) e := rfl

theorem andThen_eq_done_iff {o : Outcome σ ε α} {f : σ → α → Outcome σ ε β} {s : σ} {b : β} :
    o.andThen f = done s b ↔ ∃ t a, o = done t a ∧ f t a = done s b := by
  obtain ⟨t, _ | a⟩ := o
  · constructor
    · intro h; cases h
    · rintro ⟨_, _, h, _⟩; cases h
  · constructor
    · intro h; exact ⟨t, a, rfl, h⟩
    · rintro ⟨_, _, h, hf⟩; cases h; exact hf

theorem map_eq_done_iff {o : Outcome σ ε α} {f : α → β} {s : σ} {b : β} :
    o.map f = done s b ↔ ∃ a, o = done s a ∧ f a = b := by
  obtain ⟨t, _ | a⟩ := o
  · constructor
    · intro h; cases h
    · rintro ⟨_, h, _⟩; cases h
  · constructor
    · intro h; cases h; exact ⟨a, rfl, rfl⟩
    · rintro ⟨_, h, rfl⟩; cases h; rfl

theorem within_eq_done_iff {o : Outcome σ ε α} {put : σ → τ} {cause : ε → δ} {t : τ} {a : α} :
    o.within put cause = done t a ↔ ∃ s, o = done s a ∧ put s = t := by
  obtain ⟨s, _ | b⟩ := o
  · constructor
    · intro h; cases h
    · rintro ⟨_, h, _⟩; cases h
  · constructor
    · intro h; cases h; exact ⟨s, rfl, rfl⟩
    · rintro ⟨_, h, rfl⟩; cases h; rfl

end Outcome

end HalfDuplex
