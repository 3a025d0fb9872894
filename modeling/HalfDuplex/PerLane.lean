import HalfDuplex.Traffic

/-!
# Tables with one entry per lane

A fixed table of four entries, with a reading law for each way to change it.
-/

namespace HalfDuplex

structure PerLane (α : Type) where
  sendNormal : α
  sendPriority : α
  receiveNormal : α
  receivePriority : α
deriving DecidableEq

namespace PerLane

variable {α β : Type}

def get (p : PerLane α) : Lane → α
  | ⟨.send, .normal⟩ => p.sendNormal
  | ⟨.send, .priority⟩ => p.sendPriority
  | ⟨.receive, .normal⟩ => p.receiveNormal
  | ⟨.receive, .priority⟩ => p.receivePriority

def ofFn (f : Lane → α) : PerLane α where
  sendNormal := f ⟨.send, .normal⟩
  sendPriority := f ⟨.send, .priority⟩
  receiveNormal := f ⟨.receive, .normal⟩
  receivePriority := f ⟨.receive, .priority⟩

def fill (a : α) : PerLane α := ofFn fun _ => a

def set (p : PerLane α) (l : Lane) (a : α) : PerLane α :=
  match l with
  | ⟨.send, .normal⟩ => { p with sendNormal := a }
  | ⟨.send, .priority⟩ => { p with sendPriority := a }
  | ⟨.receive, .normal⟩ => { p with receiveNormal := a }
  | ⟨.receive, .priority⟩ => { p with receivePriority := a }

def modify (p : PerLane α) (l : Lane) (f : α → α) : PerLane α := p.set l (f (p.get l))

def map (p : PerLane α) (f : α → β) : PerLane β := ofFn fun l => f (p.get l)

/-- The entries in table order. -/
def toList (p : PerLane α) : List α := Lane.all.map p.get

def sum (p : PerLane Nat) : Nat :=
  p.sendNormal + p.sendPriority + p.receiveNormal + p.receivePriority

@[simp] theorem get_ofFn (f : Lane → α) (l : Lane) : (ofFn f).get l = f l := by
  rcases l with ⟨_ | _, _ | _⟩ <;> rfl

@[simp] theorem get_fill (a : α) (l : Lane) : (fill a).get l = a := get_ofFn _ l

@[simp] theorem get_map (p : PerLane α) (f : α → β) (l : Lane) : (p.map f).get l = f (p.get l) :=
  get_ofFn _ l

theorem get_set (p : PerLane α) (l m : Lane) (a : α) :
    (p.set l a).get m = if l = m then a else p.get m := by
  rcases l with ⟨_ | _, _ | _⟩ <;> rcases m with ⟨_ | _, _ | _⟩ <;> rfl

@[simp] theorem get_set_self (p : PerLane α) (l : Lane) (a : α) : (p.set l a).get l = a := by
  simp [get_set]

theorem get_modify (p : PerLane α) (l m : Lane) (f : α → α) :
    (p.modify l f).get m = if l = m then f (p.get m) else p.get m := by
  unfold modify
  rw [get_set]
  split
  · next h => rw [h]
  · rfl

@[simp] theorem get_modify_self (p : PerLane α) (l : Lane) (f : α → α) :
    (p.modify l f).get l = f (p.get l) := by simp [get_modify]

theorem ext_get {p q : PerLane α} (h : ∀ l, p.get l = q.get l) : p = q := by
  cases p; cases q
  have h1 := h ⟨.send, .normal⟩
  have h2 := h ⟨.send, .priority⟩
  have h3 := h ⟨.receive, .normal⟩
  have h4 := h ⟨.receive, .priority⟩
  simp only [get] at h1 h2 h3 h4
  rw [h1, h2, h3, h4]

theorem get_le_sum (p : PerLane Nat) (l : Lane) : p.get l ≤ p.sum := by
  rcases l with ⟨_ | _, _ | _⟩ <;> simp only [get, sum] <;> omega

theorem sum_eq_zero_iff {p : PerLane Nat} : p.sum = 0 ↔ ∀ l, p.get l = 0 := by
  constructor
  · intro h l
    have := p.get_le_sum l
    omega
  · intro h
    have h1 := h ⟨.send, .normal⟩
    have h2 := h ⟨.send, .priority⟩
    have h3 := h ⟨.receive, .normal⟩
    have h4 := h ⟨.receive, .priority⟩
    simp only [get] at h1 h2 h3 h4
    simp only [sum, h1, h2, h3, h4]

theorem eq_fill_of_sum_eq_zero {p : PerLane Nat} (h : p.sum = 0) : p = fill 0 := by
  apply ext_get
  intro l
  rw [sum_eq_zero_iff.mp h l, get_fill]

theorem exists_pos_of_sum_pos {p : PerLane Nat} (h : 0 < p.sum) : ∃ l, 0 < p.get l := by
  apply Classical.byContradiction
  intro hn
  have h0 := sum_eq_zero_iff.mpr fun l => Nat.eq_zero_of_not_pos fun hl => hn ⟨l, hl⟩
  omega

theorem sum_map_modify (p : PerLane α) (l : Lane) (g : α → α) (f : α → Nat) :
    ((p.modify l g).map f).sum + f (p.get l) = (p.map f).sum + f (g (p.get l)) := by
  rcases l with ⟨_ | _, _ | _⟩ <;> simp only [sum, map, ofFn, modify, set, get] <;> omega

theorem modify_eq_self {p : PerLane α} {l : Lane} {f : α → α} (h : f (p.get l) = p.get l) :
    p.modify l f = p := by
  apply ext_get
  intro m
  rw [get_modify]
  split
  · next hm => rw [← hm, h]
  · rfl

end PerLane

end HalfDuplex
