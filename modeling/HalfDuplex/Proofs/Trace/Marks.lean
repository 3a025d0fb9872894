import HalfDuplex.Trace.Event
import HalfDuplex.PerLane
import Mathlib.Data.List.Perm.Basic

/-!
# Traces up to who did what

A mark is what an event says without the task's name. Tasks that were granted a
slot together board in any order, so a trace is compared with each run of
granted boardings put in table order; every other mark keeps its position.
-/

namespace HalfDuplex

inductive Mark where
  | queued (lane : Lane)
  | woken (lane : Lane) (count : Nat)
  | boarded (lane : Lane) (granted : Bool)
  | left (lane : Lane)
deriving DecidableEq

def Event.mark : Event → Mark
  | .queued _ l => .queued l
  | .woken l n => .woken l n
  | .boarded _ l granted => .boarded l granted
  | .left _ l => .left l

namespace Mark

variable {m n : Mark} {ms xs ys gs hs : List Mark} {l k : Lane}

def isGranted : Mark → Bool
  | .boarded _ true => true
  | _ => false

def before : Mark → Mark → Bool
  | .boarded l true, .boarded k true => decide (l.index < k.index)
  | _, _ => false

/-- Puts `m` in front of a list: a boarding by a grant into its place among those
that the list begins with, any other mark at the head. -/
def place (m : Mark) : List Mark → List Mark
  | [] => [m]
  | n :: ms => if n.before m then n :: place m ms else m :: n :: ms

/-- Each run of granted boardings in table order. -/
def tidy (ms : List Mark) : List Mark := ms.foldr place []

theorem tidy_cons (m : Mark) (ms : List Mark) : tidy (m :: ms) = place m (tidy ms) := rfl

theorem eq_boarded_of_isGranted (h : m.isGranted = true) : ∃ l, m = .boarded l true := by
  match m with
  | .boarded l true => exact ⟨l, rfl⟩
  | .boarded _ false | .queued _ | .woken _ _ | .left _ => cases h

theorem before_boarded_iff :
    (boarded l true).before (.boarded k true) = true ↔ l.index < k.index := decide_eq_true_iff

theorem before_boarded_eq_false_iff :
    (boarded l true).before (.boarded k true) = false ↔ k.index ≤ l.index := by
  rw [← Bool.not_eq_true, before_boarded_iff, Nat.not_lt]

theorem isGranted_of_before (h : n.before m = true) : n.isGranted = true ∧ m.isGranted = true := by
  match n, m with
  | .boarded _ true, .boarded _ true => exact ⟨rfl, rfl⟩
  | .boarded _ true, .boarded _ false | .boarded _ true, .queued _ | .boarded _ true, .woken _ _
  | .boarded _ true, .left _ | .boarded _ false, _ | .queued _, _ | .woken _ _, _
  | .left _, _ => cases h

theorem place_of_not_before (h : n.before m = false) : place m (n :: ms) = m :: n :: ms := by
  rw [place, h, if_neg Bool.false_ne_true]

theorem place_of_before (h : n.before m = true) : place m (n :: ms) = n :: place m ms := by
  rw [place, h, if_pos rfl]

theorem place_of_not_granted (h : m.isGranted = false) : place m ms = m :: ms := by
  cases ms with
  | nil => rfl
  | cons n ms =>
    apply place_of_not_before
    cases hb : n.before m with
    | false => rfl
    | true => rw [(isGranted_of_before hb).2] at h; cases h

theorem place_perm (m : Mark) (ms : List Mark) : (place m ms).Perm (m :: ms) := by
  induction ms with
  | nil => exact .refl _
  | cons n ms ih =>
    cases hb : n.before m with
    | false => rw [place_of_not_before hb]
    | true =>
      rw [place_of_before hb]
      exact (ih.cons n).trans (.swap m n ms)

theorem tidy_perm (ms : List Mark) : (tidy ms).Perm ms := by
  induction ms with
  | nil => exact .refl _
  | cons m ms ih => exact (place_perm m _).trans (ih.cons m)

theorem place_comm_of_lt (h : l.index < k.index) (ms : List Mark) :
    place (.boarded l true) (place (.boarded k true) ms) =
      place (.boarded k true) (place (.boarded l true) ms) := by
  have hlk : (boarded l true).before (.boarded k true) = true := before_boarded_iff.mpr h
  have hkl : (boarded k true).before (.boarded l true) = false :=
    before_boarded_eq_false_iff.mpr (Nat.le_of_lt h)
  induction ms with
  | nil =>
    change place _ [_] = place _ [_]
    rw [place_of_not_before hkl, place_of_before hlk]
    rfl
  | cons n ms ih =>
    cases hnl : n.before (.boarded l true) with
    | true =>
      -- What goes before the first of the two goes before the second as well.
      have hnk : n.before (.boarded k true) = true := by
        obtain ⟨j, rfl⟩ := eq_boarded_of_isGranted (isGranted_of_before hnl).1
        rw [before_boarded_iff] at hnl ⊢
        omega
      rw [place_of_before hnl, place_of_before hnk, place_of_before hnl, place_of_before hnk, ih]
    | false =>
      rw [place_of_not_before hnl, place_of_before hlk]
      cases hnk : n.before (.boarded k true) with
      | true => rw [place_of_before hnk, place_of_not_before hnl]
      | false => rw [place_of_not_before hnk, place_of_not_before hkl]

theorem place_comm (hm : m.isGranted = true) (hn : n.isGranted = true) (ms : List Mark) :
    place m (place n ms) = place n (place m ms) := by
  obtain ⟨l, rfl⟩ := eq_boarded_of_isGranted hm
  obtain ⟨k, rfl⟩ := eq_boarded_of_isGranted hn
  rcases Nat.lt_trichotomy l.index k.index with h | h | h
  · exact place_comm_of_lt h ms
  · have hall := Lane.all_getElem_index l
    rw [h, Lane.all_getElem_index k] at hall
    cases hall
    rfl
  · exact (place_comm_of_lt h ms).symm

theorem tidy_place_append (m : Mark) (xs ys : List Mark) :
    tidy (place m xs ++ ys) = place m (tidy (xs ++ ys)) := by
  induction xs with
  | nil => rfl
  | cons n xs ih =>
    cases hb : n.before m with
    | false => rw [place_of_not_before hb]; rfl
    | true =>
      obtain ⟨hn, hm⟩ := isGranted_of_before hb
      rw [place_of_before hb, List.cons_append, tidy_cons, ih, place_comm hn hm]
      rfl

/-- What comes later does not see how the marks before it were ordered. -/
theorem tidy_tidy_append (xs ys : List Mark) : tidy (tidy xs ++ ys) = tidy (xs ++ ys) := by
  induction xs with
  | nil => rfl
  | cons m xs ih =>
    rw [tidy_cons, tidy_place_append, ih]
    rfl

theorem tidy_append_congr (h : tidy xs = tidy ys) (ms : List Mark) :
    tidy (xs ++ ms) = tidy (ys ++ ms) := by
  rw [← tidy_tidy_append, h, tidy_tidy_append]

theorem tidy_append_perm (hp : gs.Perm hs) (hg : ∀ m ∈ gs, m.isGranted = true) :
    tidy (xs ++ gs) = tidy (xs ++ hs) := by
  unfold tidy
  rw [List.foldr_append, List.foldr_append]
  congr 1
  exact hp.foldr_eq' (fun m hm n hn ms => place_comm (hg n hn) (hg m hm) ms) []

theorem tidy_append_cons (h : m.isGranted = false) (xs ys : List Mark) :
    tidy (xs ++ m :: ys) = tidy xs ++ m :: tidy ys := by
  have hpass : ∀ n zs, place n (zs ++ m :: tidy ys) = place n zs ++ m :: tidy ys := by
    intro n zs
    induction zs with
    | nil =>
      apply place_of_not_before
      cases hb : m.before n with
      | false => rfl
      | true => rw [(isGranted_of_before hb).1] at h; cases h
    | cons z zs ih =>
      rw [List.cons_append]
      cases hb : z.before n with
      | false => rw [place_of_not_before hb, place_of_not_before hb]; rfl
      | true => rw [place_of_before hb, place_of_before hb, ih]; rfl
  induction xs with
  | nil => exact place_of_not_granted h
  | cons n xs ih => rw [List.cons_append, tidy_cons, ih, hpass]; rfl

theorem place_sorted (hs : ms.Pairwise fun n k => k.before n = false) (m : Mark)
    (hg : ∀ n ∈ ms, n.isGranted = true) (hm : m.isGranted = true) :
    (place m ms).Pairwise fun n k => k.before n = false := by
  obtain ⟨l, rfl⟩ := eq_boarded_of_isGranted hm
  induction ms with
  | nil => exact List.pairwise_singleton _ _
  | cons n ms ih =>
    obtain ⟨hn, hrest⟩ := List.pairwise_cons.mp hs
    obtain ⟨j, rfl⟩ := eq_boarded_of_isGranted (hg n List.mem_cons_self)
    have hg' : ∀ n ∈ ms, n.isGranted = true := fun n hn => hg n (List.mem_cons_of_mem _ hn)
    cases hb : (boarded j true).before (.boarded l true) with
    | true =>
      rw [place_of_before hb, List.pairwise_cons]
      refine ⟨fun k hk => ?_, ih hrest hg'⟩
      rcases List.mem_cons.mp ((place_perm _ ms).mem_iff.mp hk) with rfl | hk
      · exact before_boarded_eq_false_iff.mpr (Nat.le_of_lt (before_boarded_iff.mp hb))
      · exact hn k hk
    | false =>
      rw [place_of_not_before hb, List.pairwise_cons]
      refine ⟨fun k hk => ?_, hs⟩
      rcases List.mem_cons.mp hk with rfl | hk
      · exact hb
      · obtain ⟨i, rfl⟩ := eq_boarded_of_isGranted (hg' k hk)
        have hki := hn _ hk
        rw [before_boarded_eq_false_iff] at hb hki ⊢
        exact Nat.le_trans hb hki

theorem tidy_sorted (hg : ∀ m ∈ gs, m.isGranted = true) :
    (tidy gs).Pairwise fun m n => n.before m = false := by
  induction gs with
  | nil => exact .nil
  | cons m gs ih =>
    have hg' : ∀ n ∈ gs, n.isGranted = true := fun n hn => hg n (List.mem_cons_of_mem _ hn)
    exact place_sorted (ih hg') m (fun n hn => hg' n ((tidy_perm gs).mem_iff.mp hn))
      (hg m List.mem_cons_self)

example : tidy [.left (.normal .receive), .boarded (.priority .send) true,
    .boarded (.normal .send) true, .boarded (.normal .send) false, .boarded (.normal .send) true] =
    [.left (.normal .receive), .boarded (.normal .send) true, .boarded (.priority .send) true,
      .boarded (.normal .send) false, .boarded (.normal .send) true] := by decide

end Mark

end HalfDuplex
