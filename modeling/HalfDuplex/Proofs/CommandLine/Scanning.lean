import HalfDuplex.Proofs.CommandLine.Arguments
import Mathlib.Data.List.Induction

/-!
# Scanning the arguments

The first argument that is bad or asks for help ends the scan, whatever comes before
or after it. Without one the scan ends with options in which every setting is what the
last argument for it says, or what it is by default.
-/

namespace HalfDuplex.CommandLine

open Utf8

variable {a : List UInt8} {args before after rest : List (List UInt8)} {s t : Setting}
  {n m : Nat} {o o' : Options} {item : Item}

/-- The argument can be used and does not ask for help. -/
def Clean (a : List UInt8) : Prop := ¬ Bad a ∧ ¬ IsHelp a

theorem Clean.exists_item (h : Clean a) : ∃ item, Item.ofBytes a = .ok item ∧ item ≠ .help := by
  obtain ⟨hbad, -⟩ | ⟨hhelp, -⟩ | ⟨-, hread⟩ | ⟨s, n, -, -, -, hread⟩ := ofBytes_cases a
  · exact absurd hbad h.1
  · exact absurd hhelp h.2
  · exact ⟨_, hread, Item.noConfusion⟩
  · exact ⟨_, hread, Item.noConfusion⟩

theorem Clean.ofBytes_eq_assign_iff (h : Clean a) :
    Item.ofBytes a = .ok (.assign s n) ↔ Assigns s n a := by
  constructor
  · intro hread
    obtain ⟨hbad, -⟩ | ⟨-, hread'⟩ | ⟨-, hread'⟩ | ⟨t, m, hassigns, -, -, hread'⟩ := ofBytes_cases a
    · exact absurd hread (hbad.not_ok _)
    · rw [hread] at hread'
      cases hread'
    · rw [hread] at hread'
      cases hread'
    · rw [hread] at hread'
      cases hread'
      exact hassigns
  · intro hassigns
    apply ofBytes_of_assigns hassigns
    rintro rfl
    apply Nat.pos_of_ne_zero
    rintro rfl
    obtain ⟨value, rfl, hvalue⟩ := hassigns
    exact h.1 (.zeroCapacity hvalue)

def Options.take (o : Options) : Item → Options
  | .assign s n => o.assign s n
  | .trace => o.recordTrace
  | .help => o

def Options.Holds (o : Options) (s : Setting) (n : Nat) : Prop :=
  match s with
  | .prioritySend => o.counts.get (.priority .send) = n
  | .priorityReceive => o.counts.get (.priority .receive) = n
  | .send => o.counts.get (.normal .send) = n
  | .receive => o.counts.get (.normal .receive) = n
  | .capacity => o.bus.capacity = n
  | .tickMicros => o.batch.tick = Span.ofMicros n
  | .seed => o.batch.seed = n

def Setting.default : Setting → Nat
  | .capacity => 3
  | .tickMicros => 1000
  | .seed => 123456789
  | _ => 0

theorem holds_default (s : Setting) : Options.default.Holds s s.default := by
  cases s <;> rfl

theorem holds_assign (o : Options) (s : Setting) (n : Nat) : (o.assign s n).Holds s n := by
  cases s <;> rfl

theorem holds_take (hitem : ∀ m, item ≠ .assign s m) (h : o.Holds s n) :
    (o.take item).Holds s n := by
  cases item with
  | assign t m =>
    have hne : t ≠ s := by
      rintro rfl
      exact hitem m rfl
    cases s <;> cases t <;> first | exact h | exact absurd rfl hne
  | trace => cases s <;> exact h
  | help => exact h

/-- The settings that a batch needs, and those that no argument changes. -/
structure Usable (o : Options) : Prop where
  capacity_pos : 0 < o.bus.capacity
  capacity_lt : o.bus.capacity < Word.size
  maxTasks_eq : o.batch.maxTasks = 200
  maxTransferTicks_eq : o.batch.maxTransferTicks = 244

theorem usable_default : Usable Options.default := ⟨by decide, by decide, rfl, rfl⟩

theorem Usable.take (h : Usable o) (hread : Item.ofBytes a = .ok item) : Usable (o.take item) := by
  obtain ⟨hbad, -⟩ | ⟨-, hread'⟩ | ⟨-, hread'⟩ | ⟨s, n, -, hpos, hword, hread'⟩ := ofBytes_cases a
  · exact absurd hread (hbad.not_ok item)
  · rw [hread] at hread'
    cases hread'
    exact h
  · rw [hread] at hread'
    cases hread'
    exact ⟨h.capacity_pos, h.capacity_lt, h.maxTasks_eq, h.maxTransferTicks_eq⟩
  · rw [hread] at hread'
    cases hread'
    cases s with
    | capacity => exact ⟨hpos rfl, hword, h.maxTasks_eq, h.maxTransferTicks_eq⟩
    | _ => exact ⟨h.capacity_pos, h.capacity_lt, h.maxTasks_eq, h.maxTransferTicks_eq⟩

theorem scanInto_cons (hread : Item.ofBytes a = .ok item) (hitem : item ≠ .help) (o : Options)
    (rest : List (List UInt8)) : scanInto o (a :: rest) = scanInto (o.take item) rest := by
  rw [scanInto, hread]
  cases item with
  | help => exact absurd rfl hitem
  | trace => rfl
  | assign s n => rfl

theorem exists_scanInto (h : ∀ a ∈ before, Clean a) (ho : Usable o) :
    ∃ o', Usable o' ∧ ∀ rest, scanInto o (before ++ rest) = scanInto o' rest := by
  induction before generalizing o with
  | nil => exact ⟨o, ho, fun rest => rfl⟩
  | cons a before ih =>
    obtain ⟨item, hread, hitem⟩ := (h a List.mem_cons_self).exists_item
    obtain ⟨o', ho', hscan⟩ := ih (fun x hx => h x (List.mem_cons_of_mem a hx)) (ho.take hread)
    refine ⟨o', ho', fun rest => ?_⟩
    rw [List.cons_append, scanInto_cons hread hitem, hscan]

theorem scan_of_help (h : ∀ x ∈ before, Clean x) (ha : IsHelp a) :
    scan (before ++ a :: after) = .error .help := by
  obtain ⟨o, -, hscan⟩ := exists_scanInto h usable_default
  rw [scan, hscan, scanInto, ofBytes_of_isHelp ha]

theorem scan_of_bad (h : ∀ x ∈ before, Clean x) (ha : Bad a) (after : List (List UInt8)) :
    ∃ r, scan (before ++ a :: after) = .error (.refused r) := by
  obtain ⟨o, -, hscan⟩ := exists_scanInto h usable_default
  obtain ⟨-, r, hread⟩ | ⟨-, hread⟩ | ⟨-, hread⟩ | ⟨s, n, -, -, -, hread⟩ := ofBytes_cases a
  · exact ⟨r, by rw [scan, hscan, scanInto, hread]⟩
  all_goals exact absurd hread (ha.not_ok _)

theorem scan_of_clean (h : ∀ a ∈ args, Clean a) : ∃ o, Usable o ∧ scan args = .ok o := by
  obtain ⟨o, ho, hscan⟩ := exists_scanInto h usable_default
  refine ⟨o, ho, ?_⟩
  have hend := hscan []
  rwa [List.append_nil] at hend

theorem clean_or_first (args : List (List UInt8)) : (∀ a ∈ args, Clean a) ∨
    ∃ before a after, args = before ++ a :: after ∧ (∀ x ∈ before, Clean x) ∧
      (Bad a ∨ IsHelp a) := by
  induction args with
  | nil => exact .inl fun a ha => by cases ha
  | cons a args ih =>
    by_cases ha : Clean a
    · obtain hclean | ⟨before, b, after, rfl, hbefore, hb⟩ := ih
      · exact .inl (List.forall_mem_cons.mpr ⟨ha, hclean⟩)
      · exact .inr ⟨a :: before, b, after, rfl, List.forall_mem_cons.mpr ⟨ha, hbefore⟩, hb⟩
    · refine .inr ⟨[], a, args, rfl, fun x hx => (by cases hx), ?_⟩
      rw [Clean, not_and_or, not_not, not_not] at ha
      exact ha

/-- The last argument for `s` says `n`, or there is none and `n` is the default. -/
def Effective (args : List (List UInt8)) (s : Setting) (n : Nat) : Prop :=
  (∃ before a after, args = before ++ a :: after ∧ Assigns s n a ∧
    ∀ x ∈ after, ∀ m, ¬ Assigns s m x) ∨
  n = s.default ∧ ∀ x ∈ args, ∀ m, ¬ Assigns s m x

theorem exists_effective (args : List (List UInt8)) (s : Setting) : ∃ n, Effective args s n := by
  induction args using List.reverseRecOn with
  | nil => exact ⟨s.default, .inr ⟨rfl, fun x hx => by cases hx⟩⟩
  | append_singleton args a ih =>
    by_cases ha : ∃ n, Assigns s n a
    · obtain ⟨n, hn⟩ := ha
      exact ⟨n, .inl ⟨args, a, [], rfl, hn, fun x hx => by cases hx⟩⟩
    · rw [not_exists] at ha
      obtain ⟨n, ⟨before, b, after, rfl, hb, hafter⟩ | ⟨hn, hall⟩⟩ := ih
      · refine ⟨n, .inl ⟨before, b, after ++ [a], by simp, hb, ?_⟩⟩
        rw [List.forall_mem_append]
        exact ⟨hafter, List.forall_mem_singleton.mpr ha⟩
      · refine ⟨n, .inr ⟨hn, ?_⟩⟩
        rw [List.forall_mem_append]
        exact ⟨hall, List.forall_mem_singleton.mpr ha⟩

theorem holds_of_unassigned (hclean : ∀ a ∈ rest, Clean a)
    (hnone : ∀ x ∈ rest, ∀ m, ¬ Assigns s m x) (h : o.Holds s n)
    (hscan : scanInto o rest = .ok o') : o'.Holds s n := by
  induction rest generalizing o with
  | nil =>
    cases hscan
    exact h
  | cons a rest ih =>
    obtain ⟨hfirst, hrest⟩ := List.forall_mem_cons.mp hclean
    obtain ⟨item, hread, hitem⟩ := hfirst.exists_item
    rw [scanInto_cons hread hitem] at hscan
    refine ih hrest (fun x hx => hnone x (List.mem_cons_of_mem a hx)) (holds_take ?_ h) hscan
    rintro m rfl
    exact hnone a List.mem_cons_self m (hfirst.ofBytes_eq_assign_iff.mp hread)

theorem holds_of_effective (hclean : ∀ a ∈ args, Clean a) (h : Effective args s n)
    (hscan : scan args = .ok o) : o.Holds s n := by
  obtain ⟨before, a, after, rfl, ha, hafter⟩ | ⟨rfl, hnone⟩ := h
  · rw [List.forall_mem_append, List.forall_mem_cons] at hclean
    obtain ⟨hbefore, hfirst, hrest⟩ := hclean
    obtain ⟨o₁, -, hscan₁⟩ := exists_scanInto hbefore usable_default
    have hread := hfirst.ofBytes_eq_assign_iff.mpr ha
    rw [scan, hscan₁, scanInto_cons hread Item.noConfusion] at hscan
    exact holds_of_unassigned hrest hafter (holds_assign o₁ s n) hscan
  · exact holds_of_unassigned hclean hnone (holds_default s) hscan

theorem sum_counts_eq {n₁ n₂ n₃ n₄ : Nat} (hclean : ∀ a ∈ args, Clean a) (hscan : scan args = .ok o)
    (h₁ : Effective args .prioritySend n₁) (h₂ : Effective args .priorityReceive n₂)
    (h₃ : Effective args .send n₃) (h₄ : Effective args .receive n₄) :
    o.counts.sum = n₁ + n₂ + n₃ + n₄ := by
  have e₁ : o.counts.sendPriority = n₁ := holds_of_effective hclean h₁ hscan
  have e₂ : o.counts.receivePriority = n₂ := holds_of_effective hclean h₂ hscan
  have e₃ : o.counts.sendNormal = n₃ := holds_of_effective hclean h₃ hscan
  have e₄ : o.counts.receiveNormal = n₄ := holds_of_effective hclean h₄ hscan
  rw [PerLane.sum]
  omega

/-- The first argument that is bad or asks for help does ask for help. -/
def AsksForHelp (args : List (List UInt8)) : Prop :=
  ∃ before a after, args = before ++ a :: after ∧ (∀ x ∈ before, ¬ Bad x ∧ ¬ IsHelp x) ∧ IsHelp a

/-- No argument is bad or asks for help, and the counts in effect sum up to at most
`limit`. -/
def AsksForAtMost (limit : Nat) (args : List (List UInt8)) : Prop :=
  (∀ a ∈ args, ¬ Bad a ∧ ¬ IsHelp a) ∧ ∃ n₁ n₂ n₃ n₄, Effective args .prioritySend n₁ ∧
    Effective args .priorityReceive n₂ ∧ Effective args .send n₃ ∧ Effective args .receive n₄ ∧
    n₁ + n₂ + n₃ + n₄ ≤ limit

theorem AsksForHelp.scan_eq (h : AsksForHelp args) : scan args = .error .help := by
  obtain ⟨before, a, after, rfl, hbefore, ha⟩ := h
  exact scan_of_help hbefore ha

theorem asksForAtMost_iff (hclean : ∀ a ∈ args, Clean a) (hscan : scan args = .ok o)
    (limit : Nat) : AsksForAtMost limit args ↔ o.counts.sum ≤ limit := by
  constructor
  · rintro ⟨-, n₁, n₂, n₃, n₄, h₁, h₂, h₃, h₄, hsum⟩
    rwa [sum_counts_eq hclean hscan h₁ h₂ h₃ h₄]
  · intro hsum
    obtain ⟨n₁, h₁⟩ := exists_effective args .prioritySend
    obtain ⟨n₂, h₂⟩ := exists_effective args .priorityReceive
    obtain ⟨n₃, h₃⟩ := exists_effective args .send
    obtain ⟨n₄, h₄⟩ := exists_effective args .receive
    rw [sum_counts_eq hclean hscan h₁ h₂ h₃ h₄] at hsum
    exact ⟨hclean, n₁, n₂, n₃, n₄, h₁, h₂, h₃, h₄, hsum⟩

/-- What a scan comes to, by what the arguments ask for. -/
theorem scan_cases (args : List (List UInt8)) :
    (AsksForHelp args ∧ scan args = .error .help) ∨
    (¬ AsksForHelp args ∧ (∀ limit, ¬ AsksForAtMost limit args) ∧
      ∃ r, scan args = .error (.refused r)) ∨
    ¬ AsksForHelp args ∧ ∃ o, Usable o ∧ scan args = .ok o ∧
      ∀ limit, AsksForAtMost limit args ↔ o.counts.sum ≤ limit := by
  obtain hclean | ⟨before, a, after, rfl, hbefore, ha | ha⟩ := clean_or_first args
  · obtain ⟨o, ho, hscan⟩ := scan_of_clean hclean
    refine .inr (.inr ⟨fun h => ?_, o, ho, hscan, asksForAtMost_iff hclean hscan⟩)
    rw [h.scan_eq] at hscan
    cases hscan
  · obtain ⟨r, hscan⟩ := scan_of_bad hbefore ha after
    refine .inr (.inl ⟨fun h => ?_, fun limit h => ?_, r, hscan⟩)
    · rw [h.scan_eq] at hscan
      cases hscan
    · exact (h.1 a (List.mem_append_right _ List.mem_cons_self)).1 ha
  · exact .inl ⟨⟨before, a, after, rfl, hbefore, ha⟩, scan_of_help hbefore ha⟩

end HalfDuplex.CommandLine
