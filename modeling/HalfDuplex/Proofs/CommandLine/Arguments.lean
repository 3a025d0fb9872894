import HalfDuplex.CommandLine.Options
import HalfDuplex.Proofs.Text.Encoding
import Mathlib.Data.List.TakeWhile
import Mathlib.Data.Nat.Digits.Defs

/-!
# Single arguments

An argument is a text in its encoding. It sets a number, by a flag and a value with
an equals sign between them, or it is one of three words; all others are bad. What is
read off an argument tells which of these it is.
-/

namespace HalfDuplex.CommandLine

open Utf8

variable {a : List UInt8} {cs name value digits : List Char} {s : Setting} {n m : Nat}

/-- A value reads as `n`: an optional plus sign and one or more digits, with a number
that fits a word. -/
def Denotes (value : List Char) (n : Nat) : Prop :=
  ∃ digits, digits ≠ [] ∧ (∀ c ∈ digits, c.isDigit = true) ∧
    (value = digits ∨ value = '+' :: digits) ∧
    n = Nat.ofDigits 10 (digits.reverse.map fun c => c.toNat - '0'.toNat) ∧ n < Word.size

theorem digitsValue_eq (digits : List Char) : Word.digitsValue digits =
    Nat.ofDigits 10 (digits.reverse.map fun c => c.toNat - '0'.toNat) := by
  rw [Word.digitsValue, ← List.foldr_reverse]
  induction digits.reverse with
  | nil => rfl
  | cons c cs ih =>
    rw [List.foldr_cons, ih, List.map_cons, Nat.ofDigits_cons]
    exact Nat.add_comm _ _

theorem parseDigits?_eq_some (hne : digits ≠ []) (hdigits : ∀ c ∈ digits, c.isDigit = true)
    (hn : n = Nat.ofDigits 10 (digits.reverse.map fun c => c.toNat - '0'.toNat))
    (hword : n < Word.size) : Word.parseDigits? digits = some n :=
  Word.parseDigits?_eq_some_iff.mpr
    ⟨hne, List.all_eq_true.mpr hdigits, by rw [digitsValue_eq, hn], hword⟩

theorem parse?_eq_some_iff : Word.parse? value = some n ↔ Denotes value n := by
  constructor
  · intro h
    obtain ⟨hne, hdigits, hn, hword⟩ := Word.parseDigits?_eq_some_iff.mp h
    refine ⟨Word.afterPlus value, hne, List.all_eq_true.mp hdigits, ?_, ?_, hword⟩
    · unfold Word.afterPlus
      split
      · exact .inr rfl
      · exact .inl rfl
    · rw [← hn, digitsValue_eq]
  · rintro ⟨digits, hne, hdigits, hvalue | hvalue, hn, hword⟩
    · have hplus : Word.afterPlus digits = digits := by
        unfold Word.afterPlus
        split
        · cases hdigits '+' List.mem_cons_self
        · rfl
      rw [hvalue, Word.parse?, hplus]
      exact parseDigits?_eq_some hne hdigits hn hword
    · rw [hvalue]
      exact parseDigits?_eq_some hne hdigits hn hword

/-- The argument that sets `s` by `value`. -/
def setting (s : Setting) (value : List Char) : List UInt8 :=
  encode (s.flag.toList ++ '=' :: value)

def Assigns (s : Setting) (n : Nat) (a : List UInt8) : Prop :=
  ∃ value, a = setting s value ∧ Denotes value n

def IsTrace (a : List UInt8) : Prop := a = encode "--trace".toList

def IsHelp (a : List UInt8) : Prop := a = encode "--help".toList ∨ a = encode "-h".toList

/-- The argument cannot be used. -/
inductive Bad : List UInt8 → Prop where
  | notText {a : List UInt8} : (∀ cs, a ≠ encode cs) → Bad a
  | unknownFlag {name value : List Char} : '=' ∉ name → (∀ s : Setting, s.flag.toList ≠ name) →
      Bad (encode (name ++ '=' :: value))
  | badValue {s : Setting} {value : List Char} : (∀ n, ¬ Denotes value n) → Bad (setting s value)
  | zeroCapacity {value : List Char} : Denotes value 0 → Bad (setting .capacity value)
  | unknownWord {word : List Char} : '=' ∉ word → word ≠ "--trace".toList →
      word ≠ "--help".toList → word ≠ "-h".toList → Bad (encode word)

theorem ofBytes_encode (cs : List Char) : Item.ofBytes (encode cs) = Item.ofText cs := by
  rw [Item.ofBytes, text?_eq_some_iff.mpr rfl]

theorem ofText_of_not_mem (h : '=' ∉ cs) : Item.ofText cs = Item.ofWord (String.ofList cs) := by
  have hdrop : cs.dropWhile (· ≠ '=') = [] := by
    rw [List.dropWhile_eq_nil_iff]
    intro c hc
    exact decide_eq_true fun he => h (he ▸ hc)
  rw [Item.ofText, hdrop]

theorem ofText_append (h : '=' ∉ name) :
    Item.ofText (name ++ '=' :: value) = Item.ofAssignment name value := by
  have hname : ∀ c ∈ name, decide (c ≠ '=') = true := fun c hc =>
    decide_eq_true fun he => h (he ▸ hc)
  rw [Item.ofText, List.dropWhile_append_of_pos hname, List.takeWhile_append_of_pos hname]
  simp

theorem splits (cs : List Char) :
    '=' ∉ cs ∨ ∃ name value, '=' ∉ name ∧ cs = name ++ '=' :: value := by
  by_cases h : '=' ∈ cs
  · obtain ⟨name, value, rfl, hname⟩ := List.eq_append_cons_of_mem h
    exact .inr ⟨name, value, hname, rfl⟩
  · exact .inl h

theorem equals_not_mem_flag (s : Setting) : '=' ∉ s.flag.toList := by
  cases s <;> decide

theorem named?_eq_some_iff :
    Setting.named? (String.ofList name) = some s ↔ s.flag.toList = name := by
  constructor
  · intro h
    have hflag := List.find?_some h
    rw [eq_of_beq hflag, String.toList_ofList]
  · rintro rfl
    rw [String.ofList_toList]
    cases s <;> decide

theorem ofBytes_of_notText (h : ∀ cs, a ≠ encode cs) :
    Item.ofBytes a = .error (.notText (String.ofList (lossyText a))) := by
  have hnone : text? a = none := by
    rw [Option.eq_none_iff_forall_ne_some]
    exact fun cs hcs => h cs (text?_eq_some_iff.mp hcs)
  rw [Item.ofBytes, hnone]

theorem ofBytes_word (h : '=' ∉ cs) :
    Item.ofBytes (encode cs) = Item.ofWord (String.ofList cs) := by
  rw [ofBytes_encode, ofText_of_not_mem h]

theorem ofBytes_unknownFlag (h : '=' ∉ name) (hname : ∀ s : Setting, s.flag.toList ≠ name) :
    Item.ofBytes (encode (name ++ '=' :: value)) =
      .error (.unknownFlag (String.ofList (name ++ '=' :: value))) := by
  have hnone : Setting.named? (String.ofList name) = none := by
    rw [Option.eq_none_iff_forall_ne_some]
    exact fun s hs => hname s (named?_eq_some_iff.mp hs)
  rw [ofBytes_encode, ofText_append h, Item.ofAssignment, hnone]

theorem ofBytes_setting (s : Setting) (value : List Char) :
    Item.ofBytes (setting s value) =
      match Word.parse? value with
      | none => .error (.badValue s (String.ofList value))
      | some n => if s = .capacity ∧ n = 0 then .error .zeroCapacity else .ok (.assign s n) := by
  rewrite [setting, ofBytes_encode, ofText_append (equals_not_mem_flag s), Item.ofAssignment,
    named?_eq_some_iff.mpr rfl]
  rfl

theorem argument_cases (a : List UInt8) : (∀ cs, a ≠ encode cs) ∨
    (∃ word, '=' ∉ word ∧ a = encode word) ∨
    (∃ name value, '=' ∉ name ∧ (∀ s : Setting, s.flag.toList ≠ name) ∧
      a = encode (name ++ '=' :: value)) ∨
    ∃ s value, a = setting s value := by
  by_cases htext : ∃ cs, a = encode cs
  · obtain ⟨cs, rfl⟩ := htext
    obtain hword | ⟨name, value, hname, rfl⟩ := splits cs
    · exact .inr (.inl ⟨cs, hword, rfl⟩)
    · by_cases hflag : ∃ s : Setting, s.flag.toList = name
      · obtain ⟨s, rfl⟩ := hflag
        exact .inr (.inr (.inr ⟨s, value, rfl⟩))
      · exact .inr (.inr (.inl ⟨name, value, hname, not_exists.mp hflag, rfl⟩))
  · exact .inl (not_exists.mp htext)

theorem ofWord_cases (word : List Char) :
    (word = "--trace".toList ∧ Item.ofWord (String.ofList word) = .ok .trace) ∨
    ((word = "--help".toList ∨ word = "-h".toList) ∧
      Item.ofWord (String.ofList word) = .ok .help) ∨
    (word ≠ "--trace".toList ∧ word ≠ "--help".toList ∧ word ≠ "-h".toList ∧
      ∃ r, Item.ofWord (String.ofList word) = .error r) := by
  have heq : ∀ t : String, String.ofList word = t ↔ word = t.toList := by
    intro t
    constructor
    · rintro rfl
      exact String.toList_ofList.symm
    · rintro rfl
      exact String.ofList_toList
  simp only [Item.ofWord, heq]
  by_cases htrace : word = "--trace".toList
  · exact .inl ⟨htrace, if_pos htrace⟩
  · rw [if_neg htrace]
    by_cases hhelp : word = "--help".toList ∨ word = "-h".toList
    · exact .inr (.inl ⟨hhelp, if_pos hhelp⟩)
    · rw [if_neg hhelp]
      exact .inr (.inr ⟨htrace, fun h => hhelp (.inl h), fun h => hhelp (.inr h), _, rfl⟩)

/-- Every argument is bad, or it is read as what it asks for. -/
theorem ofBytes_cases (a : List UInt8) :
    (Bad a ∧ ∃ r, Item.ofBytes a = .error r) ∨ (IsHelp a ∧ Item.ofBytes a = .ok .help) ∨
    (IsTrace a ∧ Item.ofBytes a = .ok .trace) ∨
    ∃ s n, Assigns s n a ∧ (s = .capacity → 0 < n) ∧ n < Word.size ∧
      Item.ofBytes a = .ok (.assign s n) := by
  obtain htext | ⟨word, hword, rfl⟩ | ⟨name, value, hname, hflag, rfl⟩ | ⟨s, value, rfl⟩ :=
    argument_cases a
  · exact .inl ⟨.notText htext, _, ofBytes_of_notText htext⟩
  · rw [ofBytes_word hword]
    obtain ⟨rfl, hread⟩ | ⟨rfl | rfl, hread⟩ | ⟨htrace, hhelp, hh, r, hread⟩ := ofWord_cases word
    · exact .inr (.inr (.inl ⟨rfl, hread⟩))
    · exact .inr (.inl ⟨.inl rfl, hread⟩)
    · exact .inr (.inl ⟨.inr rfl, hread⟩)
    · exact .inl ⟨.unknownWord hword htrace hhelp hh, r, hread⟩
  · exact .inl ⟨.unknownFlag hname hflag, _, ofBytes_unknownFlag hname hflag⟩
  · rw [ofBytes_setting]
    cases hvalue : Word.parse? value with
    | none =>
      refine .inl ⟨.badValue fun n hn => ?_, _, rfl⟩
      rw [parse?_eq_some_iff.mpr hn] at hvalue
      cases hvalue
    | some n =>
      have hdenotes := parse?_eq_some_iff.mp hvalue
      dsimp only
      by_cases hzero : s = .capacity ∧ n = 0
      · rw [if_pos hzero]
        obtain ⟨rfl, rfl⟩ := hzero
        exact .inl ⟨.zeroCapacity hdenotes, _, rfl⟩
      · rw [if_neg hzero]
        refine .inr (.inr (.inr ⟨s, n, ⟨value, rfl, hdenotes⟩, fun hs => ?_, ?_, rfl⟩))
        · exact Nat.pos_of_ne_zero fun hn => hzero ⟨hs, hn⟩
        · obtain ⟨digits, -, -, -, -, hlt⟩ := hdenotes
          exact hlt

theorem Bad.not_ok (h : Bad a) (item : Item) : Item.ofBytes a ≠ .ok item := by
  intro hread
  cases h with
  | notText htext => rw [ofBytes_of_notText htext] at hread; cases hread
  | unknownFlag hname hflag => rw [ofBytes_unknownFlag hname hflag] at hread; cases hread
  | @badValue s value hvalue =>
    rw [ofBytes_setting] at hread
    cases hparse : Word.parse? value with
    | none => rw [hparse] at hread; cases hread
    | some n => exact hvalue n (parse?_eq_some_iff.mp hparse)
  | zeroCapacity hvalue =>
    rw [ofBytes_setting, parse?_eq_some_iff.mpr hvalue] at hread
    cases hread
  | @unknownWord word hword htrace hhelp hh =>
    rw [ofBytes_word hword] at hread
    obtain ⟨h, -⟩ | ⟨h | h, -⟩ | ⟨-, -, -, r, hr⟩ := ofWord_cases word
    · exact htrace h
    · exact hhelp h
    · exact hh h
    · rw [hr] at hread
      cases hread

theorem ofBytes_of_isHelp (h : IsHelp a) : Item.ofBytes a = .ok .help := by
  obtain rfl | rfl := h
  · rw [ofBytes_word (by decide)]
    rfl
  · rw [ofBytes_word (by decide)]
    rfl

theorem ofBytes_of_assigns (h : Assigns s n a) (hpos : s = .capacity → 0 < n) :
    Item.ofBytes a = .ok (.assign s n) := by
  obtain ⟨value, rfl, hvalue⟩ := h
  rw [ofBytes_setting, parse?_eq_some_iff.mpr hvalue]
  exact if_neg fun ⟨hs, hn⟩ => (hpos hs).ne' hn

end HalfDuplex.CommandLine
