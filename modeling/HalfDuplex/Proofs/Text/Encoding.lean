import HalfDuplex.Text.Utf8
import Mathlib.Data.List.Forall2

/-!
# Reading is the inverse of encoding

Bytes read as a text exactly if they are its encoding, so no other bytes are a text.
The bytes of one character are a first byte and as many followers as it asks for; the
reader takes such a group as a whole, and whatever is not made of them has an invalid
part.
-/

namespace HalfDuplex.Utf8

variable {b : UInt8} {bs tail conts : List UInt8} {c : Char} {cs : List Char} {n v : Nat}
  {r : ByteRange} {rest : List ByteRange}

def encode (cs : List Char) : List UInt8 := cs.flatMap String.utf8EncodeChar

def Within (ranges : List ByteRange) (bs : List UInt8) : Prop :=
  List.Forall₂ (fun r b => r.contains b = true) ranges bs

/-- The number that `v` and the bytes after it make up. -/
def gather (v : Nat) (bs : List UInt8) : Nat := bs.foldl (fun v b => 64 * v + b.toNat % 64) v

/-- The bytes that stand for the number of one character. -/
inductive Group : List UInt8 → Nat → Prop where
  | single {b : UInt8} : b < 0x80 → Group [b] b.toNat
  | multiple {b : UInt8} {r : ByteRange} {rest : List ByteRange} {conts : List UInt8} :
      ¬ b < 0x80 → followers? b = some (r :: rest) → Within (r :: rest) conts →
      Group (b :: conts) (gather (leadValue b (rest.length + 1)) conts)

theorem readFrom_inside (h : Within (r :: rest) conts) (tail : List UInt8) :
    readFrom (.inside v r rest) (conts ++ tail) =
      some (Char.ofNat (gather v conts)) :: read tail := by
  induction rest generalizing v r conts with
  | nil =>
    obtain ⟨b, conts, hb, hnil, rfl⟩ := List.forall₂_cons_left_iff.mp h
    obtain rfl := List.forall₂_nil_left_iff.mp hnil
    rw [List.cons_append, readFrom, step, if_pos hb]
    rfl
  | cons r' rest ih =>
    obtain ⟨b, conts, hb, hrest, rfl⟩ := List.forall₂_cons_left_iff.mp h
    rw [List.cons_append, readFrom, step, if_pos hb]
    exact ih hrest

theorem readFrom_inside_cases (v : Nat) (r : ByteRange) (rest : List ByteRange)
    (bs : List UInt8) : none ∈ readFrom (.inside v r rest) bs ∨
      ∃ conts tail, bs = conts ++ tail ∧ Within (r :: rest) conts := by
  induction rest generalizing v r bs with
  | nil =>
    cases bs with
    | nil => exact .inl List.mem_cons_self
    | cons b bs =>
      cases hb : r.contains b with
      | true => exact .inr ⟨[b], bs, rfl, .cons hb .nil⟩
      | false =>
        rw [readFrom, step, hb]
        exact .inl List.mem_cons_self
  | cons r' rest ih =>
    cases bs with
    | nil => exact .inl List.mem_cons_self
    | cons b bs =>
      cases hb : r.contains b with
      | true =>
        rw [readFrom, step, hb]
        obtain hnone | ⟨conts, tail, rfl, hw⟩ := ih (64 * v + b.toNat % 64) r' bs
        · exact .inl hnone
        · exact .inr ⟨b :: conts, tail, rfl, .cons hb hw⟩
      | false =>
        rw [readFrom, step, hb]
        exact .inl List.mem_cons_self

theorem read_of_group (h : Group bs n) (tail : List UInt8) :
    read (bs ++ tail) = some (Char.ofNat n) :: read tail := by
  cases h with
  | single hb =>
    rw [read, List.singleton_append, readFrom, step, first, if_pos hb]
    rfl
  | multiple hb hf hw =>
    rw [read, List.cons_append, readFrom, step, first, if_neg hb, hf]
    exact readFrom_inside hw tail

theorem read_cases (b : UInt8) (bs : List UInt8) : none ∈ read (b :: bs) ∨
    ∃ cbs n tail, b :: bs = cbs ++ tail ∧ Group cbs n := by
  by_cases hb : b < 0x80
  · exact .inr ⟨[b], _, bs, rfl, .single hb⟩
  · rw [read, readFrom, step, first, if_neg hb]
    rcases hf : followers? b with _ | _ | ⟨r, rest⟩
    · exact .inl List.mem_cons_self
    · exact .inl List.mem_cons_self
    · obtain hnone | ⟨conts, tail, rfl, hw⟩ :=
        readFrom_inside_cases (leadValue b (rest.length + 1)) r rest bs
      · exact .inl hnone
      · exact .inr ⟨b :: conts, _, tail, rfl, .multiple hb hf hw⟩

theorem utf8EncodeChar_ofNat (h : n.isValidChar) : String.utf8EncodeChar (Char.ofNat n) =
    if n ≤ 127 then [UInt8.ofNat n]
    else if n ≤ 2047 then [UInt8.ofNat (n / 64 % 32 + 192), UInt8.ofNat (n % 64 + 128)]
    else if n ≤ 65535 then
      [UInt8.ofNat (n / 4096 % 16 + 224), UInt8.ofNat (n / 64 % 64 + 128),
        UInt8.ofNat (n % 64 + 128)]
    else
      [UInt8.ofNat (n / 262144 % 8 + 240), UInt8.ofNat (n / 4096 % 64 + 128),
        UInt8.ofNat (n / 64 % 64 + 128), UInt8.ofNat (n % 64 + 128)] := by
  have hn : (Char.ofNat n).val.toNat = n := by
    rw [Char.ofNat, dif_pos h]
    rfl
  rw [String.utf8EncodeChar, hn]

theorem ofNat_eq_of_toNat (h : n = b.toNat) : UInt8.ofNat n = b := by
  rw [h, UInt8.ofNat_toNat]

def Continues (b : UInt8) : Prop := 0x80 ≤ b.toNat ∧ b.toNat ≤ 0xBF

theorem contains_iff {low high : UInt8} :
    (ByteRange.mk low high).contains b = true ↔ low.toNat ≤ b.toNat ∧ b.toNat ≤ high.toNat := by
  rw [ByteRange.contains, Bool.and_eq_true, decide_eq_true_eq, decide_eq_true_eq,
    UInt8.le_iff_toNat_le, UInt8.le_iff_toNat_le]

theorem encode_two {b₀ b₁ : UInt8} (h₀ : 0xC2 ≤ b₀.toNat) (h₀' : b₀.toNat < 0xE0)
    (h₁ : Continues b₁) :
    [b₀, b₁] = String.utf8EncodeChar (Char.ofNat (64 * (b₀.toNat % 32) + b₁.toNat % 64)) := by
  obtain ⟨h₁, h₁'⟩ := h₁
  have hvalid : (64 * (b₀.toNat % 32) + b₁.toNat % 64).isValidChar := .inl (by omega)
  rw [utf8EncodeChar_ofNat hvalid, if_neg (by omega), if_pos (by omega),
    ofNat_eq_of_toNat (b := b₀) (by omega), ofNat_eq_of_toNat (b := b₁) (by omega)]

theorem encode_three {b₀ b₁ b₂ : UInt8} (h₀ : 0xE0 ≤ b₀.toNat) (h₀' : b₀.toNat < 0xF0)
    (h₁ : Continues b₁) (h₂ : Continues b₂) (hlow : b₀.toNat = 0xE0 → 0xA0 ≤ b₁.toNat)
    (hgap : b₀.toNat = 0xED → b₁.toNat ≤ 0x9F) :
    [b₀, b₁, b₂] = String.utf8EncodeChar
      (Char.ofNat (64 * (64 * (b₀.toNat % 16) + b₁.toNat % 64) + b₂.toNat % 64)) := by
  obtain ⟨h₁, h₁'⟩ := h₁
  obtain ⟨h₂, h₂'⟩ := h₂
  have hvalid :
      (64 * (64 * (b₀.toNat % 16) + b₁.toNat % 64) + b₂.toNat % 64).isValidChar := by
    unfold Nat.isValidChar
    omega
  rw [utf8EncodeChar_ofNat hvalid, if_neg (by omega), if_neg (by omega), if_pos (by omega),
    ofNat_eq_of_toNat (b := b₀) (by omega), ofNat_eq_of_toNat (b := b₁) (by omega),
    ofNat_eq_of_toNat (b := b₂) (by omega)]

theorem encode_four {b₀ b₁ b₂ b₃ : UInt8} (h₀ : 0xF0 ≤ b₀.toNat) (h₀' : b₀.toNat ≤ 0xF4)
    (h₁ : Continues b₁) (h₂ : Continues b₂) (h₃ : Continues b₃)
    (hlow : b₀.toNat = 0xF0 → 0x90 ≤ b₁.toNat) (hhigh : b₀.toNat = 0xF4 → b₁.toNat ≤ 0x8F) :
    [b₀, b₁, b₂, b₃] = String.utf8EncodeChar (Char.ofNat
      (64 * (64 * (64 * (b₀.toNat % 8) + b₁.toNat % 64) + b₂.toNat % 64) + b₃.toNat % 64)) := by
  obtain ⟨h₁, h₁'⟩ := h₁
  obtain ⟨h₂, h₂'⟩ := h₂
  obtain ⟨h₃, h₃'⟩ := h₃
  have hvalid : (64 * (64 * (64 * (b₀.toNat % 8) + b₁.toNat % 64) + b₂.toNat % 64) +
      b₃.toNat % 64).isValidChar := .inr (by omega)
  rw [utf8EncodeChar_ofNat hvalid, if_neg (by omega), if_neg (by omega), if_neg (by omega),
    ofNat_eq_of_toNat (b := b₀) (by omega), ofNat_eq_of_toNat (b := b₁) (by omega),
    ofNat_eq_of_toNat (b := b₂) (by omega), ofNat_eq_of_toNat (b := b₃) (by omega)]

theorem within_one {r₁ : ByteRange} (h : Within [r₁] conts) :
    ∃ b₁, conts = [b₁] ∧ r₁.contains b₁ = true := by
  obtain ⟨b₁, rest, h₁, hnil, rfl⟩ := List.forall₂_cons_left_iff.mp h
  obtain rfl := List.forall₂_nil_left_iff.mp hnil
  exact ⟨b₁, rfl, h₁⟩

theorem within_two {r₁ r₂ : ByteRange} (h : Within [r₁, r₂] conts) :
    ∃ b₁ b₂, conts = [b₁, b₂] ∧ r₁.contains b₁ = true ∧ r₂.contains b₂ = true := by
  obtain ⟨b₁, rest, h₁, hrest, rfl⟩ := List.forall₂_cons_left_iff.mp h
  obtain ⟨b₂, rfl, h₂⟩ := within_one hrest
  exact ⟨b₁, b₂, rfl, h₁, h₂⟩

theorem within_three {r₁ r₂ r₃ : ByteRange} (h : Within [r₁, r₂, r₃] conts) :
    ∃ b₁ b₂ b₃, conts = [b₁, b₂, b₃] ∧ r₁.contains b₁ = true ∧ r₂.contains b₂ = true ∧
      r₃.contains b₃ = true := by
  obtain ⟨b₁, rest, h₁, hrest, rfl⟩ := List.forall₂_cons_left_iff.mp h
  obtain ⟨b₂, b₃, rfl, h₂, h₃⟩ := within_two hrest
  exact ⟨b₁, b₂, b₃, rfl, h₁, h₂, h₃⟩

theorem followers?_eq (b : UInt8) : followers? b =
    if b.toNat < 0xC2 then none
    else if b.toNat < 0xE0 then some [continuation]
    else if b.toNat = 0xE0 then some [⟨0xA0, 0xBF⟩, continuation]
    else if b.toNat = 0xED then some [⟨0x80, 0x9F⟩, continuation]
    else if b.toNat < 0xF0 then some [continuation, continuation]
    else if b.toNat = 0xF0 then some [⟨0x90, 0xBF⟩, continuation, continuation]
    else if b.toNat < 0xF4 then some [continuation, continuation, continuation]
    else if b.toNat = 0xF4 then some [⟨0x80, 0x8F⟩, continuation, continuation]
    else none := by
  simp only [followers?, UInt8.lt_iff_toNat_lt, ← UInt8.toNat_inj]
  rfl

theorem contains_continuation_iff : continuation.contains b = true ↔ Continues b := contains_iff

/-- A group of bytes is the encoding of the character that it is read as. -/
theorem Group.eq_utf8EncodeChar (h : Group bs n) : bs = String.utf8EncodeChar (Char.ofNat n) := by
  cases h with
  | @single b hb =>
    have hn : b.toNat < 128 := UInt8.lt_iff_toNat_lt.mp hb
    rw [utf8EncodeChar_ofNat (.inl (by omega)), if_pos (by omega), UInt8.ofNat_toNat]
  | @multiple b r rest conts hb hf hw =>
    rw [followers?_eq] at hf
    split_ifs at hf <;> cases hf
    · obtain ⟨b₁, rfl, h₁⟩ := within_one hw
      exact encode_two (by omega) (by omega) (contains_continuation_iff.mp h₁)
    · obtain ⟨b₁, b₂, rfl, h₁, h₂⟩ := within_two hw
      obtain ⟨hlow, hhigh⟩ : 0xA0 ≤ b₁.toNat ∧ b₁.toNat ≤ 0xBF := contains_iff.mp h₁
      exact encode_three (by omega) (by omega) ⟨by omega, hhigh⟩ (contains_continuation_iff.mp h₂)
        (fun _ => hlow) (by omega)
    · obtain ⟨b₁, b₂, rfl, h₁, h₂⟩ := within_two hw
      obtain ⟨hlow, hhigh⟩ : 0x80 ≤ b₁.toNat ∧ b₁.toNat ≤ 0x9F := contains_iff.mp h₁
      exact encode_three (by omega) (by omega) ⟨hlow, by omega⟩ (contains_continuation_iff.mp h₂)
        (by omega) (fun _ => hhigh)
    · obtain ⟨b₁, b₂, rfl, h₁, h₂⟩ := within_two hw
      exact encode_three (by omega) (by omega) (contains_continuation_iff.mp h₁)
        (contains_continuation_iff.mp h₂) (by omega) (by omega)
    · obtain ⟨b₁, b₂, b₃, rfl, h₁, h₂, h₃⟩ := within_three hw
      obtain ⟨hlow, hhigh⟩ : 0x90 ≤ b₁.toNat ∧ b₁.toNat ≤ 0xBF := contains_iff.mp h₁
      exact encode_four (by omega) (by omega) ⟨by omega, hhigh⟩ (contains_continuation_iff.mp h₂)
        (contains_continuation_iff.mp h₃) (fun _ => hlow) (by omega)
    · obtain ⟨b₁, b₂, b₃, rfl, h₁, h₂, h₃⟩ := within_three hw
      exact encode_four (by omega) (by omega) (contains_continuation_iff.mp h₁)
        (contains_continuation_iff.mp h₂) (contains_continuation_iff.mp h₃) (by omega) (by omega)
    · obtain ⟨b₁, b₂, b₃, rfl, h₁, h₂, h₃⟩ := within_three hw
      obtain ⟨hlow, hhigh⟩ : 0x80 ≤ b₁.toNat ∧ b₁.toNat ≤ 0x8F := contains_iff.mp h₁
      exact encode_four (by omega) (by omega) ⟨hlow, by omega⟩ (contains_continuation_iff.mp h₂)
        (contains_continuation_iff.mp h₃) (by omega) (fun _ => hhigh)

theorem Group.of_gather {b₀ : UInt8} (h₀ : 0x80 ≤ b₀.toNat) (hf : followers? b₀ = some (r :: rest))
    (hw : Within (r :: rest) conts) (hn : gather (leadValue b₀ (rest.length + 1)) conts = n) :
    Group (b₀ :: conts) n := by
  subst hn
  exact .multiple (by rw [UInt8.lt_iff_toNat_lt]; exact Nat.not_lt_of_le h₀) hf hw

theorem group_two {b₀ b₁ : UInt8} (h₀ : 0xC2 ≤ b₀.toNat) (h₀' : b₀.toNat < 0xE0)
    (h₁ : Continues b₁) : Group [b₀, b₁] (64 * (b₀.toNat % 32) + b₁.toNat % 64) := by
  refine .of_gather (by omega) ?_ (.cons (contains_continuation_iff.mpr h₁) .nil) rfl
  rw [followers?_eq, if_neg (by omega), if_pos h₀']

theorem group_three {b₀ b₁ b₂ : UInt8} (h₀ : 0xE0 ≤ b₀.toNat) (h₀' : b₀.toNat < 0xF0)
    (h₁ : Continues b₁) (h₂ : Continues b₂) (hlow : b₀.toNat = 0xE0 → 0xA0 ≤ b₁.toNat)
    (hgap : b₀.toNat = 0xED → b₁.toNat ≤ 0x9F) :
    Group [b₀, b₁, b₂] (64 * (64 * (b₀.toNat % 16) + b₁.toNat % 64) + b₂.toNat % 64) := by
  have hf := followers?_eq b₀
  rw [if_neg (by omega), if_neg (by omega)] at hf
  have hb : 0x80 ≤ b₀.toNat := by omega
  have h₂' := contains_continuation_iff.mpr h₂
  split_ifs at hf with h h
  · exact .of_gather hb hf (.cons (contains_iff.mpr ⟨hlow h, h₁.2⟩) (.cons h₂' .nil)) rfl
  · exact .of_gather hb hf (.cons (contains_iff.mpr ⟨h₁.1, hgap h⟩) (.cons h₂' .nil)) rfl
  · exact .of_gather hb hf (.cons (contains_continuation_iff.mpr h₁) (.cons h₂' .nil)) rfl

theorem group_four {b₀ b₁ b₂ b₃ : UInt8} (h₀ : 0xF0 ≤ b₀.toNat) (h₀' : b₀.toNat ≤ 0xF4)
    (h₁ : Continues b₁) (h₂ : Continues b₂) (h₃ : Continues b₃)
    (hlow : b₀.toNat = 0xF0 → 0x90 ≤ b₁.toNat) (hhigh : b₀.toNat = 0xF4 → b₁.toNat ≤ 0x8F) :
    Group [b₀, b₁, b₂, b₃]
      (64 * (64 * (64 * (b₀.toNat % 8) + b₁.toNat % 64) + b₂.toNat % 64) + b₃.toNat % 64) := by
  have hf := followers?_eq b₀
  rw [if_neg (by omega), if_neg (by omega), if_neg (by omega), if_neg (by omega),
    if_neg (by omega)] at hf
  have hb : 0x80 ≤ b₀.toNat := by omega
  have h₁' := contains_continuation_iff.mpr h₁
  have h₂' := contains_continuation_iff.mpr h₂
  have h₃' := contains_continuation_iff.mpr h₃
  split_ifs at hf with h h h
  · exact .of_gather hb hf
      (.cons (contains_iff.mpr ⟨hlow h, h₁.2⟩) (.cons h₂' (.cons h₃' .nil))) rfl
  · exact .of_gather hb hf (.cons h₁' (.cons h₂' (.cons h₃' .nil))) rfl
  · exact .of_gather hb hf
      (.cons (contains_iff.mpr ⟨h₁.1, hhigh h⟩) (.cons h₂' (.cons h₃' .nil))) rfl
  · omega

theorem toNat_ofNat_of_lt (h : n < 256) : (UInt8.ofNat n).toNat = n := UInt8.toNat_ofNat_of_lt' h

theorem group_utf8EncodeChar (c : Char) : Group (String.utf8EncodeChar c) c.toNat := by
  have hvalid : c.toNat < 0xD800 ∨ 0xDFFF < c.toNat ∧ c.toNat < 0x110000 := c.valid
  have hencode := utf8EncodeChar_ofNat hvalid
  rw [Char.ofNat_toNat] at hencode
  rw [hencode]
  generalize c.toNat = n at hvalid ⊢
  have hlast : (UInt8.ofNat (n % 64 + 128)).toNat = n % 64 + 128 := toNat_ofNat_of_lt (by omega)
  have hnext : (UInt8.ofNat (n / 64 % 64 + 128)).toNat = n / 64 % 64 + 128 :=
    toNat_ofNat_of_lt (by omega)
  have hlast' : Continues (UInt8.ofNat (n % 64 + 128)) := by
    rw [Continues, hlast]
    omega
  have hnext' : Continues (UInt8.ofNat (n / 64 % 64 + 128)) := by
    rw [Continues, hnext]
    omega
  split_ifs with h₁ h₂ h₃
  · have hn : (UInt8.ofNat n).toNat = n := toNat_ofNat_of_lt (by omega)
    have hsmall : UInt8.ofNat n < 0x80 := by
      rw [UInt8.lt_iff_toNat_lt, hn]
      exact Nat.lt_succ_of_le h₁
    have hgroup := Group.single hsmall
    rwa [hn] at hgroup
  · have hfirst : (UInt8.ofNat (n / 64 % 32 + 192)).toNat = n / 64 % 32 + 192 :=
      toNat_ofNat_of_lt (by omega)
    have hgroup := group_two (by rw [hfirst]; omega) (by rw [hfirst]; omega) hlast'
    have hnumber : 64 * ((n / 64 % 32 + 192) % 32) + (n % 64 + 128) % 64 = n := by omega
    rwa [hfirst, hlast, hnumber] at hgroup
  · have hfirst : (UInt8.ofNat (n / 4096 % 16 + 224)).toNat = n / 4096 % 16 + 224 :=
      toNat_ofNat_of_lt (by omega)
    have hgroup := group_three (by rw [hfirst]; omega) (by rw [hfirst]; omega) hnext' hlast'
      (by rw [hfirst, hnext]; omega) (by rw [hfirst, hnext]; omega)
    have hnumber : 64 * (64 * ((n / 4096 % 16 + 224) % 16) + (n / 64 % 64 + 128) % 64) +
        (n % 64 + 128) % 64 = n := by omega
    rwa [hfirst, hnext, hlast, hnumber] at hgroup
  · have hfirst : (UInt8.ofNat (n / 262144 % 8 + 240)).toNat = n / 262144 % 8 + 240 :=
      toNat_ofNat_of_lt (by omega)
    have hsecond : (UInt8.ofNat (n / 4096 % 64 + 128)).toNat = n / 4096 % 64 + 128 :=
      toNat_ofNat_of_lt (by omega)
    have hsecond' : Continues (UInt8.ofNat (n / 4096 % 64 + 128)) := by
      rw [Continues, hsecond]
      omega
    have hgroup := group_four (by rw [hfirst]; omega) (by rw [hfirst]; omega) hsecond' hnext' hlast'
      (by rw [hfirst, hsecond]; omega) (by rw [hfirst, hsecond]; omega)
    have hnumber : 64 * (64 * (64 * ((n / 262144 % 8 + 240) % 8) + (n / 4096 % 64 + 128) % 64) +
        (n / 64 % 64 + 128) % 64) + (n % 64 + 128) % 64 = n := by omega
    rwa [hfirst, hsecond, hnext, hlast, hnumber] at hgroup

theorem read_encode (cs : List Char) : read (encode cs) = cs.map some := by
  induction cs with
  | nil => rfl
  | cons c cs ih =>
    rw [encode, List.flatMap_cons, read_of_group (group_utf8EncodeChar c), Char.ofNat_toNat]
    exact congrArg (some c :: ·) ih

theorem eq_encode_of_read (h : read bs = cs.map some) : bs = encode cs := by
  induction cs generalizing bs with
  | nil =>
    cases bs with
    | nil => rfl
    | cons b bs =>
      obtain hnone | ⟨cbs, n, tail, hbs, hgroup⟩ := read_cases b bs
      · rw [h] at hnone
        cases hnone
      · rw [hbs, read_of_group hgroup] at h
        cases h
  | cons c cs ih =>
    cases bs with
    | nil => cases h
    | cons b bs =>
      obtain hnone | ⟨cbs, n, tail, hbs, hgroup⟩ := read_cases b bs
      · rw [h] at hnone
        obtain ⟨c', -, hc'⟩ := List.mem_map.mp hnone
        cases hc'
      · rw [hbs, read_of_group hgroup, List.map_cons, List.cons.injEq, Option.some.injEq] at h
        obtain ⟨rfl, htail⟩ := h
        rw [hbs, hgroup.eq_utf8EncodeChar, ih htail]
        rfl

theorem mapM_id_eq_some_iff {l : List (Option Char)} : l.mapM id = some cs ↔ l = cs.map some := by
  induction l generalizing cs with
  | nil => cases cs <;> simp
  | cons x l ih =>
    rw [List.mapM_cons]
    cases x with
    | none => cases cs <;> simp
    | some c =>
      cases cs with
      | nil => simp [Option.bind_eq_some_iff]
      | cons d cs => simp [Option.bind_eq_some_iff, ih, and_comm]

/-- Bytes read as a text exactly if they are its encoding. -/
theorem text?_eq_some_iff : text? bs = some cs ↔ bs = encode cs := by
  rw [text?, mapM_id_eq_some_iff]
  constructor
  · exact eq_encode_of_read
  · rintro rfl
    exact read_encode cs

end HalfDuplex.Utf8
