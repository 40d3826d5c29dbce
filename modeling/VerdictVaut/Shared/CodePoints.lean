import Mathlib.Data.List.Basic
import Mathlib.Data.List.Nodup

set_option autoImplicit false

namespace CodePoints

/-- A JavaScript string as the code points that `for ... of` iterates over; a lone surrogate is one of them. -/
abbrev Text := List ℕ

def ofString (s : String) : Text :=
  s.toList.map Char.toNat

/-- `length` counts UTF-16 code units. -/
def length : Text → ℕ
  | [] => 0
  | char :: rest => (if char < 0x10000 then 1 else 2) + length rest

theorem length_ascii {s : Text} (ascii : ∀ char ∈ s, char < 0x80) : length s = s.length := by
  induction s with
  | nil => rfl
  | cons char s ih =>
    have first := ascii char List.mem_cons_self
    have others := ih fun c member => ascii c (List.mem_cons_of_mem _ member)
    rw [length, if_pos (by omega), others, List.length_cons, Nat.add_comm]

section Alphabets

variable {chars s : Text} {char digit : ℕ}

/-- `chars.indexOf(char)`, which is -1 for a character that is not there. -/
def indexOf? (chars : Text) (char : ℕ) : Option ℕ :=
  if char ∈ chars then some (chars.idxOf char) else none

theorem getD_idxOf (known : char ∈ chars) : chars.getD (chars.idxOf char) 0 = char := by
  simp [List.getD, List.getElem?_idxOf known]

theorem idxOf_getD (nodup : chars.Nodup) (inside : digit < chars.length) : chars.idxOf (chars.getD digit 0) = digit := by
  simp [List.getD, inside, nodup.idxOf_getElem]

theorem getD_mem (inside : digit < chars.length) : chars.getD digit 0 ∈ chars := by
  simp [List.getD, inside]

theorem indexOf?_eq_some (nodup : chars.Nodup) :
    indexOf? chars char = some digit ↔ digit < chars.length ∧ char = chars.getD digit 0 := by
  unfold indexOf?
  constructor
  · intro found
    split at found
    next known =>
      cases found
      exact ⟨List.idxOf_lt_length_of_mem known, (getD_idxOf known).symm⟩
    · cases found
  · rintro ⟨inside, rfl⟩
    rw [if_pos (getD_mem inside), idxOf_getD nodup inside]

end Alphabets

section Casing

def asciiLower (char : ℕ) : ℕ :=
  if 0x41 ≤ char ∧ char ≤ 0x5a then char + 0x20 else char

def asciiUpper (char : ℕ) : ℕ :=
  if 0x61 ≤ char ∧ char ≤ 0x7a then char - 0x20 else char

def kelvin : ℕ := 0x212A

/-- The default case mappings of Unicode, the lower one with the text around the character (for a final sigma): what they do
with ASCII characters, and that the Kelvin sign alone gets to be an ASCII text. -/
structure CaseMapping where
  lower : Text → ℕ → Text → Text
  upper : ℕ → Text
  lower_ascii : ∀ before char after, char < 0x80 → lower before char after = [asciiLower char]
  lower_kelvin : ∀ before after, lower before kelvin after = [0x6b]
  lower_other : ∀ before char after, 0x80 ≤ char → char ≠ kelvin → ∃ c ∈ lower before char after, 0x80 ≤ c
  upper_ascii : ∀ char, char < 0x80 → upper char = [asciiUpper char]
  upper_kelvin : upper kelvin = [kelvin]

namespace CaseMapping

variable (m : CaseMapping) {s : Text}

def lowerAfter (before : Text) : Text → Text
  | [] => []
  | char :: after => m.lower before char after ++ lowerAfter (before ++ [char]) after

def toLowerCase (s : Text) : Text :=
  m.lowerAfter [] s

def toUpperCase (s : Text) : Text :=
  s.flatMap m.upper

def Plain (s : Text) : Prop :=
  -- the texts that can be ASCII in lower case
  ∀ char ∈ s, char < 0x80 ∨ char = kelvin

def lowerPlain (char : ℕ) : ℕ :=
  if char = kelvin then 0x6b else asciiLower char

def upperPlain (char : ℕ) : ℕ :=
  if char = kelvin then kelvin else asciiUpper char

theorem toLowerCase_plain (plain : Plain s) : m.toLowerCase s = s.map lowerPlain := by
  suffices from_ : ∀ before, m.lowerAfter before s = s.map lowerPlain from from_ []
  induction s with
  | nil => exact fun _ => rfl
  | cons char after ih =>
    intro before
    have rest := ih fun c member => plain c (List.mem_cons_of_mem _ member)
    rw [lowerAfter, rest, List.map_cons]
    rcases plain char List.mem_cons_self with ascii | rfl
    · have other : char ≠ kelvin := by
        unfold kelvin
        omega
      rw [m.lower_ascii before char after ascii, lowerPlain, if_neg other]
      rfl
    · rw [m.lower_kelvin, lowerPlain, if_pos rfl]
      rfl

theorem toUpperCase_plain (plain : Plain s) : m.toUpperCase s = s.map upperPlain := by
  induction s with
  | nil => rfl
  | cons char after ih =>
    have rest := ih fun c member => plain c (List.mem_cons_of_mem _ member)
    unfold toUpperCase at rest ⊢
    rw [List.flatMap_cons, rest, List.map_cons]
    rcases plain char List.mem_cons_self with ascii | rfl
    · have other : char ≠ kelvin := by
        unfold kelvin
        omega
      rw [m.upper_ascii char ascii, upperPlain, if_neg other]
      rfl
    · rw [m.upper_kelvin, upperPlain, if_pos rfl]
      rfl

theorem plain_of_lower (ascii : ∀ char ∈ m.toLowerCase s, char < 0x80) : Plain s := by
  suffices from_ : ∀ before, (∀ char ∈ m.lowerAfter before s, char < 0x80) → Plain s from from_ [] ascii
  clear ascii
  induction s with
  | nil => exact fun _ _ => List.forall_mem_nil _
  | cons char after ih =>
    intro before ascii
    rw [lowerAfter, List.forall_mem_append] at ascii
    intro c member
    rcases List.mem_cons.mp member with rfl | later
    · by_contra neither
      rw [not_or, Nat.not_lt] at neither
      obtain ⟨d, given, high⟩ := m.lower_other before c after neither.1 neither.2
      exact absurd (ascii.1 d given) (Nat.not_lt.mpr high)
    · exact ih _ ascii.2 c later

end CaseMapping

end Casing

end CodePoints
