import Mathlib.Data.List.Forall2
import PortableSql.Text.Letters

/-!
# Equal up to letter case

Two texts are equal up to the case of ASCII letters if their characters are, one by one. Names are compared in
their folded form, which comes to the same (`foldCase_eq_iff`); characters outside ASCII are only equal to
themselves.
-/
namespace PortableSql.Text

/-- A capital letter of the ASCII alphabet with its small letter. -/
def IsCapitalOf (capital small : Char) : Prop :=
  65 ≤ capital.toNat ∧ capital.toNat ≤ 90 ∧ small.toNat = capital.toNat + 32

/-- Two characters are equal, or one letter in both cases. -/
def SameLetter (c d : Char) : Prop :=
  c = d ∨ IsCapitalOf c d ∨ IsCapitalOf d c

/-- Two texts differ at most in the case of ASCII letters. -/
def SameUpToCase (s t : String) : Prop :=
  List.Forall₂ SameLetter s.toList t.toList

theorem toNat_toLower (c : Char) :
    c.toLower.toNat = if 65 ≤ c.toNat ∧ c.toNat ≤ 90 then c.toNat + 32 else c.toNat := by
  have capital : (c.val ≥ 'A'.val ∧ c.val ≤ 'Z'.val) ↔ 65 ≤ c.toNat ∧ c.toNat ≤ 90 := Iff.rfl
  unfold Char.toLower
  split
  · rename_i inside
    have bounds := capital.1 inside
    have step : (c.val + ('a'.val - 'A'.val)).toNat = (c.toNat + 32) % 2 ^ 32 := UInt32.toNat_add ..
    rw [if_pos bounds]
    show (c.val + ('a'.val - 'A'.val)).toNat = _
    rw [step]
    omega
  · rename_i outside
    rw [if_neg fun bounds => outside (capital.2 bounds)]

theorem toLower_eq_iff {c d : Char} : c.toLower = d.toLower ↔ SameLetter c d := by
  have same (a b : Char) : a = b ↔ a.toNat = b.toNat := Char.toNat_inj.symm
  simp only [SameLetter, IsCapitalOf, same, toNat_toLower]
  split_ifs <;> omega

/-- Folding takes exactly the texts together that differ at most in letter case. -/
theorem foldCase_eq_iff {s t : String} : foldCase s = foldCase t ↔ SameUpToCase s t := by
  have letters : SameLetter = fun c d : Char => c.toLower = d.toLower := by
    funext c d
    exact propext toLower_eq_iff.symm
  rw [foldCase, foldCase, String.ofList_inj, ← List.forall₂_eq_eq_eq, List.forall₂_map_left_iff,
    List.forall₂_map_right_iff, SameUpToCase, letters]

theorem SameLetter.utf8Size_eq {c d : Char} (same : SameLetter c d) : c.utf8Size = d.utf8Size := by
  have single {c : Char} (low : c.toNat ≤ 127) : c.utf8Size = 1 := Char.utf8Size_eq_one_iff.2 low
  rcases same with rfl | ⟨_, _, _⟩ | ⟨_, _, _⟩
  · rfl
  · rw [single (by omega), single (by omega)]
  · rw [single (by omega), single (by omega)]

/-- Both cases of a letter take as many bytes. -/
theorem byteLength_eq_of_sameLetters {text other : List Char} (same : List.Forall₂ SameLetter text other) :
    byteLength text = byteLength other := by
  induction same with
  | nil => rfl
  | cons first _ ih => rw [byteLength, byteLength, first.utf8Size_eq, ih]

end PortableSql.Text
