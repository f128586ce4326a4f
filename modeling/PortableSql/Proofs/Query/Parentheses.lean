import Mathlib.Data.List.Induction
import PortableSql.Proofs.Query.Pieces
import PortableSql.Query.Calls

/-!
# Partners of parentheses

A parenthesis that opens and one that closes are partners where the tokens between them balance.
Parentheses balance exactly if each of them has a partner (`balanced_iff`). Who reads tokens from left to
right knows which parentheses are still open (`LeavesOpen`); each token changes that in one way, unless it
closes a parenthesis that is not open (`LeavesOpen.step`).
-/
namespace PortableSql.Query

/-- A parenthesis that closes behind these tokens closes one that is open. -/
def IsOpened (front : List Token) : Prop :=
  ∃ outer inner, front = outer ++ .opening :: inner ∧ Balanced inner

/-- A parenthesis that opens in front of these tokens is closed by one of them. -/
def IsClosed (behind : List Token) : Prop :=
  ∃ inner outer, behind = inner ++ .closing :: outer ∧ Balanced inner

/-- No parenthesis closes that is not open. -/
def ClosesOpened (tokens : List Token) : Prop :=
  ∀ front behind, tokens = front ++ .closing :: behind → IsOpened front

/-- No parenthesis opens that is never closed. -/
def OpensClosed (tokens : List Token) : Prop :=
  ∀ front behind, tokens = front ++ .opening :: behind → IsClosed behind

/-- The tokens in front of each parenthesis that is left open, the innermost first. -/
inductive LeavesOpen : List Token → List (List Token) → Prop
  | nothing {tokens : List Token} (balanced : Balanced tokens) : LeavesOpen tokens []
  | opening {front inner : List Token} {opened : List (List Token)}
      (outer : LeavesOpen front opened) (balanced : Balanced inner) :
      LeavesOpen (front ++ .opening :: inner) (front :: opened)

variable {front behind tokens : List Token} {opened : List (List Token)}

theorem IsOpened.extend (outer : List Token) (isOpened : IsOpened front) :
    IsOpened (outer ++ front) := by
  obtain ⟨further, inner, rfl, balanced⟩ := isOpened
  exact ⟨outer ++ further, inner, by simp, balanced⟩

theorem IsClosed.extend (outer : List Token) (isClosed : IsClosed behind) :
    IsClosed (behind ++ outer) := by
  obtain ⟨inner, further, rfl, balanced⟩ := isClosed
  exact ⟨inner, further ++ outer, by simp, balanced⟩

/-! ## Balanced tokens -/

/-- A token of a list that is put together stands at the seam, in front of it or behind it. -/
theorem split_at_seam {inner outer : List Token} {seam token : Token}
    (same : inner ++ seam :: outer = front ++ token :: behind) :
    (front = inner ∧ token = seam ∧ behind = outer) ∨
      (∃ middle, inner = front ++ token :: middle ∧ behind = middle ++ seam :: outer) ∨
      ∃ middle, front = inner ++ seam :: middle ∧ outer = middle ++ token :: behind := by
  rcases List.append_eq_append_iff.1 same with ⟨middle, whole, same⟩ | ⟨middle, whole, same⟩
  · cases middle with
    | nil =>
      obtain ⟨rfl, rfl⟩ := List.cons.inj same
      exact .inl ⟨by simpa using whole, rfl, rfl⟩
    | cons first middle =>
      exact .inr (.inr ⟨middle, (List.cons.inj same).1 ▸ whole, (List.cons.inj same).2⟩)
  · cases middle with
    | nil =>
      obtain ⟨rfl, rfl⟩ := List.cons.inj same
      exact .inl ⟨by simpa using whole.symm, rfl, rfl⟩
    | cons first middle =>
      exact .inr (.inl ⟨middle, (List.cons.inj same).1 ▸ whole, (List.cons.inj same).2⟩)

namespace Balanced

theorem closesOpened (balanced : Balanced tokens) : ClosesOpened tokens := by
  induction balanced with
  | nil =>
    intro front behind same
    simp at same
  | @other token tokens _ notClosing _ ih =>
    intro front behind same
    cases front with
    | nil => exact absurd (List.cons.inj same).1 notClosing
    | cons first front => exact (ih front behind (List.cons.inj same).2).extend [first]
  | @group inner tokens inside _ ihInside ih =>
    intro front behind same
    cases front with
    | nil => cases (List.cons.inj same).1
    | cons first front =>
      obtain ⟨rfl, behindOpening⟩ := List.cons.inj same
      -- the parenthesis closes the group, or it stands in the group, or behind it
      rcases split_at_seam behindOpening with
        ⟨rfl, _⟩ | ⟨middle, shape, _⟩ | ⟨middle, rfl, shape⟩
      · exact ⟨[], front, rfl, inside⟩
      · exact (ihInside front middle shape).extend [.opening]
      · have later := (ih middle behind shape).extend (.opening :: (inner ++ [.closing]))
        simpa using later

theorem opensClosed (balanced : Balanced tokens) : OpensClosed tokens := by
  induction balanced with
  | nil =>
    intro front behind same
    simp at same
  | @other token tokens notOpening _ _ ih =>
    intro front behind same
    cases front with
    | nil => exact absurd (List.cons.inj same).1 notOpening
    | cons first front => exact ih front behind (List.cons.inj same).2
  | @group inner tokens inside _ ihInside ih =>
    intro front behind same
    cases front with
    | nil =>
      obtain ⟨_, rfl⟩ := List.cons.inj same
      exact ⟨inner, tokens, rfl, inside⟩
    | cons first front =>
      rcases split_at_seam (List.cons.inj same).2 with
        ⟨_, different, _⟩ | ⟨middle, shape, rfl⟩ | ⟨middle, _, shape⟩
      · cases different
      · exact (ihInside front middle shape).extend (.closing :: tokens)
      · exact ih middle behind shape

theorem not_isClosed (balanced : Balanced behind) : ¬ IsClosed behind := by
  rintro ⟨inner, outer, rfl, inside⟩
  exact inside.not_closing balanced

theorem not_isOpened (balanced : Balanced front) : ¬ IsOpened front := by
  rintro ⟨outer, inner, rfl, inside⟩
  exact inside.not_isClosed (balanced.opensClosed outer inner rfl)

end Balanced

/-! ## Tokens from left to right -/

namespace LeavesOpen

theorem append (leaves : LeavesOpen front opened) (balanced : Balanced behind) :
    LeavesOpen (front ++ behind) opened := by
  cases leaves with
  | nothing before => exact .nothing (before.append balanced)
  | opening outer inside =>
    rw [List.append_assoc, List.cons_append]
    exact .opening outer (inside.append balanced)

/-- A parenthesis that closes is the partner of the last one that was left open. -/
theorem closing (leaves : LeavesOpen front (behind :: opened)) :
    LeavesOpen (front ++ [.closing]) opened := by
  cases leaves with
  | opening outer inside =>
    rw [List.append_assoc]
    exact outer.append (.group inside .nil)

theorem isOpened (leaves : LeavesOpen front (behind :: opened)) : IsOpened front := by
  cases leaves with
  | @opening _ inner _ _ inside => exact ⟨behind, inner, rfl, inside⟩

end LeavesOpen

theorem ClosesOpened.of_append (closes : ClosesOpened (front ++ behind)) : ClosesOpened front := by
  rintro outer inner rfl
  exact closes outer (inner ++ behind) (by simp)

theorem ClosesOpened.concat {token : Token} (closes : ClosesOpened front)
    (last : token = .closing → IsOpened front) : ClosesOpened (front ++ [token]) := by
  intro outer inner same
  rcases List.eq_nil_or_concat inner with rfl | ⟨inner, other, rfl⟩
  · obtain ⟨rfl, closing⟩ := List.append_inj' same rfl
    exact last (List.cons.inj closing).1
  · rw [List.concat_eq_append, ← List.cons_append, ← List.append_assoc] at same
    obtain ⟨rfl, _⟩ := List.append_inj' same rfl
    exact closes outer inner rfl

theorem openedBehind?_of_ne {opened : List Fragment} {here : Fragment} {token : Token}
    (notOpening : token ≠ .opening) (notClosing : token ≠ .closing) :
    openedBehind? opened here token = some opened := by
  unfold openedBehind?
  split <;> simp_all

/-- One more token: it closes a parenthesis that is not open, or it is known which ones are open behind
it. `place` is what a reader keeps of a parenthesis. -/
theorem LeavesOpen.step (leaves : LeavesOpen front opened) (closes : ClosesOpened front)
    (place : List Token → Fragment) (token : Token) :
    (token = .closing ∧ ¬ IsOpened front ∧
        openedBehind? (opened.map place) (place front) token = none) ∨
      ∃ after, openedBehind? (opened.map place) (place front) token = some (after.map place) ∧
        LeavesOpen (front ++ [token]) after ∧ ClosesOpened (front ++ [token]) := by
  by_cases opens : token = .opening
  · subst opens
    exact .inr ⟨front :: opened, rfl, .opening leaves .nil, closes.concat nofun⟩
  · by_cases shuts : token = .closing
    · subst shuts
      cases opened with
      | nil =>
        cases leaves with
        | nothing balanced => exact .inl ⟨rfl, balanced.not_isOpened, rfl⟩
      | cons last opened =>
        exact .inr ⟨opened, rfl, leaves.closing, closes.concat fun _ => leaves.isOpened⟩
    · exact .inr ⟨opened, openedBehind?_of_ne opens shuts, leaves.append (.other opens shuts .nil),
        closes.concat fun same => absurd same shuts⟩

theorem exists_leavesOpen (closes : ClosesOpened tokens) : ∃ opened, LeavesOpen tokens opened := by
  induction tokens using List.reverseRecOn with
  | nil => exact ⟨[], .nothing .nil⟩
  | append_singleton tokens token ih =>
    have before := closes.of_append
    obtain ⟨opened, leaves⟩ := ih before
    rcases leaves.step before (fun _ => ⟨0, []⟩) token with
      ⟨rfl, unopened, _⟩ | ⟨after, _, leaves, _⟩
    · exact absurd (closes tokens [] rfl) unopened
    · exact ⟨after, leaves⟩

/-- Parentheses balance where each of them has a partner. -/
theorem balanced_iff : Balanced tokens ↔ ClosesOpened tokens ∧ OpensClosed tokens := by
  constructor
  · intro balanced
    exact ⟨balanced.closesOpened, balanced.opensClosed⟩
  · rintro ⟨closes, opens⟩
    obtain ⟨opened, leaves⟩ := exists_leavesOpen closes
    cases leaves with
    | nothing balanced => exact balanced
    | opening _ inside => exact absurd (opens _ _ rfl) inside.not_isClosed

end PortableSql.Query
