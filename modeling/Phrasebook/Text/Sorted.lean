/-!
Sorting by insertion; elements that are equal in the order keep their places.
-/
namespace Phrasebook.Text

variable {α : Type}

def insertSorted (le : α → α → Bool) (a : α) : List α → List α
  | [] => [a]
  | b :: bs => if le a b then a :: b :: bs else b :: insertSorted le a bs

def sortBy (le : α → α → Bool) (as : List α) : List α := as.foldr (insertSorted le) []

theorem insertSorted_perm (le : α → α → Bool) (a : α) (bs : List α) :
    (insertSorted le a bs).Perm (a :: bs) := by
  induction bs with
  | nil => simp [insertSorted]
  | cons b bs ih =>
    unfold insertSorted
    split
    · exact List.Perm.refl _
    · exact (List.Perm.cons b ih).trans (List.Perm.swap a b bs)

theorem sortBy_perm (le : α → α → Bool) (as : List α) : (sortBy le as).Perm as := by
  induction as with
  | nil => exact List.Perm.refl _
  | cons a as ih => exact (insertSorted_perm le a _).trans (List.Perm.cons a ih)

/-- Stores a value under its key among pairs in increasing order of their keys, instead of one that
is there already. -/
def putKey (key : String) (value : α) : List (String × α) → List (String × α)
  | [] => [(key, value)]
  | (k, v) :: rest =>
    if key < k then (key, value) :: (k, v) :: rest
    else if key == k then (key, value) :: rest
    else (k, v) :: putKey key value rest

/-- Pairs in increasing order of their keys, the last of each key. -/
def sortKeys (pairs : List (String × α)) : List (String × α) :=
  pairs.foldl (fun sorted (key, value) => putKey key value sorted) []

/-- Texts in increasing order of their code points. -/
def sortTexts (texts : List String) : List String := sortBy (fun a b => decide (a ≤ b)) texts

end Phrasebook.Text
