/-
  Wireform text: how much two texts have in common. The longest run that both share is taken out,
  and what stands before it and behind it is compared in the same way.
-/

namespace Wireform.Text

/-- How many characters two texts share from their start. -/
def sharedStart : List Char → List Char → Nat
  | a :: r, b :: s => if a = b then sharedStart r s + 1 else 0
  | _, _ => 0

/-- A run that two texts share: where it starts in each, and its length. -/
structure SharedRun where
  left : Nat
  right : Nat
  length : Nat

/-- The longest shared run; of several the first one in `a` and then in `b`. -/
def longestRun (a b : List Char) : SharedRun :=
  let runs := (List.range a.length).flatMap fun i => (List.range b.length).map fun j =>
    (⟨i, j, sharedStart (a.drop i) (b.drop j)⟩ : SharedRun)
  runs.foldl (fun best r => if best.length < r.length then r else best) ⟨0, 0, 0⟩

/-- How many characters of two texts stand in shared runs. The fuel is the length of `a`. -/
def sharedWithin : Nat → List Char → List Char → Nat
  | 0, _, _ => 0
  | fuel + 1, a, b =>
    let r := longestRun a b
    if r.length = 0 then 0
    else r.length + sharedWithin fuel (a.take r.left) (b.take r.right) +
      sharedWithin fuel (a.drop (r.left + r.length)) (b.drop (r.right + r.length))

/-- How much two texts have in common: the shared characters of both, and all of them. -/
def likeness (a b : String) : Nat × Nat :=
  (2 * sharedWithin a.length a.toList b.toList, a.length + b.length)

/-- Whether three fifths of two texts are shared. -/
def isAlike (a b : String) : Bool := 3 * (likeness a b).2 ≤ 5 * (likeness a b).1

/-- The texts that are like `s`, at most three, in alphabetical order. -/
def alikeTexts (s : String) (ts : List String) : List String :=
  let score (t : String) : Nat × Nat := likeness t s
  let better (t u : String) : Bool :=
    let x := (score t).1 * (score u).2
    let y := (score u).1 * (score t).2
    y < x || (x = y && u < t)
  (((ts.filter (isAlike · s)).mergeSort fun t u => !better u t).take 3).mergeSort fun t u =>
    !(u < t)

end Wireform.Text
