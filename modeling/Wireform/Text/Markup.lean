import Wireform.Text.Blank
import Wireform.Text.Case

/-
  Wireform text: texts with marks in square brackets. A mark opens a style, `[/style]` ends the
  latest open style of that name and `[/]` the latest one of all; a backslash makes a mark plain
  text. There must be a style that a mark can end.
-/

namespace Wireform.Text.Markup

/-! ## Marks -/

/-- Whether a mark may start with this character. -/
def startsMark (c : Char) : Bool := isLowerAscii c || c = '#' || c = '/' || c = '@'

/-- The inside of the mark that a text starts with, and what follows the mark. -/
def mark? : List Char → Option (List Char × List Char)
  | '[' :: c :: r =>
    let inside := r.takeWhile fun x => x ≠ ']' && x ≠ '['
    match r.drop inside.length with
    | ']' :: rest => if startsMark c then some (c :: inside, rest) else none
    | _ => none
  | _ => none

/-- The short words for styles. -/
def longWords : List (String × String) := [("d", "dim"), ("b", "bold"), ("i", "italic"),
  ("u", "underline"), ("r", "reverse"), ("c", "conceal"), ("s", "strike"), ("uu", "underline2"),
  ("o", "overline")]

/-- The name under which a style is open: its words in small letters, none of them short. -/
def styleName (s : List Char) : List String :=
  (words isBlank (lower s)).map fun w => (longWords.lookup (String.ofList w)).getD (String.ofList w)

/-- Why a text with marks has no meaning; the position is that of the mark. -/
inductive Fault where
  | unmatched (inside : String) (position : Nat)
  | nothingOpen (position : Nat)
  deriving DecidableEq, Repr

def Fault.message : Fault → String
  | unmatched inside position =>
    "closing tag '[" ++ inside ++ "]' at position " ++ toString position ++
      " doesn't match any open tag"
  | nothingOpen position =>
    "closing tag '[/]' at position " ++ toString position ++ " has nothing to close"

/-- The styles that are open after a mark, which must not end a style that is not open. What stands
behind an equals sign does not belong to the name. -/
def after (inside : List Char) (position : Nat) (styles : List (List String)) :
    Except Fault (List (List String)) :=
  match (cut '=' inside).1 with
  | '/' :: s =>
    if styleName s = [] then
      if styles = [] then .error (.nothingOpen position) else .ok styles.tail
    else if styles.contains (styleName s) then .ok (styles.erase (styleName s))
    else .error (.unmatched (String.ofList inside) position)
  | s => .ok (styleName s :: styles)

/-! ## Texts -/

/-- The text without its marks from a position on, where some styles are open. Of the backslashes
before a mark each two stand for one, and an odd one keeps the mark; before any other bracket one is
dropped. The fuel is the length of the text. -/
def unmark : Nat → Nat → List (List String) → List Char → Except Fault (List Char)
  | 0, _, _, _ => .ok []
  | fuel + 1, position, styles, s => do
    let bars := s.takeWhile (· = '\\')
    let rest := s.drop bars.length
    let place := position + bars.length
    match mark? rest, rest with
    | some (inside, behind), _ =>
      let half := bars.take (bars.length / 2)
      let next := place + inside.length + 2
      if bars.length % 2 = 1 then
        return half ++ '[' :: inside ++ ']' :: (← unmark fuel next styles behind)
      else
        let now ← after inside place styles
        return half ++ (← unmark fuel next now behind)
    | none, '[' :: r => return bars.dropLast ++ '[' :: (← unmark fuel (place + 1) styles r)
    | none, c :: r => return bars ++ c :: (← unmark fuel (place + 1) styles r)
    | none, [] => return bars

/-- The characters that a terminal does not show. -/
def isUnseen (c : Char) : Bool :=
  [7, 8, 11, 12, 13].contains c.toNat

/-- A marked-up text as it is shown. -/
def shown (s : String) : Except Fault String := do
  let t ← unmark (s.length + 1) 0 [] s.toList
  return String.ofList (t.filter (! isUnseen ·))

end Wireform.Text.Markup
