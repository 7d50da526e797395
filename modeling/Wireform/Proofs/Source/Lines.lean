import Wireform.Proofs.Source.Reading
import Wireform.Proofs.Text.Pieces
import Wireform.Source.Module

/-
  Wireform source text: lines of a module, piece by piece. A piece is code or a literal. The lines
  of the head, of the classes and in the bodies of functions stand in the text of the module on
  lines of their own.
-/

namespace Wireform.Source

/-! ## Pieces -/

/-- A piece of a line. -/
inductive Piece where
  | code (s : String)
  | literal (x : Quotation)

@[simp] def Piece.text : Piece → String
  | code s => s
  | literal x => x.literal

namespace Line

/-- What the pieces of a line say together. -/
def text (l : List Piece) : String := (l.map Piece.text).foldr (· ++ ·) ""

/-- The pieces of several texts with commas between them. -/
def separated : List (List Piece) → List Piece
  | [] => []
  | [l] => l
  | l :: ls => l ++ .code ", " :: separated ls

/-- The pieces of a tuple. -/
def tuple (ls : List (List Piece)) : List Piece :=
  .code "(" :: separated ls ++ [.code (if ls.length = 1 then ",)" else ")")]

/-- The pieces of a tuple of texts. -/
def texts (ts : List String) : List Piece := tuple (ts.map fun t => [.literal (.quoted t)])

@[simp] theorem text_nil : text [] = "" := rfl

@[simp] theorem text_cons (p : Piece) (l : List Piece) : text (p :: l) = p.text ++ text l := rfl

theorem text_append (l l' : List Piece) : text (l ++ l') = text l ++ text l' := by
  induction l with
  | nil => exact String.empty_append.symm
  | cons p l ih => rw [List.cons_append, text_cons, text_cons, ih, String.append_assoc]

theorem text_singleton (p : Piece) : text [p] = p.text := String.append_empty

theorem text_separated (ls : List (List Piece)) :
    text (separated ls) = ", ".intercalate (ls.map text) := by
  induction ls with
  | nil => rfl
  | cons l ls ih =>
    cases ls with
    | nil => exact String.intercalate_singleton.symm
    | cons l' ls =>
      rw [separated, text_append, text_cons, ih, ← String.append_assoc]
      · simp only [List.map_cons]
        exact String.intercalate_cons_cons.symm
      · exact nofun

theorem text_tuple (ls : List (List Piece)) : text (tuple ls) = Text.tuple (ls.map text) := by
  unfold tuple
  rw [List.cons_append, text_cons, text_append, text_singleton, text_separated]
  match ls with
  | [] => rfl
  | [l] =>
    rw [List.map_singleton, String.intercalate_singleton]
    exact (String.append_assoc).symm
  | l :: l' :: ls =>
    rw [if_neg (by simp)]
    exact (String.append_assoc).symm

theorem text_texts (ts : List String) : text (texts ts) = textsLiteral ts := by
  unfold texts textsLiteral
  rw [text_tuple, List.map_map]
  exact congrArg _ (List.map_congr_left fun t _ => text_singleton _)

theorem text_around (before after : String) (ts : List String) :
    text (.code before :: texts ts ++ [.code after]) = before ++ textsLiteral ts ++ after := by
  rw [List.cons_append, text_cons, text_append, text_texts, text_singleton, ← String.append_assoc]
  rfl

end Line

/-! ## Literals in their lines -/

/-- Code that starts with no quote mark. -/
def Piece.isOpen : Piece → Bool
  | code s => s.toList.head?.any fun c => c ≠ '\'' && c ≠ '"'
  | literal _ => false

theorem Piece.isOpen_append {s : String} (t : String) (h : (code s).isOpen = true) :
    (code (s ++ t)).isOpen = true := by
  unfold isOpen at h ⊢
  dsimp only at h ⊢
  rw [String.toList_append]
  cases hs : s.toList with
  | nil =>
    rw [hs] at h
    cases h
  | cons c r =>
    rw [hs] at h
    exact h

namespace Line

/-- A line goes on with such code, or is over. -/
def Opens (l : List Piece) : Prop := ∀ p ∈ l.head?, p.isOpen = true

/-- No literal of a line has a quote mark behind it. -/
def Apart : List Piece → Prop
  | [] => True
  | .code _ :: l => Apart l
  | .literal _ :: l => Opens l ∧ Apart l

theorem opens_cons {p : Piece} (l : List Piece) (h : p.isOpen = true) : Opens (p :: l) :=
  fun _ hp => Option.some.inj hp ▸ h

theorem opens_nil : Opens [] := fun _ hp => (Option.some_ne_none _ hp.symm).elim

theorem apart_code {l : List Piece} (s : String) (h : Apart l) : Apart (.code s :: l) := h

theorem opens_of_apart {front back : List Piece} {x : Quotation}
    (h : Apart (front ++ .literal x :: back)) : Opens back := by
  induction front with
  | nil => exact h.1
  | cons p front ih =>
    cases p with
    | code s => exact ih h
    | literal y => exact ih h.2

/-- What follows a literal in a line, and the end of the line, starts with no quote mark. -/
theorem head?_of_opens {l : List Piece} (h : Opens l) (rest : List Char) :
    ((text l).toList ++ '\n' :: rest).head? ≠ some '\'' ∧
      ((text l).toList ++ '\n' :: rest).head? ≠ some '"' := by
  cases l with
  | nil => exact ⟨by simp [text], by simp [text]⟩
  | cons p l =>
    have hopen := h p rfl
    cases p with
    | literal x => cases hopen
    | code s =>
      unfold Piece.isOpen at hopen
      dsimp only at hopen
      rw [text_cons, String.toList_append, Piece.text]
      cases hs : s.toList with
      | nil =>
        rw [hs] at hopen
        cases hopen
      | cons c r =>
        rw [hs] at hopen
        simp only [List.head?_cons, Option.any_some, ne_eq, Bool.and_eq_true,
          decide_eq_true_eq] at hopen
        exact ⟨fun heq => hopen.1 (Option.some.inj heq), fun heq => hopen.2 (Option.some.inj heq)⟩

/-- A line can be put in front of every line that starts with code. -/
def Leads (l : List Piece) : Prop := ∀ back, Opens back → Apart back → Apart (l ++ back)

theorem apart_of_leads {l : List Piece} (h : Leads l) : Apart l := by
  have hline := h [] opens_nil trivial
  rwa [List.append_nil] at hline

theorem leads_code (s : String) : Leads [.code s] := fun _ _ h => h

theorem leads_literal (x : Quotation) : Leads [.literal x] := fun _ hopens h => ⟨hopens, h⟩

theorem leads_separated {ls : List (List Piece)} (h : ∀ l ∈ ls, Leads l) :
    Leads (separated ls) := by
  induction ls with
  | nil => exact fun _ _ hback => hback
  | cons l ls ih =>
    cases ls with
    | nil => exact h l List.mem_cons_self
    | cons l' ls =>
      intro back hopens hback
      have hrest := ih (fun l hl => h l (List.mem_cons_of_mem _ hl)) back hopens hback
      rw [separated, List.append_assoc]
      · exact h l List.mem_cons_self _ (opens_cons _ (by decide)) hrest
      · exact nofun

theorem leads_tuple {ls : List (List Piece)} (h : ∀ l ∈ ls, Leads l) : Leads (tuple ls) := by
  intro back _ hback
  have hopens : Opens (.code (if ls.length = 1 then ",)" else ")") :: back) := by
    refine opens_cons _ ?_
    split <;> decide
  unfold tuple
  rw [List.cons_append, List.cons_append, List.append_assoc]
  exact leads_separated h _ hopens hback

theorem leads_texts (ts : List String) : Leads (texts ts) := by
  refine leads_tuple fun l hl => ?_
  obtain ⟨t, -, rfl⟩ := List.mem_map.mp hl
  exact leads_literal _

end Line

/-! ## Lines of a text -/

/-- A text stands in another one on lines of its own. -/
def StandsIn (t whole : String) : Prop :=
  ('\n' :: t.toList ++ ['\n']) <:+: ('\n' :: whole.toList ++ ['\n'])

theorem StandsIn.trans {t t' whole : String} (h : StandsIn t t') (h' : StandsIn t' whole) :
    StandsIn t whole := List.IsInfix.trans h h'

theorem infix_join {p : List Char} {ps : List (List Char)} (h : p ∈ ps) :
    ('\n' :: p ++ ['\n']) <:+: ('\n' :: Text.join '\n' ps ++ ['\n']) := by
  induction ps with
  | nil => cases h
  | cons p' ps ih =>
    cases ps with
    | nil =>
      rw [List.mem_singleton.mp h]
      exact List.infix_refl _
    | cons q r =>
      have hjoin : '\n' :: Text.join '\n' (p' :: q :: r) ++ ['\n'] =
          '\n' :: p' ++ ('\n' :: Text.join '\n' (q :: r) ++ ['\n']) := by
        simp [Text.join]
      rw [hjoin]
      rcases List.mem_cons.mp h with rfl | h
      · refine ⟨[], Text.join '\n' (q :: r) ++ ['\n'], ?_⟩
        simp
      · exact (ih h).trans (List.suffix_append _ _).isInfix

/-- Lines stand in their text. -/
theorem standsIn_of_mem {l : String} {ls : List String} (h : l ∈ ls) :
    StandsIn l ("\n".intercalate ls) := by
  have hlist : ("\n".intercalate ls).toList = Text.join '\n' (ls.map String.toList) :=
    Text.toList_intercalate_singleton '\n' ls
  unfold StandsIn
  rw [hlist]
  exact infix_join (List.mem_map_of_mem h)

theorem standsIn_module {m : Module} {l : String} (h : l ∈ m.lines) : StandsIn l m.text := by
  refine (standsIn_of_mem h).trans ⟨[], ['\n'], ?_⟩
  unfold Module.text
  rw [String.toList_append]
  simp

/-! ## Lines of a module -/

section

variable {m : Module} {l : String}

theorem standsIn_head (h : l ∈ m.headLines) : StandsIn l m.text := by
  refine standsIn_module ?_
  unfold Module.lines
  simp only [List.mem_append]
  exact Or.inl (Or.inl (Or.inl (Or.inl h)))

theorem standsIn_enum {e : EnumClass} (he : e ∈ m.enums) (h : l ∈ e.lines) :
    StandsIn l m.text := by
  refine standsIn_module ?_
  unfold Module.lines
  simp only [List.mem_append]
  exact Or.inl (Or.inl (Or.inl (Or.inr (List.mem_flatMap.mpr ⟨e, he, h⟩))))

theorem standsIn_class {c : DataClass} (hc : c ∈ m.classes) (h : l ∈ c.lines) :
    StandsIn l m.text := by
  refine standsIn_module ?_
  unfold Module.lines
  simp only [List.mem_append]
  exact Or.inl (Or.inl (Or.inr (List.mem_flatMap.mpr ⟨c, hc, h⟩)))

theorem standsIn_uri (h : l ∈ m.uris) : StandsIn l m.text := by
  refine standsIn_module ?_
  unfold Module.lines
  simp only [List.mem_append]
  exact Or.inl (Or.inr h)

/-- A line of a function's body stands there indented. -/
theorem standsIn_body {d : Definition} (hd : d ∈ m.functions) (h : l ∈ d.body) (hne : l ≠ "") :
    StandsIn (indent l) m.text := by
  have hline : indent l ∈ d.lines :=
    List.mem_cons_of_mem _ (List.mem_map.mpr ⟨l, h, if_neg hne⟩)
  refine (standsIn_of_mem hline).trans (standsIn_module ?_)
  unfold Module.lines
  simp only [List.mem_append]
  exact Or.inr (List.mem_map_of_mem hd)

end

end Wireform.Source
