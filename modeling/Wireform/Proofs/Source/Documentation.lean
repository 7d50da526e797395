import Mathlib.Data.List.DropRight
import Wireform.Proofs.Source.ClassNames
import Wireform.Proofs.Source.Quoting
import Wireform.Proofs.Text.Words

/-
  Wireform source text: how documentation is read. It stands between three double quotes, on one
  line, with three single quotes in place of each three double quotes and every backslash twice. So
  nothing in it opens an escape, and nothing in it ends the literal early, unless double quotes are
  left at its end: these meet the closing ones. `documentation_reads_iff` says what is read in every
  case, and that it is the whole documentation exactly if no double quotes are left there.
-/

namespace Wireform

namespace Source

/-! ## Long literals -/

section

variable (names : List Char → Option Nat) (q : Char)

/-- Reads up to three closing quotes `q` in a row, which end the text: the code points, and the text
behind the quotes. A line break is part of the text, and is one line feed in each of its forms. -/
def readLong : List Char → Option (List Nat × List Char)
  | [] => none
  | c :: r =>
    if c = q && r.take 2 = [q, q] then some ([], r.drop 2)
    else if c = '\x00' then none
    else if c = '\\' then
      match h : readEscape names r with
      | none => none
      | some (codes, t) =>
        have := length_lt_of_readEscape names h
        (readLong t).map fun (v, u) => (codes ++ v, u)
    else if c = '\r' && r.head? = some '\n' then
      (readLong r.tail).map fun (v, u) => (0x0a :: v, u)
    else (readLong r).map fun (v, u) => ((if c = '\r' then 0x0a else c.toNat) :: v, u)
termination_by s => s.length
decreasing_by
  · exact this
  · rw [List.length_tail, List.length_cons]
    omega
  · exact Nat.lt_succ_self _

/-- Reads a literal between three quotes, and leaves what stands behind it. -/
def readTriple : List Char → Option (List Nat × List Char)
  | [] => none
  | c :: r =>
    if (c = '\'' || c = '"') && r.take 2 = [c, c] then readLong names c (r.drop 2) else none

variable {names q}

theorem readLong_close (r : List Char) : readLong names q (q :: q :: q :: r) = some ([], r) := by
  rw [readLong, if_pos (by simp)]
  rfl

theorem readLong_null {r : List Char} (hq : q ≠ '\x00') : readLong names q ('\x00' :: r) = none := by
  rw [readLong, if_neg (by simp [hq.symm]), if_pos rfl]

theorem readLong_plain {c : Char} {r : List Char} (hclose : c = q → r.take 2 ≠ [q, q])
    (hc : c ∉ ['\x00', '\\', '\r']) : readLong names q (c :: r) =
      (readLong names q r).map fun (v, u) => (c.toNat :: v, u) := by
  simp only [List.mem_cons, List.not_mem_nil, or_false, not_or] at hc
  obtain ⟨hnull, hslash, hreturn⟩ := hc
  rw [readLong, if_neg (by simpa using hclose), if_neg hnull, if_neg hslash,
    if_neg (by simp [hreturn]), if_neg hreturn]

theorem readLong_backslash {r : List Char} (hq : q ≠ '\\') : readLong names q ('\\' :: '\\' :: r) =
    (readLong names q r).map fun (v, u) => (0x5c :: v, u) := by
  have hescape : readEscape names ('\\' :: r) = some ([0x5c], r) :=
    readEscape_letter names rfl r
  rw [readLong, if_neg (by simp [hq.symm]), if_neg (by decide), if_pos rfl]
  split
  · next hnone => rw [hescape] at hnone; cases hnone
  · next hsome =>
    rw [hescape] at hsome
    cases hsome
    rfl

end

/-! ## Quotes -/

/-- The three double quotes that open and close documentation. -/
def tripleQuote : List Char := ['"', '"', '"']

/-- The double quotes at the end of a text. -/
def closingQuotes (s : List Char) : Nat := (s.rtakeWhile (· = '"')).length

/-- The text in front of the double quotes at its end. -/
def withoutClosing (s : List Char) : List Char := s.rdropWhile (· = '"')

theorem withoutClosing_append (s : List Char) :
    withoutClosing s ++ List.replicate (closingQuotes s) '"' = s := by
  have hquotes : ∀ c ∈ s.rtakeWhile (· = '"'), c = '"' := by
    intro c hc
    have hquote := List.mem_rtakeWhile_imp hc
    exact of_decide_eq_true hquote
  have hall := List.eq_replicate_of_mem hquotes
  unfold closingQuotes withoutClosing
  rw [← hall, List.rdropWhile, List.rtakeWhile, ← List.reverse_append,
    List.takeWhile_append_dropWhile, List.reverse_reverse]

theorem getLast?_withoutClosing (s : List Char) : (withoutClosing s).getLast? ≠ some '"' := by
  intro h
  obtain ⟨hne, hlast⟩ := List.mem_getLast?_eq_getLast h
  have hnot := List.rdropWhile_last_not _ _ hne
  exact hnot (decide_eq_true hlast.symm)

theorem getLast?_tail {c : Char} {s : List Char} (h : (c :: s).getLast? ≠ some '"') :
    s.getLast? ≠ some '"' := by
  intro hs
  rw [List.getLast?_cons, hs] at h
  exact h rfl

theorem getLast?_cons_ne {c : Char} {s : List Char} (hc : s = [] → c ≠ '"')
    (hs : s.getLast? ≠ some '"') : (c :: s).getLast? ≠ some '"' := by
  cases s with
  | nil => simpa using hc rfl
  | cons d s => rwa [List.getLast?_cons_cons]

/-- There are no three double quotes in a row. -/
def IsSoft (s : List Char) : Prop := ¬ tripleQuote <:+: s

theorem isSoft_cons {c : Char} {s : List Char} :
    IsSoft (c :: s) ↔ ¬ tripleQuote <+: c :: s ∧ IsSoft s := by
  unfold IsSoft
  rw [List.infix_cons_iff, not_or]

theorem head?_doubleBackslashes (s : List Char) :
    (doubleBackslashes s).head? = s.head? := by
  cases s with
  | nil => rfl
  | cons c s =>
    unfold doubleBackslashes
    rw [List.flatMap_cons]
    split
    · next h => rw [h]; rfl
    · rfl

theorem doubleBackslashes_cons (c : Char) (s : List Char) : doubleBackslashes (c :: s) =
    (if c = '\\' then ['\\', '\\'] else [c]) ++ doubleBackslashes s := List.flatMap_cons

/-- Behind a double quote in a text without three in a row, which does not end with one, there are
no two more. -/
theorem take_two_doubled {s r : List Char} (hsoft : IsSoft ('"' :: s))
    (hlast : ('"' :: s).getLast? ≠ some '"') :
    (doubleBackslashes s ++ r).take 2 ≠ ['"', '"'] := by
  intro htake
  cases s with
  | nil => exact hlast rfl
  | cons c s =>
    rw [doubleBackslashes_cons] at htake
    split at htake
    · cases htake
    · rw [List.singleton_append, List.cons_append, List.take_succ_cons, List.cons.injEq] at htake
      obtain ⟨rfl, htake⟩ := htake
      cases s with
      | nil => exact hlast rfl
      | cons d s =>
        have hhead : (doubleBackslashes (d :: s) ++ r).head? = some d := by
          rw [List.head?_append, head?_doubleBackslashes]
          rfl
        have hd : d = '"' := by
          have hnext := congrArg List.head? htake
          rw [List.head?_take, hhead] at hnext
          exact Option.some.inj hnext
        exact (isSoft_cons.mp hsoft).1 ⟨s, by rw [hd]; rfl⟩

/-- A character is read as it is, unless it is a null character or begins the end. -/
theorem readLong_char {names : List Char → Option Nat} {c : Char} {r : List Char}
    (hclose : c = '"' → r.take 2 ≠ ['"', '"']) (hreturn : c ≠ '\r') :
    readLong names '"' ((if c = '\\' then ['\\', '\\'] else [c]) ++ r) =
      if c = '\x00' then none
      else (readLong names '"' r).map fun (v, u) => (c.toNat :: v, u) := by
  split
  · next hslash =>
    subst hslash
    exact readLong_backslash (by decide)
  · next hslash =>
    split
    · next hnull =>
      subst hnull
      exact readLong_null (by decide)
    · next hnull => exact readLong_plain hclose (by simp [hnull, hslash, hreturn])

/-- A text without three double quotes in a row is read as it is up to its end, if it does not end
with one, and unless it has a null character. -/
theorem readLong_doubled {names : List Char → Option Nat} {s : List Char} (hsoft : IsSoft s)
    (hlast : s.getLast? ≠ some '"') (hreturn : '\r' ∉ s) (r : List Char) :
    readLong names '"' (doubleBackslashes s ++ r) =
      if '\x00' ∈ s then none
      else (readLong names '"' r).map fun (v, u) => (codePoints s ++ v, u) := by
  induction s with
  | nil => simp [doubleBackslashes, codePoints]
  | cons c s ih =>
    have hclose : c = '"' → (doubleBackslashes s ++ r).take 2 ≠ ['"', '"'] := by
      rintro rfl
      exact take_two_doubled hsoft hlast
    obtain ⟨hc, hreturn⟩ := List.ne_and_not_mem_of_not_mem_cons hreturn
    rw [doubleBackslashes_cons, List.append_assoc, readLong_char hclose hc.symm,
      ih (isSoft_cons.mp hsoft).2 (getLast?_tail hlast) hreturn]
    by_cases hnull : c = '\x00'
    · rw [if_pos hnull, if_pos (hnull ▸ List.mem_cons_self)]
    · rw [if_neg hnull]
      by_cases hmem : '\x00' ∈ s
      · rw [if_pos hmem, if_pos (List.mem_cons_of_mem _ hmem)]
        rfl
      · rw [if_neg hmem, if_neg (by simp [hmem, Ne.symm hnull]), Option.map_map]
        rfl

/-- Of double quotes in front of the closing ones the first three are taken to close the text. -/
theorem readLong_quotes {names : List Char → Option Nat} (n : Nat) (r : List Char) :
    readLong names '"' (List.replicate n '"' ++ tripleQuote ++ r) =
      some ([], List.replicate n '"' ++ r) := by
  have hturn : List.replicate n '"' ++ tripleQuote = tripleQuote ++ List.replicate n '"' := by
    have htriple : tripleQuote = List.replicate 3 '"' := rfl
    rw [htriple, List.replicate_append_replicate, List.replicate_append_replicate, Nat.add_comm]
  rw [hturn, List.append_assoc]
  exact readLong_close _

/-! ## Softened quotes -/

theorem mem_softenQuotes {s : List Char} {c : Char} (hdouble : c ≠ '"') (hsingle : c ≠ '\'') :
    c ∈ softenQuotes s ↔ c ∈ s := by
  fun_induction softenQuotes s with
  | case1 r ih => simp [hdouble, hsingle, ih]
  | case2 d r _ ih => simp [ih]
  | case3 => rfl

theorem softenQuotes_eq_nil {s : List Char} (h : softenQuotes s = []) : s = [] := by
  unfold softenQuotes at h
  split at h
  · cases h
  · cases h
  · rfl

theorem softenQuotes_cons {s t : List Char} (h : softenQuotes s = '"' :: t) :
    ∃ r, s = '"' :: r ∧ softenQuotes r = t := by
  unfold softenQuotes at h
  split at h
  · cases h
  · cases h
    exact ⟨_, rfl, rfl⟩
  · cases h

theorem isSoft_softenQuotes (s : List Char) : IsSoft (softenQuotes s) := by
  fun_induction softenQuotes s with
  | case1 r ih =>
    have hsingle : ∀ t, ¬ tripleQuote <+: '\'' :: t := fun t h => by
      have hhead := List.cons_prefix_cons.mp h
      exact absurd hhead.1 (by decide)
    exact isSoft_cons.mpr ⟨hsingle _, isSoft_cons.mpr ⟨hsingle _, isSoft_cons.mpr ⟨hsingle _, ih⟩⟩⟩
  | case2 c r hstart ih =>
    refine isSoft_cons.mpr ⟨?_, ih⟩
    rintro ⟨t, ht⟩
    obtain ⟨hc, ht⟩ := List.cons.inj ht
    obtain ⟨r', hr, ht⟩ := softenQuotes_cons ht.symm
    obtain ⟨r'', hr', -⟩ := softenQuotes_cons ht
    exact hstart r'' hc.symm (hr' ▸ hr)
  | case3 => exact fun h => by simpa [tripleQuote] using List.infix_nil.mp h

/-- The quotes at the end of a text are softened on their own. -/
theorem softenQuotes_append {s : List Char} (hlast : s.getLast? ≠ some '"') (n : Nat) :
    softenQuotes (s ++ List.replicate n '"') =
        softenQuotes s ++ softenQuotes (List.replicate n '"') ∧
      (softenQuotes s).getLast? ≠ some '"' := by
  fun_induction softenQuotes s with
  | case1 r ih =>
    obtain ⟨happend, hend⟩ := ih (getLast?_tail (getLast?_tail (getLast?_tail hlast)))
    refine ⟨?_, ?_⟩
    · rw [List.cons_append, List.cons_append, List.cons_append, softenQuotes, happend]
      rfl
    · have hsingle : ∀ t : List Char, t = [] → '\'' ≠ '"' := fun _ _ => by decide
      exact getLast?_cons_ne (hsingle _) (getLast?_cons_ne (hsingle _)
        (getLast?_cons_ne (hsingle _) hend))
  | case2 c r hstart ih =>
    obtain ⟨happend, hend⟩ := ih (getLast?_tail hlast)
    have hplain : ∀ t, c = '"' → r ++ List.replicate n '"' = '"' :: '"' :: t → False := by
      rintro t rfl ht
      rcases r with _ | ⟨d, _ | ⟨e, r⟩⟩
      · exact hlast rfl
      · exact getLast?_tail hlast (congrArg some (List.cons.inj ht).1)
      · simp only [List.cons_append, List.cons.injEq] at ht
        exact hstart r rfl (by rw [ht.1, ht.2.1])
    refine ⟨?_, ?_⟩
    · rw [List.cons_append, softenQuotes.eq_2 _ _ hplain, happend]
      rfl
    · refine getLast?_cons_ne (fun hnil hc => hlast ?_) hend
      rw [hc, softenQuotes_eq_nil hnil]
      rfl
  | case3 => exact ⟨rfl, hlast⟩

/-- Of a run of quotes as many are left as it has more than a multiple of three. -/
theorem softenQuotes_replicate (n : Nat) : softenQuotes (List.replicate n '"') =
    List.replicate (3 * (n / 3)) '\'' ++ List.replicate (n % 3) '"' := by
  induction n using Nat.strongRecOn with
  | ind n ih =>
    rcases n with _ | _ | _ | n
    · rfl
    · rfl
    · rfl
    · have hdiv : 3 * ((n + 3) / 3) = 3 * (n / 3) + 3 := by omega
      have hmod : (n + 3) % 3 = n % 3 := by omega
      rw [hdiv, hmod, List.replicate_succ, List.replicate_succ, List.replicate_succ, softenQuotes,
        ih n (by omega)]
      rfl

/-! ## Documentation -/

/-- The words of a documentation on one line. -/
def oneLine (s : String) : List Char := Text.join ' ' (Text.words Text.isBlank s.toList)

theorem toList_documentation (s : String) :
    (documentation s).toList = doubleBackslashes (softenQuotes (oneLine s)) := by
  unfold documentation
  rw [String.toList_ofList]
  rfl

theorem mem_oneLine {s : String} {c : Char} (hc : c ≠ ' ') :
    c ∈ oneLine s ↔ c ∈ s.toList ∧ Text.isBlank c = false := by
  rw [← Text.mem_words]
  constructor
  · exact fun h => (Text.mem_join h).resolve_left hc
  · rintro ⟨w, hw, hcw⟩
    exact Text.mem_join_of_mem hw hcw

/-- A documentation is empty only if it is blank. -/
theorem documentation_ne_empty {s : String} {c : Char} (hc : c ∈ s.toList)
    (hblank : Text.isBlank c = false) : documentation s ≠ "" := by
  have hspace : c ≠ ' ' := by
    rintro rfl
    exact absurd hblank (by decide)
  intro h
  have hnil : doubleBackslashes (softenQuotes (oneLine s)) = [] := by
    rw [← toList_documentation, h]
    rfl
  have hsoft : softenQuotes (oneLine s) = [] := by
    rw [← List.head?_eq_none_iff, ← head?_doubleBackslashes, hnil]
    rfl
  have hmem := (mem_oneLine hspace).mpr ⟨hc, hblank⟩
  rw [softenQuotes_eq_nil hsoft] at hmem
  exact List.not_mem_nil hmem

/-- What stands between the quotes before the double quotes that are left at its end. -/
def keptText (s : String) : List Char :=
  softenQuotes (withoutClosing (oneLine s)) ++
    List.replicate (3 * (closingQuotes (oneLine s) / 3)) '\''

/-- How many double quotes are left at the end. -/
def leftQuotes (s : String) : Nat := closingQuotes (oneLine s) % 3

theorem softenQuotes_oneLine (s : String) :
    softenQuotes (oneLine s) = keptText s ++ List.replicate (leftQuotes s) '"' := by
  have happend := (softenQuotes_append (getLast?_withoutClosing (oneLine s))
    (closingQuotes (oneLine s))).1
  rw [withoutClosing_append, softenQuotes_replicate] at happend
  rw [happend, keptText, leftQuotes, List.append_assoc]

theorem getLast?_keptText (s : String) : (keptText s).getLast? ≠ some '"' := by
  have hsoft := (softenQuotes_append (getLast?_withoutClosing (oneLine s)) 0).2
  unfold keptText
  rw [List.getLast?_append, List.getLast?_replicate]
  split
  · exact hsoft
  · exact fun h => absurd (Option.some.inj h) (by decide)

/-- The literal of a documentation. -/
def docLiteral (s : String) : String := "\"\"\"" ++ documentation s ++ "\"\"\""

theorem doubleBackslashes_append (s t : List Char) :
    doubleBackslashes (s ++ t) = doubleBackslashes s ++ doubleBackslashes t := List.flatMap_append

theorem doubleBackslashes_quotes (n : Nat) :
    doubleBackslashes (List.replicate n '"') = List.replicate n '"' := by
  induction n with
  | zero => rfl
  | succ n ih =>
    rw [List.replicate_succ, doubleBackslashes_cons, ih]
    rfl

theorem isSoft_keptText (s : String) : IsSoft (keptText s) := fun h =>
  isSoft_softenQuotes (oneLine s) (softenQuotes_oneLine s ▸ h.trans (List.prefix_append _ _).isInfix)

theorem mem_keptText {s : String} {c : Char} (hdouble : c ≠ '"') (hsingle : c ≠ '\'')
    (hc : c ≠ ' ') : c ∈ keptText s ↔ c ∈ s.toList ∧ Text.isBlank c = false := by
  have hsoft := mem_softenQuotes (s := oneLine s) hdouble hsingle
  rw [softenQuotes_oneLine, List.mem_append] at hsoft
  rw [← mem_oneLine hc, ← hsoft]
  exact (or_iff_left fun h => hdouble (List.eq_of_mem_replicate h)).symm

/-- The literal of a documentation is read up to the double quotes that are left at its end. -/
theorem readTriple_docLiteral (names : List Char → Option Nat) (s : String) (rest : List Char) :
    readTriple names ((docLiteral s).toList ++ rest) =
      if '\x00' ∈ s.toList then none
      else some (codePoints (keptText s), List.replicate (leftQuotes s) '"' ++ rest) := by
  have hreturn : '\r' ∉ keptText s := by
    rw [mem_keptText (by decide) (by decide) (by decide)]
    exact fun h => absurd h.2 (by decide)
  have hnull : '\x00' ∈ keptText s ↔ '\x00' ∈ s.toList := by
    rw [mem_keptText (by decide) (by decide) (by decide)]
    exact and_iff_left (by decide)
  have htext : (docLiteral s).toList ++ rest = tripleQuote ++ (doubleBackslashes (keptText s) ++
      (List.replicate (leftQuotes s) '"' ++ tripleQuote ++ rest)) := by
    unfold docLiteral
    rw [String.toList_append, String.toList_append, toList_documentation, softenQuotes_oneLine,
      doubleBackslashes_append, doubleBackslashes_quotes]
    simp [tripleQuote]
  have hopen : ∀ r, readTriple names (tripleQuote ++ r) = readLong names '"' r := fun r => rfl
  rw [htext, hopen, readLong_doubled (isSoft_keptText s) (getLast?_keptText s) hreturn,
    readLong_quotes]
  simp only [hnull, Option.map_some, List.append_nil]

/-- The literal is read as the whole documentation exactly if no quotes are left at its end. -/
theorem readTriple_docLiteral_iff (names : List Char → Option Nat) (s : String)
    (rest : List Char) : readTriple names ((docLiteral s).toList ++ rest) =
        some (codePoints (softenQuotes (oneLine s)), rest) ↔
      '\x00' ∉ s.toList ∧ 3 ∣ closingQuotes (oneLine s) := by
  rw [readTriple_docLiteral, softenQuotes_oneLine, Nat.dvd_iff_mod_eq_zero]
  have hleft : closingQuotes (oneLine s) % 3 = leftQuotes s := rfl
  rw [hleft]
  by_cases hnull : '\x00' ∈ s.toList
  · rw [if_pos hnull]
    exact iff_of_false nofun fun h => h.1 hnull
  · rw [if_neg hnull, and_iff_right hnull, Option.some_inj, Prod.mk.injEq]
    constructor
    · rintro ⟨-, h⟩
      simpa using congrArg List.length h
    · intro h
      rw [h]
      simp

/-! ## Modules -/

/-- A documentation that is not blank stands in its class. -/
theorem mem_docLines {model : Model} {p : Protocol} {defined : List String} {s : Shape}
    {c : DataClass} (hc : DataClass.ofShape model p defined s = .ok c) {text : String}
    (htext : s.traits.text? Trait.documentation = some text) (hne : documentation text ≠ "") :
    indent (docLiteral text) ∈ c.lines := by
  obtain ⟨fields, -, hc⟩ := Outcome.bind_eq_ok.mp hc
  rw [← Except.ok.inj hc]
  unfold DataClass.lines
  rw [htext, Option.map_some, Option.filter_some, if_pos (by simpa using hne)]
  refine List.mem_append_right _ (List.mem_map.mpr ⟨docLiteral text, ?_, if_neg ?_⟩)
  · exact List.mem_cons_self
  · unfold docLiteral
    simp [String.append_eq_empty_iff]

/-- The documentation of each structure and union stands in a module. -/
theorem standsIn_documentation {w : Writer} {plans : List Plan} {o : ModuleOptions} {m : Module}
    (h : Module.ofPlans w plans o = .ok m) {enums structs : List Shape}
    (hcollect : collect w.model (roots plans) = .ok (enums, structs)) {s : Shape}
    (hs : s ∈ structs) {text : String} (htext : s.traits.text? Trait.documentation = some text)
    (hne : documentation text ≠ "") : StandsIn (indent (docLiteral text)) m.text := by
  obtain ⟨enums', structs', -, hcollected, hclasses, -⟩ := written_of_ofPlans h
  cases hcollect.symm.trans hcollected
  obtain ⟨front, back, rfl⟩ := List.append_of_mem hs
  obtain ⟨c, hc, hclass⟩ := exists_dataClass_at hclasses
  exact standsIn_class (List.mem_of_getElem? hc) (mem_docLines hclass htext hne)

end Source

/-- The literal of a documentation is read, whatever stands behind it, up to the double quotes that
are left at its end, unless it has a null character. It is the whole documentation on one line, with
single quotes for each three double ones, exactly if the double quotes at the end of the line are a
multiple of three. It stands in the module for each structure and union with this documentation, if
it is not blank. -/
theorem documentation_reads_iff (text : String) (names : List Char → Option Nat)
    (rest : List Char) :
    (Source.readTriple names ((Source.docLiteral text).toList ++ rest) =
      if '\x00' ∈ text.toList then none
      else some (Source.codePoints (Source.keptText text),
        List.replicate (Source.leftQuotes text) '"' ++ rest)) ∧
    (Source.readTriple names ((Source.docLiteral text).toList ++ rest) =
        some (Source.codePoints (Source.softenQuotes (Source.oneLine text)), rest) ↔
      '\x00' ∉ text.toList ∧ 3 ∣ Source.closingQuotes (Source.oneLine text)) ∧
    ∀ (model : Model) (settings : Settings) (cs : List Customization) (out : String),
      generate model settings cs = .ok out → ∃ x enums structs,
        ServicePlan.ofModel model settings.service settings.protocol = .ok x ∧
        Source.collect x.model (Source.roots x.plans) = .ok (enums, structs) ∧
        ∀ s ∈ structs, s.traits.text? Trait.documentation = some text →
          (∃ c ∈ text.toList, Text.isBlank c = false) →
          Source.StandsIn (Source.indent (Source.docLiteral text)) out := by
  refine ⟨Source.readTriple_docLiteral names text rest,
    Source.readTriple_docLiteral_iff names text rest, fun model settings cs out hgenerate => ?_⟩
  obtain ⟨x, m, hx, hm, rfl⟩ := generate_eq_ok.mp hgenerate
  obtain ⟨enums, structs, -, hcollect, -⟩ := Source.written_of_ofPlans hm
  refine ⟨x, enums, structs, hx, hcollect, fun s hs htext ⟨c, hc, hblank⟩ => ?_⟩
  exact Source.standsIn_documentation hm hcollect hs htext (Source.documentation_ne_empty hc hblank)

example : Source.readTriple (fun _ => none)
    ((Source.docLiteral "a \"\"\" of \\ ").toList ++ ['\n']) =
      some (Source.codePoints "a ''' of \\".toList, ['\n']) := by
  decide +kernel

/-- A service whose input has a documentation. -/
def documentedDocument (text : String) : Json :=
  let api : Json := .map [("type", .text "service"), ("operations", .list [reference "ns#Get"])]
  let get : Json := .map [("type", .text "operation"), ("input", reference "ns#In"),
    ("traits", .map [(Trait.http, .map [("method", .text "GET"), ("uri", .text "/")])])]
  let input : Json := .map [("type", .text "structure"), ("members", .map []),
    ("traits", .map [(Trait.documentation, .text text)])]
  .map [("shapes", .map [("ns#Api", api), ("ns#Get", get), ("ns#In", input)])]

/-- A documentation that ends with a double quote breaks the module it stands in. -/
theorem not_every_documentation_reads : ¬ ∀ (text : String) (model : Model),
    Model.load text = .ok model → ∀ settings out x enums structs,
    generate model settings Customization.standard = .ok out →
    ServicePlan.ofModel model settings.service settings.protocol = .ok x →
    Source.collect x.model (Source.roots x.plans) = .ok (enums, structs) →
    ∀ s ∈ structs, ∀ doc, s.traits.text? Trait.documentation = some doc →
      (∃ c ∈ doc.toList, Text.isBlank c = false) → ∀ names rest,
      Source.readTriple names ((Source.docLiteral doc).toList ++ rest) =
        some (Source.codePoints (Source.softenQuotes (Source.oneLine doc)), rest) := by
  intro h
  have hload := Model.load_compact (j := documentedDocument "say \"hi\"") (by decide +kernel)
  have hrun : Outcome.passes (fun model => Outcome.passes (fun x =>
      Outcome.passes (fun _ => true) (x.module restSettings Customization.standard) &&
      Outcome.passes (fun shapes => shapes.2.any fun s =>
        s.traits.text? Trait.documentation = some "say \"hi\"")
        (Source.collect x.model (Source.roots x.plans)))
      (ServicePlan.ofModel model restSettings.service restSettings.protocol))
      (Loader.modelOf (documentedDocument "say \"hi\"")) = true := by
    decide +kernel
  obtain ⟨model, hmodel, hrun⟩ := Outcome.exists_of_passes hrun
  obtain ⟨x, hx, hrun⟩ := Outcome.exists_of_passes hrun
  obtain ⟨hwritten, hshapes⟩ := Bool.and_eq_true_iff.mp hrun
  obtain ⟨m, hm, -⟩ := Outcome.exists_of_passes hwritten
  obtain ⟨⟨enums, structs⟩, hcollect, hany⟩ := Outcome.exists_of_passes hshapes
  obtain ⟨s, hs, hdoc⟩ := List.any_eq_true.mp hany
  have hread := h _ model (hload.trans hmodel) restSettings m.text x enums structs
    (generate_eq_ok.mpr ⟨x, m, hx, hm, rfl⟩) hx hcollect s hs _ (of_decide_eq_true hdoc)
    ⟨'s', by decide, by decide⟩ (fun _ => none) []
  exact absurd ((Source.readTriple_docLiteral_iff _ _ _).mp hread).2 (by decide +kernel)

end Wireform
