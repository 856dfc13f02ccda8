/-
# `Proofs.Source.Enumerators` — the values of enumerators read back

The body of an enumeration has a line for each enumerator: its name, its value if that is shown,
and a comma unless it is the last.  `read?` takes the lines apart by the letters and their kinds
alone.  A name may be any text, so nothing is said about what may stand in it, and it may be no
text at all.

`evaluate` gives the enumerators their values as C does: the one that is shown, or one more than
the value before.  What is printed without its value is just what `evaluate` would give anyway,
so the enumerators come back whatever the settings are (`readsBack_enumeration`).
-/
import DwarfOne.Proofs.Source.Braces
import DwarfOne.Proofs.Text.Numeral

namespace DwarfOne

open Token

/-! ## Reading -/

/-- What a line of an enumeration shows. -/
structure EnumeratorLine where
  name : String
  value : Option Int
  comma : Bool
  deriving DecidableEq, Repr

namespace EnumeratorLine

/-- The number that some letters spell, if they are a literal. -/
def number? (ls : List Letter) : Option Int :=
  if ls.all (·.1 = .literal) then Numeral.literal? (ls.map Prod.snd) else none

/-- An equals sign with a number, and a comma. -/
def finish? (name : String) (ls : List Letter) : Option EnumeratorLine :=
  let comma := ls.getLast? = some (.punctuation, ',')
  match if comma then ls.dropLast else ls with
  | [] => some { name, value := none, comma }
  | (.punctuation, '=') :: literal =>
      (number? literal).map fun n => { name, value := some n, comma }
  | _ => none

/-- A name and what stands behind it.  Blanks between words do not matter. -/
def ofLetters? (ls : List Letter) : Option EnumeratorLine :=
  let ls := ls.filter (· ≠ (.punctuation, ' '))
  finish? (String.ofList ((ls.takeWhile (·.1 = .identifier)).map Prod.snd))
    (ls.dropWhile (·.1 = .identifier))

/-- The lines of a body.  There is nothing before the first nor on the line of the brace. -/
def lines? (body : List Letter) : Option (List (List Letter)) :=
  match body.splitOnP (· = (.punctuation, '\n')) with
  | first :: rest =>
      if first = [] ∧ rest.getLast?.all (·.all (· = (.punctuation, ' '))) then some rest.dropLast
      else none
  | [] => none

def read? (code : Code) : Option (List EnumeratorLine) := do
  (← lines? (← code.body?)).mapM ofLetters?

/-- The enumerators after one with the value `previous`. -/
def evaluate (previous : Int) : List EnumeratorLine → List Enumerator
  | [] => []
  | line :: rest =>
      let value := line.value.getD (previous + 1)
      ⟨line.name, value⟩ :: evaluate value rest

end EnumeratorLine

namespace Source

open EnumeratorLine

variable (s : Source)

/-! ## One line -/

/-- Whether the value of an enumerator is shown. -/
def showsValue (previous : Int) (e : Enumerator) : Bool :=
  e.value ≠ previous + 1 || s.settings.explicitEnumerators

def enumeratorLine (previous : Int) (e : Enumerator) (isLast : Bool) : EnumeratorLine where
  name := e.name
  value := if s.showsValue previous e then some e.value else none
  comma := !isLast

/-- What is printed on the line of an enumerator. -/
def lineTokens (indent : Nat) (previous : Int) (e : Enumerator) (isLast : Bool) : List Token :=
  List.replicate indent (ofPunctuation "    ") ++ [ofIdentifier e.name] ++
    (if s.showsValue previous e then [ofPunctuation " = ", ofLiteral (s.enumeratorValue e.value)]
      else []) ++
    if isLast then [] else [ofPunctuation ","]

theorem literal?_enumeratorValue (value : Int) :
    Numeral.literal? (s.enumeratorValue value).toList = some value := by
  unfold enumeratorValue
  split
  · exact Numeral.literal?_decimal value
  · exact Numeral.literal?_signed Numeral.unsignedLiteral?_upperOffset value

theorem number?_ofLiteral {text : String} {n : Int} (h : Numeral.literal? text.toList = some n) :
    number? (ofLiteral text).letters = some n := by
  have hall : (ofLiteral text).letters.all (·.1 = .literal) = true := by
    simp [letters, ofLiteral]
  have htext : (ofLiteral text).letters.map Prod.snd = text.toList := by
    simp [letters, ofLiteral, Function.comp_def]
  rw [number?, if_pos hall, htext, h]

/-- The letters behind a name, without blanks. -/
def valueLetters (previous : Int) (e : Enumerator) (isLast : Bool) : List Letter :=
  (if s.showsValue previous e then
      (.punctuation, '=') :: (ofLiteral (s.enumeratorValue e.value)).letters
    else []) ++ if isLast then [] else [(.punctuation, ',')]

theorem finish?_valueLetters (previous : Int) (e : Enumerator) (isLast : Bool) :
    finish? e.name (s.valueLetters previous e isLast) =
      some (s.enumeratorLine previous e isLast) := by
  have hnumber := number?_ofLiteral (s.literal?_enumeratorValue e.value)
  have hlast : ((.punctuation, '=') :: (ofLiteral (s.enumeratorValue e.value)).letters).getLast? ≠
      some (.punctuation, ',') := by
    intro hlast
    have hmem := List.mem_of_getLast? hlast
    simp [letters, ofLiteral] at hmem
  unfold valueLetters enumeratorLine
  cases s.showsValue previous e with
  | true =>
      cases isLast with
      | true => simp [finish?, hlast, hnumber]
      | false =>
          simp only [finish?, ↓reduceIte, Bool.false_eq_true, List.getLast?_concat,
            List.dropLast_concat, hnumber, Option.map_some, decide_true, Bool.not_false]
  | false =>
      cases isLast with
      | true => rfl
      | false => rfl

theorem filter_letters {kind : TokenKind} (h : kind ≠ .punctuation) (text : String) :
    (Token.mk kind text).letters.filter (· ≠ (.punctuation, ' ')) =
      (Token.mk kind text).letters := by
  refine List.filter_eq_self.mpr fun l hl => ?_
  obtain ⟨c, -, rfl⟩ := List.mem_map.mp hl
  simp [h]

theorem filter_indent (indent : Nat) :
    ((List.replicate indent (ofPunctuation "    ")).flatMap letters).filter
      (· ≠ (.punctuation, ' ')) = [] := by
  induction indent with
  | zero => rfl
  | succ indent ih =>
      rw [List.replicate_succ, List.flatMap_cons, List.filter_append, ih]
      rfl

theorem filter_lineTokens (indent : Nat) (previous : Int) (e : Enumerator) (isLast : Bool) :
    ((s.lineTokens indent previous e isLast).flatMap letters).filter (· ≠ (.punctuation, ' ')) =
      (ofIdentifier e.name).letters ++ s.valueLetters previous e isLast := by
  have hname : (ofIdentifier e.name).letters.filter (· ≠ (.punctuation, ' ')) =
      (ofIdentifier e.name).letters := filter_letters (by decide) _
  have hliteral : (ofLiteral (s.enumeratorValue e.value)).letters.filter
      (· ≠ (.punctuation, ' ')) = (ofLiteral (s.enumeratorValue e.value)).letters :=
    filter_letters (by decide) _
  unfold lineTokens valueLetters
  simp only [List.flatMap_append, List.filter_append, filter_indent, List.flatMap_singleton, hname,
    List.nil_append, List.append_assoc]
  congr 2
  · split
    · rw [List.flatMap_cons, List.filter_append, List.flatMap_singleton, hliteral]
      rfl
    · rfl
  · cases isLast with
    | true => rfl
    | false => rfl

theorem ofLetters?_lineTokens (indent : Nat) (previous : Int) (e : Enumerator) (isLast : Bool) :
    ofLetters? ((s.lineTokens indent previous e isLast).flatMap letters) =
      some (s.enumeratorLine previous e isLast) := by
  have hname : ∀ l ∈ (ofIdentifier e.name).letters, decide (l.1 = .identifier) = true := by
    simp [letters, ofIdentifier]
  -- what stands behind the name does not go on with it
  have hvalue : (s.valueLetters previous e isLast).takeWhile (·.1 = .identifier) = [] ∧
      (s.valueLetters previous e isLast).dropWhile (·.1 = .identifier) =
        s.valueLetters previous e isLast := by
    unfold valueLetters
    cases s.showsValue previous e <;> cases isLast <;> simp
  have htext : String.ofList ((ofIdentifier e.name).letters.map Prod.snd) = e.name := by
    simp [letters, ofIdentifier, Function.comp_def]
  rw [ofLetters?, filter_lineTokens, List.takeWhile_append_of_pos hname,
    List.dropWhile_append_of_pos hname, hvalue.1, hvalue.2, List.append_nil, htext,
    finish?_valueLetters]

/-! ## The body -/

/-- The lines of enumerators after one with the value `previous`. -/
def printedLines (indent : Nat) : Int → List Enumerator → List (List Token)
  | _, [] => []
  | previous, e :: rest =>
      s.lineTokens indent previous e rest.isEmpty :: printedLines indent e.value rest

def enumeratorLines : Int → List Enumerator → List EnumeratorLine
  | _, [] => []
  | previous, e :: rest =>
      s.enumeratorLine previous e rest.isEmpty :: enumeratorLines e.value rest

theorem enumerators_eq (indent : Nat) (previous : Int) (es : List Enumerator) :
    s.enumerators indent previous es =
      (s.printedLines indent previous es).flatMap (lineBreak :: ·) := by
  induction es generalizing previous with
  | nil => rfl
  | cons e rest ih =>
      rw [enumerators, printedLines, List.flatMap_cons, ← ih]
      rfl

theorem mapM_printedLines (indent : Nat) (previous : Int) (es : List Enumerator) :
    ((s.printedLines indent previous es).map (·.flatMap letters)).mapM ofLetters? =
      some (s.enumeratorLines previous es) := by
  induction es generalizing previous with
  | nil => rfl
  | cons e rest ih =>
      rw [printedLines, List.map_cons, List.mapM_cons, ofLetters?_lineTokens, ih]
      rfl

/-- What stands between the ends of lines is what was put there. -/
theorem splitOnP_flatMap {newline : Letter} {lines : List (List Letter)}
    (h : ∀ line ∈ lines, newline ∉ line) (first : List Letter) (hfirst : newline ∉ first) :
    (first ++ lines.flatMap (newline :: ·)).splitOnP (· = newline) = first :: lines := by
  have hout : ∀ line : List Letter, newline ∉ line →
      ∀ l ∈ line, decide (l = newline) = false := by
    intro line hline l hl
    rw [decide_eq_false_iff_not]
    rintro rfl
    exact hline hl
  induction lines generalizing first with
  | nil => rw [List.flatMap_nil, List.append_nil, List.splitOnP_eq_singleton (hout first hfirst)]
  | cons line lines ih =>
      rw [List.flatMap_cons, List.cons_append,
        List.splitOnP_append_cons_of_forall_mem (hout first hfirst) _ (decide_eq_true rfl),
        ih (fun other hother => h other (List.mem_cons_of_mem _ hother)) line
          (h line List.mem_cons_self)]

/-- Nothing on a line ends it. -/
theorem newline_notMem_lineTokens (indent : Nat) (previous : Int) (e : Enumerator) (isLast : Bool) :
    (.punctuation, '\n') ∉ (s.lineTokens indent previous e isLast).flatMap letters := by
  intro hmem
  obtain ⟨t, ht, hl⟩ := List.mem_flatMap.mp hmem
  obtain ⟨c, hc, hletter⟩ := List.mem_map.mp hl
  obtain ⟨hkind, rfl⟩ := Prod.mk.inj hletter
  have htext : t.text = "    " ∨ t.text = " = " ∨ t.text = "," := by
    simp only [lineTokens, List.mem_append, List.mem_replicate, List.mem_singleton] at ht
    rcases ht with ((⟨-, rfl⟩ | rfl) | ht) | ht
    · exact .inl rfl
    · cases hkind
    · split at ht
      · rcases List.mem_cons.mp ht with rfl | ht
        · exact .inr (.inl rfl)
        · rw [List.mem_singleton.mp ht] at hkind
          cases hkind
      · cases ht
    · split at ht
      · cases ht
      · rw [List.mem_singleton.mp ht]
        exact .inr (.inr rfl)
  rcases htext with htext | htext | htext <;> simp [htext] at hc

theorem newline_notMem_printedLines (indent : Nat) (previous : Int) (es : List Enumerator) :
    ∀ line ∈ (s.printedLines indent previous es).map (·.flatMap letters),
      (.punctuation, '\n') ∉ line := by
  induction es generalizing previous with
  | nil => exact fun _ hline => absurd hline List.not_mem_nil
  | cons e rest ih =>
      rw [printedLines, List.map_cons]
      exact List.forall_mem_cons.mpr ⟨s.newline_notMem_lineTokens _ _ _ _, ih e.value⟩

/-- The letters of an indent. -/
theorem all_indent (indent : Nat) :
    ∀ l ∈ (List.replicate indent (ofPunctuation "    ")).flatMap letters,
      l = (.punctuation, ' ') := by
  intro l hl
  have hnone := List.filter_eq_nil_iff.mp (filter_indent indent) l hl
  simpa using hnone

theorem lines?_enumerators (indent inside : Nat) (es : List Enumerator) :
    lines? ((s.enumerators inside (-1) es ++ newline indent).flatMap letters) =
      some ((s.printedLines inside (-1) es).map (·.flatMap letters)) := by
  have hblank := all_indent indent
  have hbody : (s.enumerators inside (-1) es ++ newline indent).flatMap letters =
      ((s.printedLines inside (-1) es).map (·.flatMap letters) ++
        [(List.replicate indent (ofPunctuation "    ")).flatMap letters]).flatMap
          ((.punctuation, '\n') :: ·) := by
    rw [enumerators_eq, List.flatMap_append, List.flatMap_append, List.flatMap_assoc,
      List.flatMap_map, List.flatMap_singleton]
    rfl
  generalize (List.replicate indent (ofPunctuation "    ")).flatMap letters = blanks at hblank hbody
  have hsplit := splitOnP_flatMap
    (List.forall_mem_append.mpr ⟨s.newline_notMem_printedLines inside (-1) es,
      List.forall_mem_singleton.mpr fun hl => by simpa using hblank _ hl⟩) [] List.not_mem_nil
  rw [lines?, hbody, ← List.nil_append (List.flatMap _ _), hsplit]
  dsimp only
  rw [List.getLast?_concat, List.dropLast_concat, if_pos]
  exact ⟨rfl, List.all_eq_true.mpr fun l hl => decide_eq_true (hblank l hl)⟩

theorem read?_enumeration (indent : Nat) (e : EnumType) (isInline : Bool) :
    read? (.ofTokens (s.enumeration indent e isInline)) =
      some (s.enumeratorLines (-1) e.enumerators) := by
  have htokens : s.enumeration indent e isInline =
      leadingRemark indent (s.offsetRemark e.offset) ++ [ofKeyword "enum"] ++
        ownName isInline e.name ++ newline indent ++ [ofPunctuation "\x7b"] ++
        (s.enumerators (indent + 1) (-1) e.enumerators ++ newline indent) ++ closing isInline := by
    simp only [enumeration, List.append_assoc]
  rw [read?, htokens, Code.body?_ofTokens (fun _ => by simp) (fun _ => by simp)]
  simp only [Option.bind_eq_bind, Option.bind_some, lines?_enumerators, mapM_printedLines]

/-! ## The values -/

variable {s} {lines : List EnumeratorLine} {previous : Int} {es : List Enumerator}

theorem evaluate_enumeratorLines : evaluate previous (s.enumeratorLines previous es) = es := by
  induction es generalizing previous with
  | nil => rfl
  | cons e rest ih =>
      -- a value that is not shown is the one that is expected
      have hvalue : (s.enumeratorLine previous e rest.isEmpty).value.getD (previous + 1) =
          e.value := by
        by_cases hshown : s.showsValue previous e = true
        · rw [enumeratorLine, if_pos hshown, Option.getD_some]
        · rw [enumeratorLine, if_neg hshown, Option.getD_none]
          simp [showsValue] at hshown
          exact hshown.1.symm
      rw [enumeratorLines, evaluate, hvalue, ih]
      rfl

theorem comma_enumeratorLines : (s.enumeratorLines previous es).map EnumeratorLine.comma =
    (List.range es.length).map fun i => decide (i + 1 < es.length) := by
  induction es generalizing previous with
  | nil => rfl
  | cons e rest ih =>
      rw [enumeratorLines, List.map_cons, ih, List.length_cons, List.range_succ_eq_map,
        List.map_cons, List.map_map]
      congr 1
      · cases rest <;> simp [enumeratorLine]
      · refine List.map_congr_left fun i _ => decide_eq_decide.mpr ?_
        exact Nat.succ_lt_succ_iff.symm

theorem isSome_enumeratorLines : (s.enumeratorLines previous es).map (·.value.isSome) =
    List.zipWith s.showsValue (previous :: es.map Enumerator.value) es := by
  induction es generalizing previous with
  | nil => rfl
  | cons e rest ih =>
      rw [enumeratorLines, List.map_cons, ih, List.map_cons, List.zipWith_cons_cons]
      congr 1
      cases hshown : s.showsValue previous e <;> simp [enumeratorLine, hshown]

variable (s)

/-- The enumerators are read back from what is printed, with a comma behind all but the last.
A value is shown if it is not one more than the value before, and if all are asked for. -/
theorem enumeration_readBack (indent : Nat) (e : EnumType) (isInline : Bool) :
    ∃ lines, read? (.ofTokens (s.enumeration indent e isInline)) = some lines ∧
      evaluate (-1) lines = e.enumerators ∧
      lines.map EnumeratorLine.comma =
        (List.range e.enumerators.length).map (fun i => decide (i + 1 < e.enumerators.length)) ∧
      lines.map (·.value.isSome) = List.zipWith
        (fun previous e => e.value ≠ previous + 1 || s.settings.explicitEnumerators)
          (-1 :: e.enumerators.map Enumerator.value) e.enumerators :=
  ⟨_, s.read?_enumeration indent e isInline, evaluate_enumeratorLines, comma_enumeratorLines,
    isSome_enumeratorLines⟩

end Source

end DwarfOne
