/-
# `Proofs.Source.AccessLabels` — the access of members and bases read back

The body of a class is a list of statements, and some have a label in front.  Read in order they
tell the access of each: the one of the last label, or before any label the one that goes with the
word the class begins with.  The printer shows a label just where the access changes, so the
accesses come back (`access_readBack`).

The statements are found by their semicolons and the labels by their words.  Neither can be taken
for something else, since no type has an open end and none begins with a label: see
`Proofs.Source.Statements`.  For the bases see `Proofs.Source.BaseClauses`.
-/
import DwarfOne.Proofs.Source.BaseClauses

namespace DwarfOne

open Token

/-! ## Reading -/

/-- The letters of a label. -/
def Access.label (a : Access) : List Letter :=
  (ofKeyword a.keyword).letters ++ (ofPunctuation ":").letters

/-- A statement without its blanks and comments, and the label in front of it. -/
structure Statement where
  label : Option Access
  code : List Letter
  deriving DecidableEq, Repr

/-- The access of what is not marked in a class, by the word it begins with. -/
def Code.implicitAccess? (code : Code) : Option Access :=
  let word := (code.letters.dropWhile (·.1 ≠ .keyword)).takeWhile (·.1 = .keyword)
  match String.ofList (word.map Prod.snd) with
  | "class" => some .privately
  | "struct" => some .publicly
  | "union" => some .publicly
  | _ => none

namespace Statement

def ofLetters (ls : List Letter) : Statement :=
  let ls := ls.dropWhile (!isBare ·)
  match Access.all.find? (·.label.isPrefixOf ls) with
  | some a => { label := some a, code := (ls.drop a.label.length).filter isBare }
  | none => { label := none, code := ls.filter isBare }

/-- The statements of a body.  Nothing stands behind the last semicolon. -/
def read? (body : List Letter) : Option (List Statement) := do
  let scan ← StatementScan.run ⟨[], [], []⟩ body
  if scan.stack = [] ∧ scan.current.filter isBare = [] then some (scan.ended.map ofLetters)
  else none

/-- What is stated, with the access in force there. -/
def accesses (inForce : Access) : List Statement → List (Access × List Letter)
  | [] => []
  | statement :: rest =>
      let access := statement.label.getD inForce
      (access, statement.code) :: accesses access rest

/-- What has an access, with labels where the access changes. -/
def withLabels (inForce : Access) : List (Access × List Letter) → List Statement
  | [] => []
  | (access, code) :: rest =>
      ⟨if access = inForce then none else some access, code⟩ :: withLabels access rest

/-! ## Labels -/

variable {lead ls : List Letter}

theorem filter_dropWhile (ls : List Letter) :
    (ls.dropWhile (!isBare ·)).filter isBare = ls.filter isBare := by
  induction ls with
  | nil => rfl
  | cons l ls ih =>
      by_cases hbare : isBare l = true
      · rw [List.dropWhile_cons_of_neg (by simp [hbare])]
      · rw [List.dropWhile_cons_of_pos (by simp [hbare]), ih, List.filter_cons_of_neg hbare]

theorem ofLetters_unlabelled (h : Unlabelled ls) : ofLetters ls = ⟨none, ls.filter isBare⟩ := by
  have hnone : Access.all.find? (·.label.isPrefixOf (ls.dropWhile (!isBare ·))) = none := by
    rw [List.find?_eq_none]
    intro a _ hlabel
    obtain ⟨tail, htail⟩ := List.isPrefixOf_iff_prefix.mp hlabel
    rw [Access.label, List.append_assoc] at htail
    have hempty := h _ _ htail.symm (by simp [letters, ofKeyword])
    cases a <;> exact absurd hempty (by decide)
  rw [ofLetters, hnone]
  exact congrArg (Statement.mk none) (filter_dropWhile ls)

theorem ofLetters_blank (hlead : lead.filter isBare = []) (h : Unlabelled ls) :
    ofLetters (lead ++ ls) = ⟨none, ls.filter isBare⟩ := by
  rw [ofLetters_unlabelled (h.blank lead hlead), List.filter_append, hlead, List.nil_append]

theorem find?_label (a : Access) (ls : List Letter) :
    Access.all.find? (·.label.isPrefixOf (a.label ++ ls)) = some a := by
  cases a with
  | publicly => rfl
  | protectedly => rfl
  | privately => rfl

theorem ofLetters_label (hlead : lead.filter isBare = []) (a : Access) (ls : List Letter) :
    ofLetters (lead ++ (a.label ++ ls)) = ⟨some a, ls.filter isBare⟩ := by
  have hdrop : (lead ++ (a.label ++ ls)).dropWhile (!isBare ·) = a.label ++ ls := by
    rw [dropWhile_blank hlead]
    cases a with
    | publicly => rfl
    | protectedly => rfl
    | privately => rfl
  rw [ofLetters, hdrop, find?_label]
  dsimp only
  rw [List.drop_left]

/-! ## Accesses -/

theorem getD_label (inForce access : Access) :
    (if access = inForce then none else some access).getD inForce = access := by
  by_cases hsame : access = inForce
  · rw [if_pos hsame, hsame, Option.getD_none]
  · rw [if_neg hsame, Option.getD_some]

theorem accesses_withLabels (inForce : Access) (items : List (Access × List Letter)) :
    accesses inForce (withLabels inForce items) = items := by
  induction items generalizing inForce with
  | nil => rfl
  | cons item items ih =>
      obtain ⟨access, code⟩ := item
      rw [withLabels, accesses]
      dsimp only
      rw [getD_label, ih]

theorem withLabels_append (inForce : Access) (items items' : List (Access × List Letter)) :
    withLabels inForce (items ++ items') = withLabels inForce items ++
      withLabels ((items.getLast?.map Prod.fst).getD inForce) items' := by
  induction items generalizing inForce with
  | nil => rfl
  | cons item items ih =>
      obtain ⟨access, code⟩ := item
      rw [List.cons_append, withLabels, ih, withLabels, List.cons_append, List.getLast?_cons]
      cases items.getLast? <;> rfl

/-- How often the access changes. -/
def changes (inForce : Access) : List Access → Nat
  | [] => 0
  | access :: rest => (if access = inForce then 0 else 1) + changes access rest

theorem length_label_withLabels (inForce : Access) (items : List (Access × List Letter)) :
    ((withLabels inForce items).filterMap Statement.label).length =
      changes inForce (items.map Prod.fst) := by
  induction items generalizing inForce with
  | nil => rfl
  | cons item items ih =>
      obtain ⟨access, code⟩ := item
      rw [withLabels, List.map_cons, changes, ← ih access]
      by_cases hsame : access = inForce
      · rw [if_pos hsame, if_pos hsame, List.filterMap_cons_none rfl, Nat.zero_add]
      · rw [if_neg hsame, if_neg hsame, Nat.add_comm]
        rfl

theorem changes_same_append {α : Type} (access : Access) (items : List α) (rest : List Access) :
    changes access (items.map (fun _ => access) ++ rest) = changes access rest := by
  induction items with
  | nil => rfl
  | cons _ items ih => rw [List.map_cons, List.cons_append, changes, if_pos rfl, Nat.zero_add, ih]

/-- The access in force behind some statements. -/
def inForce (start : Access) (statements : List Statement) : Access :=
  statements.foldl (fun access statement => statement.label.getD access) start

theorem inForce_ne_of_withLabels {start a : Access} {items : List (Access × List Letter)}
    {before after : List Statement} {code : List Letter}
    (h : withLabels start items = before ++ ⟨some a, code⟩ :: after) :
    inForce start before ≠ a := by
  induction items generalizing start before with
  | nil => cases before <;> cases h
  | cons item items ih =>
      obtain ⟨access, code'⟩ := item
      rw [withLabels] at h
      cases before with
      | nil =>
          have hlabel := congrArg Statement.label (List.cons.inj h).1
          by_cases hsame : access = start
          · rw [if_pos hsame] at hlabel
            cases hlabel
          · rw [if_neg hsame] at hlabel
            cases hlabel
            exact Ne.symm hsame
      | cons first before =>
          obtain ⟨rfl, hrest⟩ := List.cons.inj h
          have hfirst : inForce start (⟨if access = start then none else some access, code'⟩ ::
              before) = inForce access before :=
            congrArg (inForce · before) (getD_label start access)
          rw [hfirst]
          exact ih hrest

end Statement

/-! ## Bodies -/

/-- Blanks and comments open and close nothing. -/
theorem balanced_of_bareLetters {ts : List Token} (h : bareLetters ts = []) : Balanced ts := by
  have hblank : ∀ c, Text.blank.contains c = true → Bracket.isPlain c = true := by
    intro c hc
    unfold Bracket.isPlain Bracket.opened? Bracket.closed?
    split <;> split <;> first | rfl | exact absurd hc (by decide)
  intro stack
  rw [← Letter.after_letters]
  have hls : ∀ l ∈ ts.flatMap letters, Letter.step stack l = some stack := by
    intro l hl
    have hbare : isBare l = false := by simpa using List.filter_eq_nil_iff.mp h l hl
    unfold Letter.step
    by_cases hkind : l.1 = .punctuation
    · rw [if_pos hkind]
      exact Bracket.step_of_isPlain (hblank l.2 (by simpa [isBare, hkind] using hbare)) stack
    · rw [if_neg hkind]
  generalize ts.flatMap letters = ls at hls
  induction ls with
  | nil => rfl
  | cons l ls ih =>
      rw [Letter.after_cons, hls l List.mem_cons_self, Option.bind_some]
      exact ih fun l' hl' => hls l' (List.mem_cons_of_mem _ hl')

/-- The tokens are read as some statements, whatever was read before. -/
def ReadsAs (ts : List Token) (statements : List Statement) : Prop :=
  ∀ lead ended, lead.filter isBare = [] → ∃ behind new,
    StatementScan.run ⟨[], lead, ended⟩ (ts.flatMap letters) = some ⟨[], behind, ended ++ new⟩ ∧
      behind.filter isBare = [] ∧ new.map Statement.ofLetters = statements

section ReadsAs

variable {ts ts' before : List Token} {statements statements' : List Statement}

theorem ReadsAs.append (h : ReadsAs ts statements) (h' : ReadsAs ts' statements') :
    ReadsAs (ts ++ ts') (statements ++ statements') := by
  intro lead ended hlead
  obtain ⟨between, new, hrun, hbetween, hnew⟩ := h lead ended hlead
  obtain ⟨behind, new', hrun', hbehind, hnew'⟩ := h' between (ended ++ new) hbetween
  refine ⟨behind, new ++ new', ?_, hbehind, by rw [List.map_append, hnew, hnew']⟩
  rw [List.flatMap_append, StatementScan.run_append, hrun, Option.bind_some, hrun',
    List.append_assoc]

theorem readsAs_blank (h : bareLetters ts = []) : ReadsAs ts [] := by
  intro lead ended hlead
  refine ⟨lead ++ ts.flatMap letters, [], ?_, ?_, rfl⟩
  · rw [List.append_nil]
    exact continues_of_lacks (lacks_of_bareLetters h (by decide)) _ _ _ _
      (balanced_of_bareLetters h [])
  · rw [List.filter_append, hlead]
    exact h

/-- One statement, with something before it that decides about its label. -/
theorem readsAs_statement (h : Source.IsStatement ts) (hbefore : Balanced before)
    (hcontinues : Continues before) {label : Option Access}
    (hlabel : ∀ lead ls, lead.filter isBare = [] → Unlabelled ls →
      Statement.ofLetters (lead ++ before.flatMap letters ++ ls) = ⟨label, ls.filter isBare⟩) :
    ReadsAs (before ++ ts) [⟨label, bareLetters ts⟩] := by
  obtain ⟨code, behind, rfl, hbalanced, hcode, hunlabelled, hbehind⟩ := h
  intro lead ended hlead
  refine ⟨behind.flatMap letters,
    [lead ++ before.flatMap letters ++ (code ++ [ofPunctuation ";"]).flatMap letters], ?_, hbehind,
    ?_⟩
  · have hrest := continues_of_lacks (lacks_of_bareLetters hbehind (by decide))
    simp only [List.flatMap_append, StatementScan.run_append,
      hcontinues _ _ _ _ (hbefore []), hcode _ _ _ _ (hbalanced []), Option.bind_some]
    rw [← List.append_assoc]
    exact hrest _ _ _ _ (balanced_of_bareLetters hbehind [])
  · rw [List.map_singleton, hlabel lead _ hlead hunlabelled]
    have hfilter : bareLetters (code ++ [ofPunctuation ";"] ++ behind) =
        ((code ++ [ofPunctuation ";"]).flatMap letters).filter isBare := by
      rw [bareLetters_append, hbehind, List.append_nil]
      rfl
    rw [hfilter]

theorem ReadsAs.read?_eq (h : ReadsAs ts statements) :
    Statement.read? (ts.flatMap letters) = some statements := by
  obtain ⟨behind, new, hrun, hbehind, hnew⟩ := h [] [] rfl
  rw [Statement.read?, hrun, Option.bind_eq_bind, Option.bind_some, if_pos ⟨rfl, hbehind⟩,
    List.nil_append, hnew]

theorem Source.IsStatement.balanced (h : Source.IsStatement ts) : Balanced ts := by
  obtain ⟨code, behind, rfl, hcode, -, -, hbehind⟩ := h
  intro stack
  simp [hcode, balanced_of_bareLetters hbehind]

end ReadsAs

namespace Source

/-- What is on lines of its own, with what is left of its letters. -/
def coded (items : List (Access × List Token)) : List (Access × List Letter) :=
  items.map fun item => (item.1, bareLetters item.2)

theorem readsAs_onLine {ts : List Token} (indent : Nat) (h : IsStatement ts) :
    ReadsAs (newline indent ++ ts) [⟨none, bareLetters ts⟩] := by
  have hblank := bareLetters_newline indent
  refine readsAs_statement h (balanced_of_bareLetters hblank)
    (continues_of_lacks (lacks_newline (by decide) indent)) fun lead ls hlead hls => ?_
  refine Statement.ofLetters_blank ?_ hls
  rw [List.filter_append, hlead]
  exact hblank

theorem readsAs_labelled {item : List Token} (indent : Nat) (inForce access : Access)
    (isFirst : Bool) (h : IsStatement item) :
    ReadsAs (accessLabel inForce access isFirst ++ newline indent ++ item)
      [⟨if access = inForce then none else some access, bareLetters item⟩] := by
  by_cases hsame : access = inForce
  · rw [accessLabel, if_pos hsame, if_pos hsame]
    exact readsAs_onLine indent h
  · rw [accessLabel, if_neg hsame, if_neg hsame]
    have hbreaks : bareLetters (if isFirst then [lineBreak] else [lineBreak, lineBreak]) = [] := by
      cases isFirst <;> decide
    refine readsAs_statement h (fun _ => by simp) (continues_of_lacks ?_)
      fun lead ls hlead _ => ?_
    · rw [lacks_append, lacks_append]
      exact ⟨⟨lacks_of_bareLetters hbreaks (by decide), by simp [ofPunctuation]⟩,
        lacks_newline (by decide) indent⟩
    · have hbehind : ((newline indent).flatMap letters ++ ls).filter isBare = ls.filter isBare := by
        rw [List.filter_append, show ((newline indent).flatMap letters).filter isBare = [] from
          bareLetters_newline indent, List.nil_append]
      have hlead' : (lead ++ (if isFirst then [lineBreak] else [lineBreak, lineBreak]).flatMap
          letters).filter isBare = [] := by
        rw [List.filter_append, hlead]
        exact hbreaks
      have hall := Statement.ofLetters_label hlead' access ((newline indent).flatMap letters ++ ls)
      rw [hbehind] at hall
      simpa only [Access.label, List.flatMap_append, List.flatMap_cons, List.flatMap_nil,
        List.append_nil, List.append_assoc] using hall

theorem readsAs_items (indent : Nat) {items : List (Access × List Token)}
    (h : ∀ item ∈ items, IsStatement item.2) (inForce : Access) (isFirst : Bool) :
    ReadsAs (labelled indent inForce isFirst items)
      (Statement.withLabels inForce (coded items)) := by
  induction items generalizing inForce isFirst with
  | nil => exact readsAs_blank rfl
  | cons item items ih =>
      have hfirst := readsAs_labelled indent inForce item.1 isFirst (h item List.mem_cons_self)
      have hrest := ih (fun item hitem => h item (List.mem_cons_of_mem _ hitem)) item.1 false
      exact hfirst.append hrest

theorem withLabels_same (access : Access) (codes : List (List Letter)) :
    Statement.withLabels access (codes.map (access, ·)) = codes.map (⟨none, ·⟩) := by
  induction codes with
  | nil => rfl
  | cons code codes ih => rw [List.map_cons, Statement.withLabels, if_pos rfl, ih, List.map_cons]

theorem readsAs_aliases (indent : Nat) {typedefs : List (List Token)}
    (h : ∀ ts ∈ typedefs, IsStatement ts) :
    ReadsAs (typedefs.flatMap (newline indent ++ ·))
      ((typedefs.map bareLetters).map (⟨none, ·⟩)) := by
  induction typedefs with
  | nil => exact readsAs_blank rfl
  | cons ts typedefs ih =>
      have hfirst := readsAs_onLine indent (h ts List.mem_cons_self)
      exact hfirst.append (ih fun ts hts => h ts (List.mem_cons_of_mem _ hts))

theorem readsAs_group {items : List Token} {statements : List Statement} (indent : Nat)
    (h : ReadsAs items statements) :
    ReadsAs (if items.isEmpty then [] else items ++ newline indent) statements := by
  by_cases hempty : items.isEmpty = true
  · rw [if_pos hempty]
    rwa [List.isEmpty_iff.mp hempty] at h
  · rw [if_neg hempty, ← List.append_nil statements]
    exact h.append (readsAs_blank (bareLetters_newline indent))

/-- Where there is nothing, there is a line end. -/
theorem readsAs_orLine {items : List Token} {statements : List Statement} (indent : Nat)
    (h : ReadsAs items statements) :
    ReadsAs (if items.isEmpty then newline indent else items) statements := by
  by_cases hempty : items.isEmpty = true
  · rw [if_pos hempty, ← List.append_nil statements]
    rw [List.isEmpty_iff.mp hempty] at h
    exact h.append (readsAs_blank (bareLetters_newline indent))
  · rw [if_neg hempty]
    exact h

/-- What is in a class, with the access it has.  Typedefs have the one that is not marked. -/
def classCode (kind : ClassKind) (typedefs : List (List Token))
    (members functions : List (Access × List Token)) : List (Access × List Letter) :=
  (typedefs.map bareLetters).map (kind.implicitAccess, ·) ++ coded members ++ coded functions

theorem readsAs_classItems (indent : Nat) (kind : ClassKind) {typedefs : List (List Token)}
    {members functions : List (Access × List Token)}
    (htypedefs : ∀ ts ∈ typedefs, IsStatement ts) (hmembers : ∀ item ∈ members, IsStatement item.2)
    (hfunctions : ∀ item ∈ functions, IsStatement item.2) :
    ReadsAs (classItems indent kind typedefs members functions)
      (Statement.withLabels kind.implicitAccess (classCode kind typedefs members functions)) := by
  have hlast : ((coded members).getLast?.map Prod.fst).getD kind.implicitAccess =
      lastAccess kind.implicitAccess members := by
    rw [coded, List.getLast?_map, Option.map_map]
    rfl
  have haliases : ∀ codes : List (List Letter),
      ((codes.map (kind.implicitAccess, ·)).getLast?.map Prod.fst).getD kind.implicitAccess =
        kind.implicitAccess := by
    intro codes
    rw [List.getLast?_map, Option.map_map]
    cases codes.getLast? <;> rfl
  have hlabels : Statement.withLabels kind.implicitAccess
      (classCode kind typedefs members functions) =
        (typedefs.map bareLetters).map (⟨none, ·⟩) ++
          Statement.withLabels kind.implicitAccess (coded members) ++
          Statement.withLabels (lastAccess kind.implicitAccess members) (coded functions) := by
    rw [classCode, List.append_assoc, Statement.withLabels_append, withLabels_same, haliases,
      Statement.withLabels_append, hlast, List.append_assoc]
  have hall := ((readsAs_group indent (readsAs_aliases (indent + 1) htypedefs)).append
    (readsAs_group indent (readsAs_items (indent + 1) hmembers kind.implicitAccess true))).append
    (readsAs_group indent
      (readsAs_items (indent + 1) hfunctions (lastAccess kind.implicitAccess members) true))
  rw [hlabels]
  exact readsAs_orLine indent hall

end Source

/-! ## Whole classes -/

/-- The first word is the one the class begins with. -/
theorem Code.implicitAccess?_ofTokens {remarks : List Token} (hremarks : bareLetters remarks = [])
    (kind : ClassKind) {behind : List Token} {c : Char} {tail : List Letter}
    (hbehind : behind.flatMap Token.letters = (.punctuation, c) :: tail) :
    (ofTokens (remarks ++ [ofKeyword kind.keyword] ++ behind)).implicitAccess? =
      some kind.implicitAccess := by
  have hkind : ∀ l ∈ remarks.flatMap Token.letters, l.1 ≠ .keyword := by
    intro l hl hword
    refine List.filter_eq_nil_iff.mp hremarks l hl ?_
    simp [isBare, hword]
  rw [implicitAccess?, letters_ofTokens, List.append_assoc, List.flatMap_append,
    List.dropWhile_append_of_pos fun l hl => decide_eq_true (hkind l hl), List.flatMap_append,
    hbehind]
  cases kind with
  | classKind => rfl
  | structKind => rfl
  | unionKind => rfl

namespace Source

theorem prints_withAccess {α : Type} (f : α → Except RenderError (List Token))
    (access : α → Access) (items : List α) :
    Prints (fun pairs => items.mapM f = .ok (pairs.map Prod.snd) ∧
        pairs.map Prod.fst = items.map access)
      (items.mapM fun a => do return (access a, ← f a)) := by
  induction items with
  | nil =>
      rw [List.mapM_nil]
      exact .pure ⟨rfl, rfl⟩
  | cons a items ih =>
      rw [List.mapM_cons, List.mapM_cons]
      refine Agree.bind (P := fun item => f a = .ok item.2 ∧ item.1 = access a) ?_ ?_
      · exact (prints_ok _).bind fun text htext => .pure ⟨htext, rfl⟩
      · rintro ⟨_, text⟩ ⟨htext, rfl⟩
        refine ih.bind fun pairs hpairs => .pure ⟨?_, ?_⟩
        · rw [htext, hpairs.1]
          rfl
        · rw [List.map_cons, hpairs.2, List.map_cons]

/-- What a class is printed from: its bases, and what is in it with the access of each. -/
structure ClassParts (s : Source) (nested : Nested) (indent : Nat) (c : ClassType) where
  clauses : List BaseClause
  typedefs : List (List Token)
  members : List (Access × List Token)
  functions : List (Access × List Token)
  bases_eq : s.bases nested indent c.kind " : " c.bases =
    .ok (BaseClause.listTokens " : " clauses)
  shows_bases : List.Forall₂ (BaseClause.Shows s nested indent c.kind) c.bases clauses
  typedefs_eq : c.typedefs.mapM (s.typedef nested (indent + 1)) = .ok typedefs
  members_eq : c.members.mapM (s.member nested (indent + 1)) = .ok (members.map Prod.snd)
  members_access : members.map Prod.fst = c.members.map Member.access
  functions_eq : (s.methods c).mapM (s.functionDeclaration nested (indent + 1) · true) =
    .ok (functions.map Prod.snd)
  functions_access : functions.map Prod.fst = (s.methods c).map Function.access

namespace ClassParts

section Tokens

variable {s : Source} {nested : Nested} {indent : Nat} {c : ClassType}

/-- What stands before the bases. -/
def head (_ : ClassParts s nested indent c) (remarks : List String) (isInline : Bool) :
    List Token :=
  leadingRemark indent remarks ++ [ofKeyword c.kind.keyword] ++ ownName isInline c.name

def tokens (parts : ClassParts s nested indent c) (remarks : List String) (isInline : Bool) :
    List Token :=
  parts.head remarks isInline ++ BaseClause.listTokens " : " parts.clauses ++ newline indent ++
    [ofPunctuation "\x7b"] ++
    classItems indent c.kind parts.typedefs parts.members parts.functions ++ closing isInline

theorem exists_of_classType {isInline : Bool} {tokens : List Token}
    (h : s.classType nested indent c isInline = .ok tokens) :
    ∃ remarks, ∃ parts : ClassParts s nested indent c, tokens = parts.tokens remarks isInline := by
  have hprints : Prints (fun tokens => ∃ remarks, ∃ parts : ClassParts s nested indent c,
      tokens = parts.tokens remarks isInline) (s.classType nested indent c isInline) := by
    refine (prints_bases s nested indent c.kind " : " c.bases).and_eq_ok.bind fun bases hbases => ?_
    refine (prints_ok _).bind fun typedefs htypedefs => ?_
    refine (prints_withAccess (s.member nested (indent + 1)) Member.access c.members).bind
      fun members hmembers => ?_
    refine (prints_withAccess (s.functionDeclaration nested (indent + 1) · true) Function.access
      (s.methods c)).bind fun functions hfunctions => .pure ?_
    obtain ⟨⟨clauses, hshows, rfl⟩, hbases⟩ := hbases
    exact ⟨_, ⟨clauses, typedefs, members, functions, hbases, hshows, htypedefs, hmembers.1,
      hmembers.2, hfunctions.1, hfunctions.2⟩, rfl⟩
  exact hprints.of_ok h

/-- What is in the class. -/
def code (parts : ClassParts s nested indent c) : List (Access × List Letter) :=
  classCode c.kind parts.typedefs parts.members parts.functions

theorem map_fst_code (parts : ClassParts s nested indent c) :
    parts.code.map Prod.fst = parts.typedefs.map (fun _ => c.kind.implicitAccess) ++
      (c.members.map Member.access ++ (s.methods c).map Function.access) := by
  rw [← parts.members_access, ← parts.functions_access]
  simp [code, classCode, coded, Function.comp_def]

theorem map_snd_code (parts : ClassParts s nested indent c) :
    parts.code.map Prod.snd = (parts.typedefs ++ parts.members.map Prod.snd ++
      parts.functions.map Prod.snd).map bareLetters := by
  simp [code, classCode, coded, Function.comp_def]

theorem implicitAccess?_tokens (parts : ClassParts s nested indent c) (remarks : List String)
    (isInline : Bool) :
    (Code.ofTokens (parts.tokens remarks isInline)).implicitAccess? =
      some c.kind.implicitAccess := by
  have hremarks := bareLetters_of_noise (noise_leadingRemark indent remarks)
  -- the name, the bases and the line end all begin with a blank
  have hbehind : ∀ rest, ∃ mark tail, (ownName isInline c.name ++
      (BaseClause.listTokens " : " parts.clauses ++ (newline indent ++ rest))).flatMap letters =
        (.punctuation, mark) :: tail := by
    intro rest
    unfold ownName
    split
    · cases parts.clauses with
      | nil => exact ⟨'\n', _, rfl⟩
      | cons clause clauses => exact ⟨' ', _, rfl⟩
    · exact ⟨' ', _, rfl⟩
  obtain ⟨mark, tail, hmark⟩ := hbehind ([ofPunctuation "\x7b"] ++
    (classItems indent c.kind parts.typedefs parts.members parts.functions ++ closing isInline))
  have hread := Code.implicitAccess?_ofTokens hremarks c.kind hmark
  simpa only [tokens, head, List.append_assoc] using hread

theorem baseClauses_tokens (parts : ClassParts s nested indent c) (remarks : List String)
    (isInline : Bool)
    (h : ∀ b ∈ c.bases, ∃ o, b.type.base = .user o ∧ s.inlined? o = .ok none) :
    (Code.ofTokens (parts.tokens remarks isInline)).baseClauses =
      parts.clauses.map BaseClause.marks := by
  have hhead : ∀ mark, isBare (.punctuation, mark) = true →
      Lacks mark (parts.head remarks isInline) := by
    intro mark hmark
    have hremarks := bareLetters_of_noise (noise_leadingRemark indent remarks)
    have hspace : mark ≠ ' ' := by
      rintro rfl
      exact absurd hmark (by decide)
    rw [head, lacks_append, lacks_append]
    exact ⟨⟨lacks_of_bareLetters hremarks hmark, by simp⟩,
      by simp [ownName, space, ofPunctuation, hspace]⟩
  have hread := Code.baseClauses_ofTokens (hhead ':' (by decide)) (hhead '\x7b' (by decide))
    (BaseClause.isNamed_of_forall₂ parts.shows_bases h) indent
    (classItems indent c.kind parts.typedefs parts.members parts.functions ++ closing isInline)
  simpa only [tokens, List.append_assoc] using hread

end Tokens

section Statements

variable {s : Source} {depth indent : Nat} {c : ClassType}

theorem statements_tokens (parts : ClassParts s (s.nestedTo depth) indent c)
    (remarks : List String) (isInline : Bool) :
    (Code.ofTokens (parts.tokens remarks isInline)).body?.bind Statement.read? =
      some (Statement.withLabels c.kind.implicitAccess parts.code) := by
  have hn := stands_nestedTo s depth
  have hfits : ∀ ty, Fits anyError s (s.nestedTo depth) (s.nestedTo depth) ty :=
    s.fits_anyError (s.fitsWritten_nestedTo depth)
  have htypedefs : ∀ ts ∈ parts.typedefs, IsStatement ts :=
    (Agree.mapM fun t _ => hn.typedef hfits t).of_ok parts.typedefs_eq
  have hmembers : ∀ item ∈ parts.members, IsStatement item.2 :=
    List.forall_mem_map.mp ((Agree.mapM fun m _ => hn.member hfits m).of_ok parts.members_eq)
  have hfunctions : ∀ item ∈ parts.functions, IsStatement item.2 :=
    List.forall_mem_map.mp
      ((Agree.mapM fun f _ => hn.functionDeclaration hfits f).of_ok parts.functions_eq)
  have hitems : Balanced (classItems indent c.kind parts.typedefs parts.members parts.functions) :=
    balanced_classItems indent c.kind (fun ts hts => (htypedefs ts hts).balanced)
      (fun item hitem => (hmembers item hitem).balanced)
      fun item hitem => (hfunctions item hitem).balanced
  have hbases : Balanced (BaseClause.listTokens " : " parts.clauses) :=
    (agree_bases (by decide) fun b _ => hfits b.type).of_ok parts.bases_eq
  have hhead : Balanced (parts.head remarks isInline ++
      BaseClause.listTokens " : " parts.clauses ++ newline indent) := by
    intro stack
    simp [head, hbases]
  rw [tokens, Code.body?_ofTokens hhead hitems, Option.bind_some]
  exact (readsAs_classItems indent c.kind htypedefs hmembers hfunctions).read?_eq

end Statements

end ClassParts

/-- A class with two bases, a structure without a name in it, and items of every access. -/
def workerClass : ClassType where
  offset := 10
  kind := .classKind
  name := "Worker"
  byteSize := 32
  bases := [⟨.publicly, true, .user 4⟩, ⟨.privately, false, .user 11⟩]
  typedefs := [⟨12, "Handlers", toFirst⟩]
  members :=
    [⟨13, "depth", .fundamental 7, .privately, 0, none, none⟩,
      ⟨14, "flag", .fundamental 7, .publicly, 4, some 0, some 3⟩,
      ⟨15, "table", toFirst, .publicly, 8, none, none⟩,
      ⟨16, "state", .user 17, .protectedly, 12, none, none⟩]
  functions := [6, 19]

/-- The private member of the structure has a label of its own. -/
def workerState : ClassType where
  offset := 17
  kind := .structKind
  name := ""
  byteSize := 4
  bases := []
  typedefs := []
  members := [⟨18, "owner", .user 4, .privately, 0, none, none⟩]
  functions := []

def worker : Source :=
  { scheduler with
    program :=
      { scheduler.program with
        types := ((scheduler.program.types.insert 10 (.ofClass workerClass)).insert 11
          (plainStruct 11 "Job" [])).insert 17 (.ofClass workerState)
        functions := scheduler.program.functions.insert 19
          { schedulerStart with access := .privately } } }

end Source

end DwarfOne
