/-
# `Proofs.Source.BaseClauses` — the bases of a class read back

Behind the name of a class stand its bases, each with the word `virtual` and with its access where
these are shown.  A base without an access has the one that goes with the word the class begins
with (`BaseClause.Shows`).

Bases that are shown by name can be found again: a name has no commas, colons or braces, and does
not begin with any of the words (`Code.baseClauses_ofTokens`).  A type that is written out may have
bases of its own, and then it takes more than the commas to tell them apart.
-/
import DwarfOne.Proofs.Source.Statements

namespace DwarfOne

open Token

/-! ## Bases -/

/-- A base as it is printed: the words before its type, and the type. -/
structure BaseClause where
  isVirtual : Bool
  access : Option Access
  type : List Token
  deriving DecidableEq, Repr

namespace BaseClause

def words (clause : BaseClause) : List Token :=
  (if clause.isVirtual then [ofKeyword "virtual", space] else []) ++
    clause.access.toList.flatMap fun a => [ofKeyword a.keyword, space]

/-- Clauses one after another, with what sets off the first. -/
def listTokens (lead : String) : List BaseClause → List Token
  | [] => []
  | clause :: rest => [ofPunctuation lead] ++ clause.words ++ clause.type ++ listTokens ", " rest

/-- The clause is about the base.  Without a word its access is the one that is not marked. -/
structure Shows (s : Source) (nested : Nested) (indent : Nat) (kind : ClassKind) (b : Base)
    (clause : BaseClause) : Prop where
  type : s.typeName nested indent b.type = .ok clause.type
  isVirtual : clause.isVirtual = b.isVirtual
  access : clause.access.getD kind.implicitAccess = b.access

end BaseClause

namespace Source

theorem prints_ok {α : Type} (x : Except RenderError α) : Prints (fun a => x = .ok a) x := by
  cases x with
  | ok a => exact ⟨rfl, rfl⟩
  | error e => exact ⟨rfl, trivial⟩

theorem prints_bases (s : Source) (nested : Nested) (indent : Nat) (kind : ClassKind)
    (lead : String) (bs : List Base) :
    Prints (fun ts => ∃ clauses, List.Forall₂ (BaseClause.Shows s nested indent kind) bs clauses ∧
      ts = BaseClause.listTokens lead clauses) (s.bases nested indent kind lead bs) := by
  induction bs generalizing lead with
  | nil => exact .pure ⟨[], .nil, rfl⟩
  | cons b rest ih =>
      have hfirst : Prints (fun ts => ∃ clause, BaseClause.Shows s nested indent kind b clause ∧
          ts = [ofPunctuation lead] ++ clause.words ++ clause.type)
          (s.base nested indent kind lead b) := by
        refine (prints_ok _).bind fun type htype => .pure ?_
        refine ⟨⟨b.isVirtual, if b.access ≠ kind.implicitAccess then some b.access else none, type⟩,
          ⟨htype, rfl, ?_⟩, ?_⟩
        · by_cases haccess : b.access = kind.implicitAccess
          · rw [if_neg (not_not_intro haccess), Option.getD_none, haccess]
          · rw [if_pos haccess, Option.getD_some]
        · by_cases haccess : b.access = kind.implicitAccess
          · simp [BaseClause.words, haccess]
          · simp [BaseClause.words, haccess]
      refine hfirst.bind fun first hfirst => ?_
      refine (ih ", ").bind fun others hothers => .pure ?_
      obtain ⟨clause, hclause, rfl⟩ := hfirst
      obtain ⟨clauses, hclauses, rfl⟩ := hothers
      exact ⟨clause :: clauses, .cons hclause hclauses, rfl⟩

end Source

/-! ## Bases that are shown by name -/

def Access.all : List Access :=
  [.publicly, .protectedly, .privately]

namespace BaseClause

/-- A word and a blank. -/
def wordLetters (word : String) : List Letter :=
  [ofKeyword word, space].flatMap letters

/-- Whether a clause is virtual, and the access it shows. -/
def ofLetters (ls : List Letter) : Bool × Option Access :=
  let ls := ls.dropWhile (!isBare ·)
  let isVirtual := (wordLetters "virtual").isPrefixOf ls
  let rest :=
    if isVirtual then (ls.drop (wordLetters "virtual").length).dropWhile (!isBare ·) else ls
  (isVirtual, Access.all.find? fun a => (wordLetters a.keyword).isPrefixOf rest)

end BaseClause

/-- The clauses between the colon behind the name of a class and its body. -/
def Code.baseClauses (code : Code) : List (Bool × Option Access) :=
  let head := code.letters.takeWhile (· ≠ (.punctuation, '\x7b'))
  match head.dropWhile (· ≠ (.punctuation, ':')) with
  | [] => []
  | _ :: rest => (rest.splitOnP (· = (.punctuation, ','))).map BaseClause.ofLetters

namespace BaseClause

/-- None of the words stands in front. -/
def Wordless (ls : List Letter) : Prop :=
  ∀ word ∈ "virtual" :: Access.all.map Access.keyword,
    (wordLetters word).isPrefixOf (ls.dropWhile (!isBare ·)) = false

theorem wordless_of_head {ls : List Letter}
    (h : ∀ l ∈ (ls.dropWhile (!isBare ·)).head?, l.1 ≠ .keyword) : Wordless ls := by
  intro word hword
  obtain ⟨c, rest, hletters⟩ : ∃ c rest, wordLetters word = (.keyword, c) :: rest := by
    simp only [Access.all, List.map_cons, List.map_nil, List.mem_cons, List.not_mem_nil,
      or_false] at hword
    rcases hword with rfl | rfl | rfl | rfl
    · exact ⟨'v', _, rfl⟩
    · exact ⟨'p', _, rfl⟩
    · exact ⟨'p', _, rfl⟩
    · exact ⟨'p', _, rfl⟩
  rw [Bool.eq_false_iff]
  intro hfirst
  obtain ⟨tail, htail⟩ := List.isPrefixOf_iff_prefix.mp hfirst
  rw [hletters] at htail
  exact h (.keyword, c) (by rw [← htail]; rfl) rfl

/-- The words of a clause are read if none of them begins what follows. -/
theorem ofLetters_words (clause : BaseClause) {ls : List Letter} (h : Wordless ls) :
    ofLetters (space.letters ++ (clause.words.flatMap letters ++ ls)) =
      (clause.isVirtual, clause.access) := by
  have hvirtual := h "virtual" List.mem_cons_self
  have hnone : Access.all.find? (fun a => (wordLetters a.keyword).isPrefixOf
      (ls.dropWhile (!isBare ·))) = none := by
    rw [List.find?_eq_none]
    intro a ha
    rw [h a.keyword (List.mem_cons_of_mem _ (List.mem_map_of_mem ha))]
    exact Bool.false_ne_true
  have haccess : ∀ a : Access, Access.all.find? (fun b => (wordLetters b.keyword).isPrefixOf
      ((wordLetters a.keyword ++ ls).dropWhile (!isBare ·))) = some a := by
    intro a
    cases a with
    | publicly => rfl
    | protectedly => rfl
    | privately => rfl
  obtain ⟨isVirtual, access, type⟩ := clause
  cases isVirtual with
  | true =>
      cases access with
      | none => exact congrArg (Prod.mk true) hnone
      | some a => exact congrArg (Prod.mk true) (haccess a)
  | false =>
      cases access with
      | none =>
          have hread : ofLetters (space.letters ++ ls) = (false, none) := by
            rw [ofLetters, List.dropWhile_append_of_pos (by decide), hvirtual]
            exact congrArg (Prod.mk false) hnone
          exact hread
      | some a =>
          have hread : ofLetters (space.letters ++ (wordLetters a.keyword ++ ls)) =
              (false, some a) := by
            cases a with
            | publicly => rfl
            | protectedly => rfl
            | privately => rfl
          exact hread

theorem wordless_blank {ls : List Letter} (h : ls.filter isBare = []) : Wordless ls := by
  refine wordless_of_head ?_
  have hdrop : ls.dropWhile (!isBare ·) = [] := by
    rw [← List.append_nil ls, dropWhile_blank h]
    rfl
  rw [hdrop]
  exact fun _ hl => absurd hl (Option.not_mem_none _)

theorem wordless_cons {l : Letter} {ls : List Letter} (hbare : isBare l = true)
    (hl : l.1 ≠ .keyword) : Wordless (l :: ls) := by
  refine wordless_of_head fun l' hl' => ?_
  rw [List.dropWhile_cons_of_neg (by simp [hbare]), List.head?_cons, Option.mem_some_iff] at hl'
  exact hl' ▸ hl

theorem wordless_qualifier (text : String) (htext : text ∈ ["const", "volatile"])
    (ls : List Letter) : Wordless ((ofKeyword text).letters ++ ls) := by
  intro word hword
  simp only [Access.all, List.map_cons, List.map_nil, List.mem_cons, List.not_mem_nil,
    or_false] at hword htext
  rcases htext with rfl | rfl
  · rcases hword with rfl | rfl | rfl | rfl <;> rfl
  · rcases hword with rfl | rfl | rfl | rfl <;> rfl

theorem wordless_baseQualifiers (ty : TypeRef) {ls : List Letter} (h : Wordless ls) :
    Wordless ((Source.baseQualifiers ty).flatMap letters ++ ls) := by
  obtain ⟨base, isConst, isVolatile, ms⟩ := ty
  cases isConst with
  | true =>
      cases isVolatile with
      | true => exact wordless_qualifier "const" (by decide) _
      | false => exact wordless_qualifier "const" (by decide) _
  | false =>
      cases isVolatile with
      | true => exact wordless_qualifier "volatile" (by decide) _
      | false => exact h

/-- The type is a name, with qualifiers and marks. -/
def IsNamed (clause : BaseClause) : Prop :=
  ∃ ty name, clause.type =
    Source.baseQualifiers ty ++ [ofIdentifier name] ++ Source.modifiers ty.modifiers

variable {clause : BaseClause}

theorem IsNamed.wordless (h : clause.IsNamed) {tail : List Letter}
    (htail : tail.filter isBare = []) : Wordless (clause.type.flatMap letters ++ tail) := by
  obtain ⟨ty, name, htype⟩ := h
  simp only [htype, List.flatMap_append, List.flatMap_singleton, List.append_assoc]
  refine wordless_baseQualifiers ty ?_
  cases hname : (ofIdentifier name).letters with
  | cons l rest =>
      have hl : l.1 = .identifier :=
        kind_of_mem_letters (t := ofIdentifier name) (hname ▸ List.mem_cons_self)
      exact wordless_cons (by simp [isBare, hl]) (by simp [hl])
  | nil =>
      cases ty.modifiers with
      | nil => exact wordless_blank htail
      | cons m rest =>
          cases hkind : m.kind with
          | pointer =>
              rw [Source.modifiers, hkind]
              exact wordless_cons (by decide) (by decide)
          | reference =>
              rw [Source.modifiers, hkind]
              exact wordless_cons (by decide) (by decide)

theorem IsNamed.lacks (h : clause.IsNamed) {c : Char} (hc : c ∉ [' ', '*', '&']) :
    Lacks c clause.type := by
  obtain ⟨ty, name, htype⟩ := h
  have hspace : c ≠ ' ' := fun h => hc (by simp [h])
  rw [htype]
  simp [hc, hspace]

theorem lacks_words (clause : BaseClause) {c : Char} (hc : c ≠ ' ') : Lacks c clause.words := by
  obtain ⟨isVirtual, access, type⟩ := clause
  cases access <;> simp [words, space, ofPunctuation, hc]

theorem IsNamed.ne_comma (h : clause.IsNamed) :
    ∀ l ∈ space.letters ++ (clause.words.flatMap letters ++ clause.type.flatMap letters),
      decide (l = (.punctuation, ',')) = false := by
  have hlacks : Lacks ',' ([space] ++ (clause.words ++ clause.type)) := by
    rw [lacks_append, lacks_append]
    exact ⟨by simp [space, ofPunctuation], clause.lacks_words (by decide), h.lacks (by decide)⟩
  intro l hl
  refine decide_eq_false fun hcomma => hlacks.notMem ?_
  rw [← hcomma]
  simpa only [List.flatMap_append, List.flatMap_singleton] using hl

/-- Whether the clause is virtual, and the access it shows. -/
def marks (clause : BaseClause) : Bool × Option Access :=
  (clause.isVirtual, clause.access)

/-- The commas behind which there are clauses are all there are. -/
theorem map_ofLetters_splitOnP (clause : BaseClause) {rest : List BaseClause} {tail : List Letter}
    (hnamed : ∀ clause' ∈ clause :: rest, clause'.IsNamed) (htail : tail.filter isBare = []) :
    ((space.letters ++ (clause.words.flatMap letters ++ (clause.type.flatMap letters ++
        ((listTokens ", " rest).flatMap letters ++ tail)))).splitOnP
          (· = (.punctuation, ','))).map ofLetters = (clause :: rest).map marks := by
  induction rest generalizing clause with
  | nil =>
      have hclause := hnamed clause List.mem_cons_self
      have hread := clause.ofLetters_words (hclause.wordless htail)
      have hpiece : ∀ l ∈ space.letters ++ (clause.words.flatMap letters ++
          (clause.type.flatMap letters ++ tail)), decide (l = (.punctuation, ',')) = false := by
        intro l hl
        simp only [← List.append_assoc] at hl
        rcases List.mem_append.mp hl with hl | hl
        · refine hclause.ne_comma l ?_
          simpa only [List.append_assoc] using hl
        · refine decide_eq_false fun hcomma => List.filter_eq_nil_iff.mp htail l hl ?_
          rw [hcomma]
          decide
      rw [listTokens, List.flatMap_nil, List.nil_append, List.splitOnP_eq_singleton hpiece,
        List.map_singleton, hread]
      rfl
  | cons next rest ih =>
      obtain ⟨hclause, hrest⟩ := List.forall_mem_cons.mp hnamed
      have hnothing : ([] : List Letter).filter isBare = [] := rfl
      have hread := clause.ofLetters_words (hclause.wordless hnothing)
      rw [List.append_nil] at hread
      have hsplit : space.letters ++ (clause.words.flatMap letters ++
          (clause.type.flatMap letters ++
            ((listTokens ", " (next :: rest)).flatMap letters ++ tail))) =
          (space.letters ++ (clause.words.flatMap letters ++ clause.type.flatMap letters)) ++
            (.punctuation, ',') :: (space.letters ++ (next.words.flatMap letters ++
              (next.type.flatMap letters ++
                ((listTokens ", " rest).flatMap letters ++ tail)))) := by
        simp only [listTokens, List.flatMap_append, List.append_assoc]
        rfl
      rw [hsplit, List.splitOnP_append_cons_of_forall_mem hclause.ne_comma _ rfl, List.map_cons,
        hread, ih next hrest]
      rfl

theorem lacks_listTokens {c : Char} (hc : c ∉ [' ', '*', '&', ',']) {lead : String}
    (hlead : c ∉ lead.toList) {clauses : List BaseClause} (h : ∀ clause ∈ clauses, clause.IsNamed) :
    Lacks c (listTokens lead clauses) := by
  induction clauses generalizing lead with
  | nil => exact lacks_nil
  | cons clause clauses ih =>
      have hword : c ≠ ' ' := fun h => hc (by simp [h])
      have htype : c ∉ [' ', '*', '&'] := fun h => hc (by simp_all)
      obtain ⟨hfirst, hrest⟩ := List.forall_mem_cons.mp h
      have hothers : Lacks c (listTokens ", " clauses) := ih (by simp_all) hrest
      rw [listTokens, lacks_append, lacks_append, lacks_append]
      exact ⟨⟨⟨by simp [ofPunctuation, hlead], clause.lacks_words hword⟩, hfirst.lacks htype⟩,
        hothers⟩

theorem isNamed_of_shows {s : Source} {nested : Nested} {indent : Nat} {kind : ClassKind} {b : Base}
    {o : UInt32} (h : Shows s nested indent kind b clause) (hbase : b.type.base = .user o)
    (hfound : s.inlined? o = .ok none) : clause.IsNamed := by
  obtain ⟨name, hname, -⟩ := Source.exists_nameOf_of_inlined? hfound
  have htype := h.type
  rw [Source.typeName, Source.front_named hbase hfound hname, Source.back_named hbase hfound]
    at htype
  exact ⟨b.type, name, (Except.ok.inj htype).symm.trans (List.append_nil _)⟩

theorem map_access_of_forall₂ {s : Source} {nested : Nested} {indent : Nat} {kind : ClassKind}
    {bs : List Base} {clauses : List BaseClause}
    (h : List.Forall₂ (Shows s nested indent kind) bs clauses) :
    clauses.map (fun clause => clause.access.getD kind.implicitAccess) = bs.map Base.access := by
  induction h with
  | nil => rfl
  | cons hfirst _ ih => rw [List.map_cons, List.map_cons, hfirst.access, ih]

theorem isNamed_of_forall₂ {s : Source} {nested : Nested} {indent : Nat} {kind : ClassKind}
    {bs : List Base} {clauses : List BaseClause}
    (h : List.Forall₂ (Shows s nested indent kind) bs clauses)
    (hbases : ∀ b ∈ bs, ∃ o, b.type.base = .user o ∧ s.inlined? o = .ok none) :
    ∀ clause ∈ clauses, clause.IsNamed := by
  induction h with
  | nil => exact fun _ hclause => absurd hclause List.not_mem_nil
  | cons hfirst _ ih =>
      obtain ⟨⟨o, hbase, hfound⟩, hrest⟩ := List.forall_mem_cons.mp hbases
      exact List.forall_mem_cons.mpr ⟨isNamed_of_shows hfirst hbase hfound, ih hrest⟩

end BaseClause

theorem Lacks.decide_ne {c : Char} {ts : List Token} (h : Lacks c ts) :
    ∀ l ∈ ts.flatMap letters, decide (l ≠ (.punctuation, c)) = true := by
  intro l hl
  refine decide_eq_true fun hmark => h.notMem ?_
  rwa [← hmark]

/-- The clauses of bases that are shown by name are found between the colon and the body. -/
theorem Code.baseClauses_ofTokens {before : List Token} {clauses : List BaseClause}
    (hcolon : Lacks ':' before) (hbrace : Lacks '\x7b' before)
    (hnamed : ∀ clause ∈ clauses, clause.IsNamed) (indent : Nat) (behind : List Token) :
    (ofTokens (before ++ BaseClause.listTokens " : " clauses ++ newline indent ++
      [ofPunctuation "\x7b"] ++ behind)).baseClauses = clauses.map BaseClause.marks := by
  have hlist : Lacks '\x7b' (before ++ BaseClause.listTokens " : " clauses ++ newline indent) := by
    rw [lacks_append, lacks_append]
    exact ⟨⟨hbrace, BaseClause.lacks_listTokens (by decide) (by decide) hnamed⟩,
      Source.lacks_newline (by decide) indent⟩
  have hhead : (ofTokens (before ++ BaseClause.listTokens " : " clauses ++ newline indent ++
      [ofPunctuation "\x7b"] ++ behind)).letters.takeWhile (· ≠ (.punctuation, '\x7b')) =
        (before ++ BaseClause.listTokens " : " clauses ++ newline indent).flatMap
          Token.letters := by
    rw [letters_ofTokens, List.append_assoc, List.flatMap_append,
      List.takeWhile_append_of_pos hlist.decide_ne]
    exact List.append_nil _
  have hskip : ∀ ls, (before.flatMap Token.letters ++ ls).dropWhile (· ≠ (.punctuation, ':')) =
      ls.dropWhile (· ≠ (.punctuation, ':')) := fun ls =>
    List.dropWhile_append_of_pos hcolon.decide_ne
  rw [baseClauses, hhead, List.flatMap_append, List.flatMap_append, List.append_assoc, hskip]
  cases clauses with
  | nil =>
      have hline : ((newline indent).flatMap Token.letters).dropWhile
          (· ≠ (.punctuation, ':')) = [] := by
        rw [← List.append_nil ((newline indent).flatMap Token.letters),
          List.dropWhile_append_of_pos (Source.lacks_newline (by decide) indent).decide_ne]
        rfl
      rw [BaseClause.listTokens, List.flatMap_nil, List.nil_append, hline]
      rfl
  | cons clause rest =>
      have hsplit := clause.map_ofLetters_splitOnP hnamed (Source.bareLetters_newline indent)
      simp only [BaseClause.listTokens, List.flatMap_append, List.append_assoc]
      exact hsplit

end DwarfOne
