/-
# `Proofs.Source.Delimiters` — every bracket has its partner

`Balance` says that brackets are in pairs wherever they are in the types that are
written out.  Written out to a depth they are: at depth nothing is written, and each
level more is made of the one before (`fitsWritten_nestedTo`).  It does not matter which
names cannot be had or where a type would have to be written inside itself, since
nothing is printed then.
-/
import DwarfOne.Proofs.Source.Derivation
import DwarfOne.Proofs.Source.Merging

namespace DwarfOne

open Token

/-- Brackets are looked for among the letters. -/
theorem Token.marks_eq (t : Token) :
    t.marks = t.letters.filterMap fun l => if l.1 = .punctuation then some l.2 else none := by
  rw [marks, letters, List.filterMap_map]
  by_cases hkind : t.kind = .punctuation
  · simp [hkind]
  · simp [hkind]

theorem Token.flatMap_marks (ts : List Token) :
    ts.flatMap marks = (ts.flatMap letters).filterMap fun l =>
      if l.1 = .punctuation then some l.2 else none := by
  rw [List.filterMap_flatMap]
  exact congrArg (ts.flatMap ·) (funext marks_eq)

/-- Putting tokens together opens and closes nothing. -/
theorem Token.after_ofTokens (stack : List Bracket) (ts : List Token) :
    after stack (Code.ofTokens ts).tokens.toList = after stack ts := by
  have hletters : (Code.ofTokens ts).tokens.toList.flatMap letters = ts.flatMap letters :=
    Code.letters_ofTokens ts
  rw [after, after, flatMap_marks, flatMap_marks, hletters]

namespace Source

/-- Whatever goes wrong. -/
abbrev anyError (_ : RenderError) : Prop := True

variable (s : Source)

theorem fits_anyError {nested : Nested} (h : ∀ t, FitsWritten anyError nested nested t)
    (ty : TypeRef) : Fits anyError s nested nested ty :=
  fits_of_base (fun _ _ _ _ => trivial) fun _ t _ _ => h t

theorem fitsWritten_nestedTo (depth : Nat) (t : UserType) :
    FitsWritten anyError (s.nestedTo depth) (s.nestedTo depth) t := by
  induction depth generalizing t with
  | zero => exact fun _ => ⟨0, fun _ => ⟨⟨rfl, trivial⟩, ⟨rfl, trivial⟩⟩⟩
  | succ depth ih =>
      exact fits_written (fun ty _ => s.fits_anyError ih ty) fun _ _ _ _ => trivial

theorem fits_writtenOut_anyError (ty : TypeRef) :
    Fits anyError s s.writtenOut s.writtenOut ty :=
  s.fits_anyError (s.fitsWritten_nestedTo _) ty

theorem fitsAll_anyError : FitsAll anyError s s.writtenOut s.writtenOut where
  types _ _ _ := ⟨fun ty _ => s.fits_writtenOut_anyError ty, fun _ _ _ _ => trivial⟩
  functions _ _ _ := ⟨fun ty _ => s.fits_writtenOut_anyError ty,
    fun l _ => s.fits_writtenOut_anyError l.type, fun _ _ _ _ => trivial⟩
  vars _ v _ := s.fits_writtenOut_anyError v.type

/-- All brackets are in pairs, and the parentheses that stand open before a name are
closed behind it. -/
theorem balanced_of_render :
    (∀ target code, s.render target = .ok code → ∃ tokens, s.tokens target = .ok tokens ∧
        code = .ofTokens tokens ∧ Balanced tokens ∧ Balanced code.tokens.toList) ∧
      ∀ ty, ∃ n, ∀ indent,
        (∀ before, s.front s.writtenOut indent ty = .ok before → Opens n before.tokens) ∧
          ∀ behind, s.back s.writtenOut indent ty = .ok behind → Closes n behind := by
  constructor
  · intro target code hcode
    obtain ⟨tokens, htokens, rfl⟩ := exists_tokens_of_render hcode
    have hbalanced : Balanced tokens := (s.fitsAll_anyError.tokens target).of_ok htokens
    refine ⟨tokens, htokens, rfl, hbalanced, fun stack => ?_⟩
    rw [after_ofTokens, hbalanced]
  · intro ty
    obtain ⟨n, hn⟩ := s.fits_writtenOut_anyError ty
    exact ⟨n, fun indent => ⟨fun _ => (hn indent).front.of_ok, fun _ => (hn indent).back.of_ok⟩⟩

/-- A constructor with a parameter and a variable whose types are written out. -/
def schedulerStart : Function where
  signature :=
    { offset := 6, name := "__ct", returnType := .fundamental 0x14, variadic := false
      parameters :=
        [{ offset := 7, name := "this", type := .user 4, location := none },
          { offset := 8, name := "status", type := .user 3, location := some (.register 3) }] }
  isGlobal := true
  isInline := false
  low := 0x100
  high := 0x108
  owner := some 4
  access := .publicly
  mangled := some "__ct__9SchedulerFi"
  locals := [{ offset := 9, name := "next", type := toHandler, location := some (.register 31) }]
  lines := []

/-- The types of `dispatch` in use: a structure with a table of handlers, one of these as
a variable, and its constructor. -/
def scheduler : Source where
  program :=
    { dispatch.program with
      files :=
        #[{ offset := 0, name := "scheduler.cpp", producer := none, language := none
            directory := none, low := none, high := none, statementList := none
            types := [1, 2, 3, 4], functions := [6], vars := [5], lineTable := none }]
      types := dispatch.program.types.insert 4
        (plainStruct 4 "Scheduler" [("table", toFirst), ("status", .user 3)])
      functions := (∅ : Std.TreeMap UInt32 Function).insert 6 schedulerStart
      vars := (∅ : Std.TreeMap UInt32 Variable).insert 5
        { offset := 5, name := "scheduler", isGlobal := false, type := .user 4
          address := some 0x8000, mangled := none, location := none } }
  settings := .default
  disassembly := none

theorem balanced_scheduler :
    (∃ code tokens, scheduler.render .all = .ok code ∧ scheduler.tokens .all = .ok tokens ∧
        code = .ofTokens tokens ∧ Balanced tokens ∧ Balanced code.tokens.toList) ∧
      ∃ before behind, scheduler.front scheduler.writtenOut 1 toFirst = .ok before ∧
        scheduler.back scheduler.writtenOut 1 toFirst = .ok behind ∧
        Opens 2 before.tokens ∧ Closes 2 behind := by
  obtain ⟨hrender, hsides⟩ := balanced_of_render scheduler
  constructor
  · obtain ⟨code, hcode⟩ : ∃ code, scheduler.render .all = .ok code := ⟨_, rfl⟩
    obtain ⟨tokens, htokens⟩ := hrender .all code hcode
    exact ⟨code, tokens, hcode, htokens⟩
  · obtain ⟨n, hn⟩ := hsides toFirst
    refine ⟨_, _, rfl, rfl, ?_⟩
    have hopens := (hn 1).1 _ rfl
    have hcloses := (hn 1).2 _ rfl
    -- two are open in front of the name
    have hn : List.replicate n Bracket.round ++ [] = [.round, .round] :=
      Option.some.inj ((hopens []).symm.trans (by decide +kernel))
    obtain rfl : n = 2 := by simpa using congrArg List.length hn
    exact ⟨hopens, hcloses⟩

end Source
end DwarfOne
