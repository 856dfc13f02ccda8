/-
# `Proofs.Program.Passes` — what each pass does to the program

Three passes make a program out of units.  The first enters what the units
declare, and of two entries with one offset the later stands.  The second gives
classes their functions and touches nothing else; `LinkedBy` says exactly which
functions.  The third gives out lines, so all that can differ afterwards is the
lines of functions and the line tables of files: `LinesAside`.
-/
import DwarfOne.Proofs.Program.Lines

namespace DwarfOne

/-! ## Entries by offset -/

/-- Enters every item of a list under its offset. -/
def insertAll {α : Type} (offset : α → UInt32) (m : Std.TreeMap UInt32 α) (items : List α) :
    Std.TreeMap UInt32 α :=
  items.foldl (fun m a => m.insert (offset a) a) m

section InsertAll

variable {α : Type} {offset : α → UInt32} {m : Std.TreeMap UInt32 α}

theorem insertAll_append (items items' : List α) :
    insertAll offset m (items ++ items') = insertAll offset (insertAll offset m items) items' :=
  List.foldl_append

/-- The last item with an offset is the one found. -/
theorem getElem?_insertAll {o : UInt32} : ∀ (items : List α) (m : Std.TreeMap UInt32 α),
    (insertAll offset m items)[o]? = (items.reverse.find? (offset · = o)).or m[o]?
  | [], _ => rfl
  | a :: items, m => by
      have hinsert : (m.insert (offset a) a)[o]? = ([a].find? (offset · = o)).or m[o]? := by
        rw [Std.TreeMap.getElem?_insert, List.find?_singleton]
        by_cases h : offset a = o
        · simp [h]
        · simp [h]
      rw [List.reverse_cons, List.find?_append, Option.or_assoc, ← hinsert]
      exact getElem?_insertAll items _

theorem mem_of_getElem?_insertAll {items : List α} {o : UInt32} {a : α}
    (h : (insertAll offset ∅ items)[o]? = some a) : a ∈ items ∧ offset a = o := by
  rw [getElem?_insertAll, Std.TreeMap.getElem?_emptyc, Option.or_none] at h
  exact ⟨List.mem_reverse.mp (List.mem_of_find?_eq_some h), by simpa using List.find?_some h⟩

theorem exists_getElem?_of_mem {o : UInt32} (h : o ∈ m) : ∃ a, m[o]? = some a :=
  Option.isSome_iff_exists.mp (Std.TreeMap.mem_iff_isSome_getElem?.mp h)

end InsertAll

namespace Program

/-! ## Units -/

theorem foldl_addPart : ∀ (parts : List UnitPart) (p : Program), parts.foldl addPart p =
    { p with
      types := insertAll UserType.offset p.types (parts.filterMap UnitPart.asType?)
      functions := insertAll Function.offset p.functions (parts.filterMap UnitPart.asFunction?)
      vars := insertAll Variable.offset p.vars (parts.filterMap UnitPart.asVariable?) }
  | [], _ => rfl
  | .ofType _ :: parts, _ => foldl_addPart parts _
  | .ofFunction _ :: parts, _ => foldl_addPart parts _
  | .ofVariable _ :: parts, _ => foldl_addPart parts _

/-- What all units declare, as far as a view picks it. -/
def declared {α : Type} (pick : UnitPart → Option α) (units : List CompileUnit) : List α :=
  units.flatMap fun u => u.parts.filterMap pick

theorem foldl_addUnit : ∀ (units : List CompileUnit) (p : Program), units.foldl addUnit p =
    { p with
      files := p.files ++ (units.map CompileUnit.file).toArray
      types := insertAll UserType.offset p.types (declared UnitPart.asType? units)
      functions := insertAll Function.offset p.functions (declared UnitPart.asFunction? units)
      vars := insertAll Variable.offset p.vars (declared UnitPart.asVariable? units)
      paths := (units.foldl addUnit p).paths }
  | [], p => by simp [declared, insertAll]
  | u :: units, p => by
      rw [List.foldl_cons, foldl_addUnit units]
      simp [addUnit, foldl_addPart, declared, insertAll_append]

/-- A program with the units of a section entered. -/
def entered (d : DebugInfo) (units : List CompileUnit) : Program :=
  units.foldl addUnit (empty d)

theorem entered_eq (d : DebugInfo) (units : List CompileUnit) : entered d units =
    { debug := d
      files := (units.map CompileUnit.file).toArray
      types := insertAll UserType.offset ∅ (declared UnitPart.asType? units)
      functions := insertAll Function.offset ∅ (declared UnitPart.asFunction? units)
      vars := insertAll Variable.offset ∅ (declared UnitPart.asVariable? units)
      paths := (entered d units).paths } := by
  rw [entered, foldl_addUnit]
  simp [empty]

end Program

/-! ## Member functions -/

/-- A class with more functions.  Other types have none. -/
def UserType.addFunctions (functions : List UInt32) : UserType → UserType
  | ofClass c => ofClass { c with functions := c.functions ++ functions }
  | t => t

namespace UserType

@[simp] theorem addFunctions_nil : addFunctions [] = id := by
  funext t
  cases t <;> simp [addFunctions]

@[simp] theorem addFunctions_addFunctions (t : UserType) (functions functions' : List UInt32) :
    (t.addFunctions functions).addFunctions functions' =
      t.addFunctions (functions ++ functions') := by
  cases t <;> simp [addFunctions]

@[simp] theorem offset_addFunctions (t : UserType) (functions : List UInt32) :
    (t.addFunctions functions).offset = t.offset := by
  cases t <;> rfl

@[simp] theorem tag_addFunctions (t : UserType) (functions : List UInt32) :
    (t.addFunctions functions).tag = t.tag := by
  cases t <;> rfl

def isClass : UserType → Bool
  | ofClass _ => true
  | _ => false

@[simp] theorem isClass_addFunctions (t : UserType) (functions : List UInt32) :
    (t.addFunctions functions).isClass = t.isClass := by
  cases t <;> rfl

theorem isClass_iff {t : UserType} : t.isClass = true ↔ ∃ c, t = ofClass c := by
  cases t <;> simp [isClass]

end UserType

namespace Program

/-- Whether there is a class at an offset. -/
def hasClass (p : Program) (o : UInt32) : Bool :=
  p.types[o]?.any UserType.isClass

theorem hasClass_iff {p : Program} {o : UInt32} :
    p.hasClass o = true ↔ ∃ c, p.types[o]? = some (.ofClass c) := by
  rw [hasClass, Option.any_eq_true]
  constructor
  · rintro ⟨t, ht, hclass⟩
    obtain ⟨c, rfl⟩ := UserType.isClass_iff.mp hclass
    exact ⟨c, ht⟩
  · rintro ⟨c, hc⟩
    exact ⟨_, hc, rfl⟩

/-- The functions that links give to a class. -/
def linkedTo (owner : UInt32) (links : List (UInt32 × UInt32)) : List UInt32 :=
  (links.filter (·.2 = owner)).map Prod.fst

theorem linkedTo_append (owner : UInt32) (links links' : List (UInt32 × UInt32)) :
    linkedTo owner (links ++ links') = linkedTo owner links ++ linkedTo owner links' := by
  rw [linkedTo, List.filter_append, List.map_append]
  rfl

/-- The warnings about links that lead to no class. -/
def unlinked (p : Program) (links : List (UInt32 × UInt32)) : List Diagnostic :=
  (links.filter (!p.hasClass ·.2)).map fun link => notAClass link.1 link.2

/-- Each class got the functions that the links give it, and that is all. -/
structure LinkedBy (links : List (UInt32 × UInt32)) (p p' : Program) : Prop where
  eq_types : p' = { p with types := p'.types }
  types : ∀ o : UInt32, p'.types[o]? = p.types[o]?.map (UserType.addFunctions (linkedTo o links))

namespace LinkedBy

variable {links links' : List (UInt32 × UInt32)} {p p' p'' : Program}

theorem nil (p : Program) : LinkedBy [] p p :=
  ⟨rfl, fun o => by simp [linkedTo]⟩

theorem trans (h : LinkedBy links p p') (h' : LinkedBy links' p' p'') :
    LinkedBy (links ++ links') p p'' := by
  constructor
  · rw [h'.eq_types, h.eq_types]
  · intro o
    rw [h'.types, h.types, Option.map_map, linkedTo_append]
    congr 1
    funext t
    exact t.addFunctions_addFunctions _ _

theorem hasClass_eq (h : LinkedBy links p p') : p'.hasClass = p.hasClass := by
  funext o
  rw [hasClass, hasClass, h.types, Option.any_map]
  congr 1
  funext t
  exact t.isClass_addFunctions _

end LinkedBy

theorem exists_gives_linkMember (p : Program) (function owner : UInt32) : ∃ p',
    (p.linkMember function owner).Gives p' (p.unlinked [(function, owner)]) ∧
      LinkedBy [(function, owner)] p p' := by
  unfold linkMember
  split
  case h_1 c hc =>
      have hclass : p.hasClass owner = true := hasClass_iff.mpr ⟨c, hc⟩
      have hunlinked : p.unlinked [(function, owner)] = [] := by simp [unlinked, hclass]
      rw [hunlinked]
      refine ⟨_, Build.gives_pure _, rfl, fun o => ?_⟩
      rw [Std.TreeMap.getElem?_insert]
      by_cases ho : owner = o
      · subst ho
        simp [linkedTo, hc, UserType.addFunctions]
      · simp [linkedTo, ho]
  case h_2 hnone =>
      have hclass : p.hasClass owner = false := by
        rw [Bool.eq_false_iff]
        intro h
        obtain ⟨c, hc⟩ := hasClass_iff.mp h
        exact hnone c hc
      have hunlinked : p.unlinked [(function, owner)] = [notAClass function owner] := by
        simp [unlinked, hclass]
      rw [hunlinked]
      refine ⟨p, (Build.gives_warn _).bind (Build.gives_pure p), rfl, fun o => ?_⟩
      by_cases ho : owner = o
      · subst ho
        cases ht : p.types[owner]? with
        | none => rfl
        | some t =>
            cases t with
            | ofClass c => exact absurd ht (hnone c)
            | _ => rfl
      · simp [linkedTo, ho]

theorem exists_gives_linkAll : ∀ (links : List (UInt32 × UInt32)) (p : Program), ∃ p',
    Build.Gives (links.foldlM (fun p link => p.linkMember link.1 link.2) p) p' (p.unlinked links) ∧
      LinkedBy links p p'
  | [], p => ⟨p, Build.gives_pure p, .nil p⟩
  | link :: links, p => by
      obtain ⟨p₁, hfirst, hlinked⟩ := exists_gives_linkMember p link.1 link.2
      obtain ⟨p', hrest, hlinked'⟩ := exists_gives_linkAll links p₁
      refine ⟨p', ?_, hlinked.trans hlinked'⟩
      have hunlinked : p.unlinked (link :: links) =
          p.unlinked [(link.1, link.2)] ++ p₁.unlinked links := by
        rw [unlinked, unlinked, unlinked, hlinked.hasClass_eq, ← List.map_append,
          ← List.filter_append]
        rfl
      rw [List.foldlM_cons, hunlinked]
      exact hfirst.bind hrest

/-- Linking gives each class the functions that say they are its members, and
warns of the rest. -/
theorem exists_gives_linkMembers (p : Program) : ∃ p',
    p.linkMembers.Gives p' (p.unlinked p.memberLinks) ∧ LinkedBy p.memberLinks p p' :=
  exists_gives_linkAll p.memberLinks p

/-- Only functions the program has are linked. -/
theorem mem_functions_of_mem_linkedTo {p : Program} {owner g : UInt32}
    (h : g ∈ linkedTo owner p.memberLinks) : g ∈ p.functions := by
  obtain ⟨link, hlink, rfl⟩ := List.mem_map.mp h
  obtain ⟨file, -, hlink⟩ := List.mem_flatMap.mp (List.mem_filter.mp hlink).1
  obtain ⟨o, -, heq⟩ := List.mem_filterMap.mp hlink
  obtain ⟨owner, howner, rfl⟩ := Option.map_eq_some_iff.mp heq
  obtain ⟨f, hf, -⟩ := Option.bind_eq_some_iff.mp howner
  exact Std.TreeMap.mem_iff_isSome_getElem?.mpr (by rw [hf]; rfl)

/-! ## Building -/

theorem walk_eq_ok_iff [RangeMap UInt32] {d : DebugInfo} {kept kept' : Diagnostics} {p : Program} :
    walk d kept = .ok (p, kept') ↔ ∃ read afterUnits linked afterLinks,
      readUnits d kept = .ok (read, afterUnits) ∧
      read.linkMembers afterUnits = .ok (linked, afterLinks) ∧
      linked.assignLines afterLinks = .ok (p, kept') := by
  rw [walk, Build.bind_eq_ok_iff]
  constructor
  · rintro ⟨read, afterUnits, hread, h⟩
    obtain ⟨linked, afterLinks, hlinked, hlines⟩ := Build.bind_eq_ok_iff.mp h
    exact ⟨read, afterUnits, linked, afterLinks, hread, hlinked, hlines⟩
  · rintro ⟨read, afterUnits, linked, afterLinks, hread, hlinked, hlines⟩
    exact ⟨read, afterUnits, hread, Build.bind_eq_ok_iff.mpr ⟨linked, afterLinks, hlinked, hlines⟩⟩

theorem readUnits_eq_ok_iff {d : DebugInfo} {kept kept' : Diagnostics} {p : Program} :
    readUnits d kept = .ok (p, kept') ↔ ∃ units,
      Build.gather CompileUnit.ofRoot (d.roots.map (Entry.mk d)) kept = .ok (units, kept') ∧
      p = entered d units := by
  rw [readUnits, Build.bind_eq_ok_iff]
  constructor
  · rintro ⟨units, between, hunits, h⟩
    cases h
    exact ⟨units, hunits, rfl⟩
  · rintro ⟨units, hunits, rfl⟩
    exact ⟨units, kept', hunits, rfl⟩

/-- The units of a program were read from records of the section. -/
theorem exists_readFrom_of_gather {d : DebugInfo} {units : List CompileUnit}
    {kept kept' : Diagnostics}
    (h : Build.gather CompileUnit.ofRoot (d.roots.map (Entry.mk d)) kept = .ok (units, kept')) :
    ∀ u ∈ units, ∃ e : Entry, e.debug = d ∧ u.ReadFrom e := by
  intro u hu
  obtain ⟨e, he, -, hread⟩ :=
    Build.yields_gather (fun e _ => CompileUnit.yields_ofRoot e) kept units kept' h u hu
  obtain ⟨i, -, rfl⟩ := List.mem_map.mp he
  exact ⟨_, rfl, hread⟩

/-- Before the last pass no file has a line table. -/
theorem lineTable_of_linkedBy {d : DebugInfo} {units : List CompileUnit}
    (hunits : ∀ u ∈ units, ∃ e : Entry, e.debug = d ∧ u.ReadFrom e)
    {links : List (UInt32 × UInt32)} {linked : Program}
    (hlinks : LinkedBy links (entered d units) linked) :
    ∀ file ∈ linked.files, file.lineTable = none := by
  intro file hfile
  rw [hlinks.eq_types, entered_eq] at hfile
  obtain ⟨u, hu, rfl⟩ := List.mem_map.mp (List.mem_toArray.mp hfile)
  obtain ⟨e, -, hread⟩ := hunits u hu
  exact hread.lineTable_eq

/-- What each of the three passes made. -/
structure Passed (d : DebugInfo) (units : List CompileUnit) (linked p : Program) : Prop where
  readFrom : ∀ u ∈ units, ∃ e : Entry, e.debug = d ∧ u.ReadFrom e
  members : LinkedBy (entered d units).memberLinks (entered d units) linked
  lines : LinesGiven linked linked.files.size p

/-- The two passes over units that have been entered, and the warnings each adds. -/
theorem exists_gives_passes [RangeMap UInt32] {d : DebugInfo} {units : List CompileUnit}
    (hunits : ∀ u ∈ units, ∃ e : Entry, e.debug = d ∧ u.ReadFrom e) : ∃ linked p,
      (entered d units).linkMembers.Gives linked
        ((entered d units).unlinked (entered d units).memberLinks) ∧
      linked.assignLines.Gives p (linked.settled.flatMap linked.outsideOf) ∧
      Passed d units linked p := by
  obtain ⟨linked, hlinks, hmembers⟩ := exists_gives_linkMembers (entered d units)
  obtain ⟨p, hlines, hgiven⟩ := exists_gives_assignLines (lineTable_of_linkedBy hunits hmembers)
  exact ⟨linked, p, hlinks, hlines, hunits, hmembers, hgiven⟩

/-- The three passes one after the other. -/
theorem exists_passed [RangeMap UInt32] {d : DebugInfo}
    {kept afterUnits afterLinks kept' : Diagnostics} {read linked p : Program}
    (hread : readUnits d kept = .ok (read, afterUnits))
    (hlinks : read.linkMembers afterUnits = .ok (linked, afterLinks))
    (hlines : linked.assignLines afterLinks = .ok (p, kept')) :
    ∃ units, Build.gather CompileUnit.ofRoot (d.roots.map (Entry.mk d)) kept =
        .ok (units, afterUnits) ∧
      read = entered d units ∧ read.linkMembers.Gives linked (read.unlinked read.memberLinks) ∧
      Passed d units linked p := by
  obtain ⟨units, hgather, rfl⟩ := readUnits_eq_ok_iff.mp hread
  obtain ⟨linked', p', hgives, hgives', hpassed⟩ :=
    exists_gives_passes (exists_readFrom_of_gather hgather)
  obtain ⟨rfl, -⟩ := hgives.eq_of_ok hlinks
  obtain ⟨rfl, -⟩ := hgives'.eq_of_ok hlines
  exact ⟨units, hgather, rfl, hgives, hpassed⟩

theorem exists_passed_of_walk [RangeMap UInt32] {d : DebugInfo} {kept kept' : Diagnostics}
    {p : Program} (h : walk d kept = .ok (p, kept')) : ∃ units afterUnits linked,
      Build.gather CompileUnit.ofRoot (d.roots.map (Entry.mk d)) kept = .ok (units, afterUnits) ∧
      Passed d units linked p := by
  obtain ⟨read, afterUnits, linked, afterLinks, hread, hlinks, hlines⟩ := walk_eq_ok_iff.mp h
  obtain ⟨units, hgather, -, -, hpassed⟩ := exists_passed hread hlinks hlines
  exact ⟨units, afterUnits, linked, hgather, hpassed⟩

/-! ## Where entries come from -/

/-- What a unit declares was read from a record that is a child of another. -/
structure Declared (d : DebugInfo) (part : UnitPart) (e : Entry) : Prop where
  debug_eq : e.debug = d
  child : ∃ unit : Entry, e ∈ unit.children
  readFrom : part.ReadFrom e

theorem exists_declared {d : DebugInfo} {units : List CompileUnit}
    (hunits : ∀ u ∈ units, ∃ e : Entry, e.debug = d ∧ u.ReadFrom e) {α : Type}
    {pick : UnitPart → Option α} {a : α} (ha : a ∈ declared pick units) :
    ∃ part e, pick part = some a ∧ Declared d part e := by
  obtain ⟨u, hu, ha⟩ := List.mem_flatMap.mp ha
  obtain ⟨part, hpart, hpick⟩ := List.mem_filterMap.mp ha
  obtain ⟨e, hdebug, hread⟩ := hunits u hu
  obtain ⟨child, hchild, hread⟩ := hread.parts part hpart
  exact ⟨part, child, hpick, (Entry.debug_of_mem_children hchild).trans hdebug, ⟨e, hchild⟩, hread⟩

section Entered

variable {d : DebugInfo} {units : List CompileUnit}
  (hunits : ∀ u ∈ units, ∃ e : Entry, e.debug = d ∧ u.ReadFrom e)
include hunits

theorem exists_declared_type {o : UInt32} {t : UserType}
    (ht : (entered d units).types[o]? = some t) :
    t.offset = o ∧ ∃ e, Declared d (.ofType t) e := by
  rw [entered_eq] at ht
  obtain ⟨hmem, hoffset⟩ := mem_of_getElem?_insertAll ht
  obtain ⟨part, e, hpick, hdeclared⟩ := exists_declared hunits hmem
  obtain rfl := UnitPart.asType?_eq_some_iff.mp hpick
  exact ⟨hoffset, e, hdeclared⟩

theorem exists_declared_function {o : UInt32} {f : Function}
    (hf : (entered d units).functions[o]? = some f) :
    f.offset = o ∧ ∃ e, Declared d (.ofFunction f) e := by
  rw [entered_eq] at hf
  obtain ⟨hmem, hoffset⟩ := mem_of_getElem?_insertAll hf
  obtain ⟨part, e, hpick, hdeclared⟩ := exists_declared hunits hmem
  obtain rfl := UnitPart.asFunction?_eq_some_iff.mp hpick
  exact ⟨hoffset, e, hdeclared⟩

theorem exists_declared_variable {o : UInt32} {v : Variable}
    (hv : (entered d units).vars[o]? = some v) :
    v.offset = o ∧ ∃ e, Declared d (.ofVariable v) e := by
  rw [entered_eq] at hv
  obtain ⟨hmem, hoffset⟩ := mem_of_getElem?_insertAll hv
  obtain ⟨part, e, hpick, hdeclared⟩ := exists_declared hunits hmem
  obtain rfl := UnitPart.asVariable?_eq_some_iff.mp hpick
  exact ⟨hoffset, e, hdeclared⟩

end Entered

/-- Every entry of a program was declared.  Since then a class can only have got
functions, and a function only lines. -/
structure Traced (d : DebugInfo) (p : Program) : Prop where
  debug_eq : p.debug = d
  types : ∀ (o : UInt32) t, p.types[o]? = some t → ∃ t₀ functions e,
    t = UserType.addFunctions functions t₀ ∧ (∀ g ∈ functions, g ∈ p.functions) ∧
      t₀.offset = o ∧ Declared d (.ofType t₀) e
  functions : ∀ (o : UInt32) f, p.functions[o]? = some f → ∃ f₀ e,
    f.withoutLines = f₀.withoutLines ∧ f₀.offset = o ∧ Declared d (.ofFunction f₀) e
  vars : ∀ (o : UInt32) v, p.vars[o]? = some v → ∃ e, v.offset = o ∧ Declared d (.ofVariable v) e

theorem traced_of_walk [RangeMap UInt32] {d : DebugInfo} {kept kept' : Diagnostics} {p : Program}
    (h : walk d kept = .ok (p, kept')) : Traced d p := by
  obtain ⟨units, -, linked, -, hunits, hmembers, hgiven⟩ := exists_passed_of_walk h
  have hlines := hgiven.linesAside
  constructor
  case debug_eq =>
      rw [hlines.debug_eq, hmembers.eq_types, entered_eq]
  case types =>
      intro o t ht
      rw [hlines.types_eq, hmembers.types] at ht
      obtain ⟨t₀, ht₀, rfl⟩ := Option.map_eq_some_iff.mp ht
      obtain ⟨hoffset, e, hdeclared⟩ := exists_declared_type hunits ht₀
      refine ⟨t₀, _, e, rfl, fun g hg => ?_, hoffset, hdeclared⟩
      rw [hlines.mem_functions_iff, hmembers.eq_types]
      exact mem_functions_of_mem_linkedTo hg
  case functions =>
      intro o f hf
      have hsame := hlines.functions o
      rw [hf, hmembers.eq_types, Option.map_some] at hsame
      obtain ⟨f₀, hf₀, heq⟩ := Option.map_eq_some_iff.mp hsame.symm
      obtain ⟨hoffset, e, hdeclared⟩ := exists_declared_function hunits hf₀
      exact ⟨f₀, e, heq.symm, hoffset, hdeclared⟩
  case vars =>
      intro o v hv
      rw [hlines.vars_eq, hmembers.eq_types] at hv
      obtain ⟨hoffset, e, hdeclared⟩ := exists_declared_variable hunits hv
      exact ⟨e, hoffset, hdeclared⟩

/-! ## Programs on fixed sections -/

/-- What sections come to when they can be decoded and built, in some view. -/
def outcomeUnder {α : Type} (settings : DiagnosticSettings) (order : ByteOrder)
    (bytes : List UInt8) (line : Option (List UInt8)) (view : Program → α) : Option α :=
  (DebugInfo.decode order bytes line).toOption.bind fun d =>
    (build d settings).toOption.map fun r => view r.1

theorem exists_of_outcomeUnder {α : Type} {settings : DiagnosticSettings} {order : ByteOrder}
    {bytes : List UInt8} {line : Option (List UInt8)} {view : Program → α} {a : α}
    (h : outcomeUnder settings order bytes line view = some a) :
    ∃ d p shown, DebugInfo.decode order bytes line = .ok d ∧ build d settings = .ok (p, shown) ∧
      view p = a := by
  unfold outcomeUnder at h
  cases hd : DebugInfo.decode order bytes line with
  | error e =>
      rw [hd] at h
      cases h
  | ok d =>
      cases hr : build d settings with
      | error e =>
          rw [hd] at h
          simp [Except.toOption, hr] at h
      | ok r =>
          rw [hd] at h
          refine ⟨d, r.1, r.2, rfl, hr, ?_⟩
          simpa [Except.toOption, hr] using h

/-- The same for one section, with the warnings that are usual. -/
def outcome {α : Type} (order : ByteOrder) (bytes : List UInt8) (view : Program → α) : Option α :=
  outcomeUnder .default order bytes none view

theorem exists_of_outcome {α : Type} {order : ByteOrder} {bytes : List UInt8} {view : Program → α}
    {a : α} (h : outcome order bytes view = some a) :
    ∃ d p shown, DebugInfo.decode order bytes none = .ok d ∧ build d .default = .ok (p, shown) ∧
      view p = a :=
  exists_of_outcomeUnder h

end Program
end DwarfOne
