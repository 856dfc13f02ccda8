/-
# `Proofs.Program.Membership` — classes and their member functions

A function names the class it is a member of by the offset of a record.  Which
functions a class has is therefore settled only when all units have been read,
and then by the files alone: the functions of a class are those its files list
that name it, in the order of the lists.  A function that names something else
is in no class, and is warned of once each time it is listed.  The warnings are
counted where all of them are shown, at the end of the pass that links.
-/
import DwarfOne.Proofs.Program.Warnings

namespace DwarfOne
namespace Program

/-- What a function says it is a member of. -/
def ownerOf? (p : Program) (g : UInt32) : Option UInt32 :=
  p.functions[g]?.bind Function.owner

/-- The functions that name an offset, as the files list them. -/
def membersOf (p : Program) (owner : UInt32) : List UInt32 :=
  p.files.toList.flatMap fun file => file.functions.filter (p.ownerOf? · = some owner)

/-- The warning about a function that names something other than a class. -/
def stray? (p : Program) (g : UInt32) : Option Diagnostic :=
  ((p.ownerOf? g).filter (!p.hasClass ·)).map (notAClass g)

/-- The warnings about functions that name something other than a class, as the
files list them. -/
def strays (p : Program) : List Diagnostic :=
  p.files.toList.flatMap fun file => file.functions.filterMap p.stray?

/-- The functions that name something other than a class, as the files list them. -/
def strayMembers (p : Program) : List UInt32 :=
  p.files.toList.flatMap fun file => file.functions.filter fun g =>
    (p.ownerOf? g).any (!p.hasClass ·)

/-- Each of them is warned of once, in the same order. -/
theorem map_offset_strays (p : Program) : p.strays.map Diagnostic.offset = p.strayMembers := by
  rw [strays, List.map_flatMap, strayMembers]
  congr 1
  funext file
  rw [List.map_filterMap, ← List.filterMap_eq_filter]
  congr 1
  funext g
  cases howner : p.ownerOf? g with
  | none => simp [stray?, Option.guard, howner]
  | some owner =>
      cases hclass : p.hasClass owner with
      | false => simp [stray?, Option.guard, Option.filter_some, howner, hclass, notAClass]
      | true => simp [stray?, Option.guard, Option.filter_some, howner, hclass]

theorem kind_of_mem_strays {p : Program} {w : Diagnostic} (hw : w ∈ p.strays) :
    w.kind = .unknownAttribute := by
  obtain ⟨file, -, hw⟩ := List.mem_flatMap.mp hw
  obtain ⟨g, -, hstray⟩ := List.mem_filterMap.mp hw
  obtain ⟨owner, -, rfl⟩ := Option.map_eq_some_iff.mp hstray
  rfl

theorem linkedTo_memberLinks (p : Program) (owner : UInt32) :
    linkedTo owner p.memberLinks = p.membersOf owner := by
  rw [linkedTo, memberLinks, List.filter_flatMap, List.map_flatMap, membersOf]
  congr 1
  funext file
  rw [List.filter_filterMap, List.map_filterMap, ← List.filterMap_eq_filter]
  congr 1
  funext g
  rw [← ownerOf?]
  cases howner : p.ownerOf? g with
  | none => simp [Option.guard, howner]
  | some o =>
      by_cases ho : o = owner
      · simp [Option.filter_some, Option.guard, howner, ho]
      · simp [Option.filter_some, Option.guard, howner, ho]

theorem unlinked_memberLinks (p : Program) : p.unlinked p.memberLinks = p.strays := by
  rw [unlinked, memberLinks, List.filter_flatMap, List.map_flatMap, strays]
  congr 1
  funext file
  rw [List.filter_filterMap, List.map_filterMap]
  congr 1
  funext g
  rw [stray?, ← ownerOf?]
  cases p.ownerOf? g with
  | none => rfl
  | some o =>
      cases hclass : p.hasClass o with
      | false => simp [Option.filter_some, hclass]
      | true => simp [Option.filter_some, hclass]

/-- The last pass changes neither what the files list nor what functions name. -/
theorem LinesAside.listed_eq {p p' : Program} (h : LinesAside p p') :
    p'.files.toList.map File.functions = p.files.toList.map File.functions := by
  rw [← Array.toList_map, ← Array.toList_map, h.map_files fun _ => rfl]

theorem LinesAside.ownerOf?_eq {p p' : Program} (h : LinesAside p p') :
    p'.ownerOf? = p.ownerOf? := by
  funext g
  have hsame := congrArg (Option.bind · id) (h.map_function Function.owner (fun _ => rfl) g)
  simpa [ownerOf?, Option.bind_map] using hsame

theorem LinesAside.membersOf_eq {p p' : Program} (h : LinesAside p p') :
    p'.membersOf = p.membersOf := by
  funext owner
  have hlisted := congrArg (List.flatMap fun listed => listed.filter (p.ownerOf? · = some owner))
    h.listed_eq
  rw [List.flatMap_map, List.flatMap_map] at hlisted
  rw [membersOf, membersOf, h.ownerOf?_eq]
  exact hlisted

theorem LinesAside.strays_eq {p p' : Program} (h : LinesAside p p') : p'.strays = p.strays := by
  have hstray : p'.stray? = p.stray? := by
    funext g
    rw [stray?, stray?, h.ownerOf?_eq, show p'.hasClass = p.hasClass by
      funext o
      rw [hasClass, hasClass, h.types_eq]]
  have hlisted := congrArg (List.flatMap (List.filterMap p.stray?)) h.listed_eq
  rw [List.flatMap_map, List.flatMap_map] at hlisted
  rw [strays, strays, hstray]
  exact hlisted

/-- Nor does linking: it tells classes of functions, not functions of classes. -/
theorem LinkedBy.membersOf_eq {links : List (UInt32 × UInt32)} {p p' : Program}
    (h : LinkedBy links p p') : p'.membersOf = p.membersOf := by
  rw [h.eq_types]
  rfl

theorem LinkedBy.strays_eq {links : List (UInt32 × UInt32)} {p p' : Program}
    (h : LinkedBy links p p') : p'.strays = p.strays := by
  have hstray : p'.stray? = p.stray? := by
    funext g
    rw [stray?, h.hasClass_eq, h.eq_types]
    rfl
  rw [strays, hstray, h.eq_types]
  rfl

/-- A class of the finished program has the functions that name it. -/
theorem Passed.functions_eq {d : DebugInfo} {units : List CompileUnit} {linked p : Program}
    (h : Passed d units linked p) {o : UInt32} {c : ClassType}
    (hc : p.types[o]? = some (.ofClass c)) : c.offset = o ∧ c.functions = p.membersOf o := by
  rw [h.lines.linesAside.types_eq, h.members.types] at hc
  obtain ⟨t, ht, heq⟩ := Option.map_eq_some_iff.mp hc
  obtain ⟨hoffset, e, hdeclared⟩ := exists_declared_type h.readFrom ht
  rw [h.lines.linesAside.membersOf_eq, h.members.membersOf_eq, ← linkedTo_memberLinks]
  cases t with
  | ofClass c₀ =>
      cases heq
      have hnone : c₀.functions = [] := ClassType.ReadFrom.functions_eq hdeclared.readFrom.2
      exact ⟨hoffset, by rw [hnone, List.nil_append]⟩
  | _ => cases heq

theorem ownerOf?_of_mem_membersOf {p : Program} {owner g : UInt32} (h : g ∈ p.membersOf owner) :
    p.ownerOf? g = some owner := by
  obtain ⟨file, -, hg⟩ := List.mem_flatMap.mp h
  simpa using (List.mem_filter.mp hg).2

/-- The warnings of the pass that links members are those about strays. -/
theorem Passed.unlinked_eq {d : DebugInfo} {units : List CompileUnit} {linked p : Program}
    (h : Passed d units linked p) :
    (entered d units).unlinked (entered d units).memberLinks = p.strays := by
  rw [unlinked_memberLinks, h.lines.linesAside.strays_eq, h.members.strays_eq]

/-- What linking has come to in a finished program, with the warnings there were before it and
those there were after it. -/
structure MembersLinked (p : Program) (before after : List Diagnostic) : Prop where
  /-- A class has the functions that name it. -/
  functions : ∀ (o : UInt32) c, p.types[o]? = some (.ofClass c) →
    c.offset = o ∧ c.functions = p.membersOf c.offset
  /-- Every other function that names something is in no class. -/
  outside : ∀ (g owner : UInt32), p.ownerOf? g = some owner → p.hasClass owner = false →
    ∀ (o : UInt32) c, p.types[o]? = some (.ofClass c) → g ∉ c.functions
  /-- And it is warned of once, each time it is listed. -/
  warnings : ∃ added, after = before ++ added ∧ added.map Diagnostic.offset = p.strayMembers ∧
    ∀ w ∈ added, w.kind = .unknownAttribute

theorem Passed.membersLinked {d : DebugInfo} {units : List CompileUnit} {linked p : Program}
    (h : Passed d units linked p) (before : List Diagnostic) :
    p.MembersLinked before (before ++ p.strays) := by
  constructor
  case functions =>
      intro o c hc
      obtain ⟨rfl, hfunctions⟩ := h.functions_eq hc
      exact ⟨rfl, hfunctions⟩
  case outside =>
      intro g owner howner hclass o c hc hg
      rw [(h.functions_eq hc).2] at hg
      have hnamed := ownerOf?_of_mem_membersOf hg
      rw [howner, Option.some.injEq] at hnamed
      rw [hnamed, hasClass_iff.mpr ⟨c, hc⟩] at hclass
      cases hclass
  case warnings => exact ⟨_, rfl, p.map_offset_strays, fun _ => kind_of_mem_strays⟩

/-- Whatever the order and the units in which classes and functions come, each
class has exactly the functions that name it.  The pass that links them reports
every other function that names something, once for each time it is listed, and
no class has it.  The settings only choose among what is reported in a run that
shows everything. -/
theorem members_of_build [RangeMap UInt32] {d : DebugInfo} {settings : DiagnosticSettings}
    {p : Program} {shown : Diagnostics} (hp : build d settings = .ok (p, shown)) :
    ∃ read afterUnits linked afterLinks all,
      readUnits d (.empty .everything) = .ok (read, afterUnits) ∧
      read.linkMembers afterUnits = .ok (linked, afterLinks) ∧
      linked.assignLines afterLinks = .ok (p, all) ∧
      p.MembersLinked afterUnits.reported.toList afterLinks.reported.toList ∧
      afterLinks.reported.toList <+: all.reported.toList ∧
      shown = .throttled settings all.reported.toList := by
  rcases blind_readUnits d with ⟨e, he⟩ | ⟨read, ws, hread, -⟩
  · rw [build, walk, Build.bind_of_error (he _)] at hp
    cases hp
  · obtain ⟨units, hgather, rfl⟩ := readUnits_eq_ok_iff.mp (hread (.empty .everything))
    obtain ⟨linked, p', hlinks, hlines, hpassed⟩ :=
      exists_gives_passes (exists_readFrom_of_gather hgather)
    obtain ⟨rfl, rfl⟩ := (hread.bind (hlinks.bind hlines)).eq_of_ok hp
    refine ⟨_, _, linked, _, _, hread _, hlinks _, hlines _, ?_⟩
    rw [← Diagnostics.reportAll_append, ← Diagnostics.reportAll_append, List.append_assoc,
      Diagnostics.reported_reportAll_everything, Diagnostics.reported_reportAll_everything,
      Diagnostics.reported_reportAll_everything, Diagnostics.reportAll_empty, hpassed.unlinked_eq,
      ← List.append_assoc]
    exact ⟨hpassed.membersLinked ws, List.prefix_append _ _, rfl⟩

/-- Two units.  Of the functions in the first, one names the class in the second
and one an offset where there is nothing. -/
def sampleMembers : List UInt8 :=
  [0, 0, 0, 12, 0, 0x11, 0, 0x12, 0, 0, 0, 52,
   0, 0, 0, 18, 0, 6, 0, 0x12, 0, 0, 0, 30, 0x01, 0x42, 0, 0, 0, 64,
   0, 0, 0, 18, 0, 6, 0, 0x12, 0, 0, 0, 48, 0x01, 0x42, 0, 0, 0, 99,
   0, 0, 0, 4,
   0, 0, 0, 12, 0, 0x11, 0, 0x12, 0, 0, 0, 80,
   0, 0, 0, 12, 0, 2, 0, 0x12, 0, 0, 0, 76,
   0, 0, 0, 4]

theorem members_of_sampleMembers : ∃ d p shown,
    DebugInfo.decode .big sampleMembers none = .ok d ∧ build d .default = .ok (p, shown) ∧
      (p.types.keys, p.membersOf 64, p.strayMembers) = ([64], [12], [30]) ∧
      ∃ read afterUnits linked afterLinks all,
        readUnits d (.empty .everything) = .ok (read, afterUnits) ∧
        read.linkMembers afterUnits = .ok (linked, afterLinks) ∧
        linked.assignLines afterLinks = .ok (p, all) ∧
        p.MembersLinked afterUnits.reported.toList afterLinks.reported.toList ∧
        afterLinks.reported.toList <+: all.reported.toList ∧
        shown = .throttled .default all.reported.toList := by
  obtain ⟨d, p, shown, hd, hp, hview⟩ := exists_of_outcome (show
    outcome .big sampleMembers (fun p => (p.types.keys, p.membersOf 64, p.strayMembers)) =
      some ([64], [12], [30]) by decide +kernel)
  exact ⟨d, p, shown, hd, hp, hview, members_of_build hp⟩

end Program
end DwarfOne
