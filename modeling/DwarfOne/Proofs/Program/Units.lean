/-
# `Proofs.Program.Units` — the units that padding hides

Padding has no sibling attribute.  Inside a child list it is bridged, but the
topmost level is nobody's child list, so a walk along it ends at the first
padding it meets.  The records before that padding are roots, those behind it
are not (`mem_reach_iff`), and the files of a program are the units among the
roots: a unit behind padding is lost.
-/
import DwarfOne.Proofs.Program.Passes
import DwarfOne.Proofs.Record.Nesting

namespace DwarfOne

/-! ## How far the topmost level is followed -/

namespace Forest

/-- The places of the topmost level up to the first padding. -/
def reach : Forest → Nat → List Nat
  | nil, _ => []
  | single x rest, i => i :: if x.isFiller then [] else rest.reach (i + 1)
  | node _ children _ rest, i => i :: rest.reach (i + children.count + 2)

/-- The places of the padding on the topmost level. -/
def fillers : Forest → Nat → List Nat
  | nil, _ => []
  | single x rest, i => if x.isFiller then i :: rest.fillers (i + 1) else rest.fillers (i + 1)
  | node _ children _ rest, i => rest.fillers (i + children.count + 2)

theorem fillers_subset_places (f : Forest) (i : Nat) : f.fillers i ⊆ f.places i := by
  induction f generalizing i with
  | nil => exact fun _ h => h
  | single x rest ih =>
      unfold fillers places
      split
      · exact List.cons_subset_cons i (ih (i + 1))
      · exact List.subset_cons_of_subset i (ih (i + 1))
  | node r children closing rest _ ih =>
      exact List.subset_cons_of_subset i (ih (i + children.count + 2))

theorem reach_prefix_places (f : Forest) (i : Nat) : f.reach i <+: f.places i := by
  induction f generalizing i with
  | nil => exact List.prefix_rfl
  | single x rest ih =>
      unfold reach places
      refine List.cons_prefix_cons.mpr ⟨rfl, ?_⟩
      split
      · exact List.nil_prefix
      · exact ih (i + 1)
  | node r children closing rest _ ih =>
      exact List.cons_prefix_cons.mpr ⟨rfl, ih (i + children.count + 2)⟩

theorem mem_cons_reach_iff {i c : Nat} {reach places fillers : List Nat}
    (hlater : ∀ b ∈ fillers, i ≤ b)
    (h : c ∈ reach ↔ c ∈ places ∧ ∀ b ∈ fillers, c ≤ b) :
    c ∈ i :: reach ↔ c ∈ i :: places ∧ ∀ b ∈ fillers, c ≤ b := by
  rw [List.mem_cons, List.mem_cons, h]
  constructor
  · rintro (rfl | ⟨hc, hle⟩)
    · exact ⟨.inl rfl, hlater⟩
    · exact ⟨.inr hc, hle⟩
  · rintro ⟨rfl | hc, hle⟩
    · exact .inl rfl
    · exact .inr ⟨hc, hle⟩

/-- A place is reached if no padding stands before it. -/
theorem mem_reach_iff (f : Forest) (i c : Nat) :
    c ∈ f.reach i ↔ c ∈ f.places i ∧ ∀ b ∈ f.fillers i, c ≤ b := by
  induction f generalizing i with
  | nil => simp [reach, places]
  | single x rest ih =>
      have hlater : ∀ b ∈ rest.fillers (i + 1), i ≤ b := by
        intro b hb
        have hbounds := mem_places (rest.fillers_subset_places _ hb)
        omega
      unfold reach fillers places
      cases x.isFiller with
      | false => exact mem_cons_reach_iff hlater (ih (i + 1))
      | true =>
          -- the padding itself is the last place reached
          simp only [if_true, List.mem_cons, List.not_mem_nil, or_false]
          constructor
          · rintro rfl
            refine ⟨.inl rfl, fun b hb => ?_⟩
            rcases hb with rfl | hb
            · exact Nat.le_refl b
            · exact hlater b hb
          · rintro ⟨rfl | hc, hle⟩
            · rfl
            · have hbounds := mem_places hc
              have hpadding := hle i (.inl rfl)
              omega
  | node r children closing rest _ ih =>
      refine mem_cons_reach_iff (fun b hb => ?_) (ih (i + children.count + 2))
      have hbounds := mem_places (rest.fillers_subset_places _ hb)
      omega

/-! ## Roots -/

/-- Where padding of the topmost level has no link, a walk ends. -/
theorem walk_reach {rows : Array Outline} {sibling firstChild : Nat → Option Nat} {deep : Bool} :
    ∀ (f : Forest) (i : Nat), Linked rows sibling firstChild deep false f i →
      i + f.count = rows.size → Links.Walk sibling (link rows.size i) (f.reach i)
  | nil, i, _, hsize => by
      rw [count, Nat.add_zero] at hsize
      rw [link_of_le (Nat.le_of_eq hsize.symm)]
      exact .done
  | single x rest, i, ⟨_, hs, _, hrest⟩, hsize => by
      rw [add_count_single] at hsize
      rw [link_of_lt (by omega)]
      refine .step ?_
      cases hx : x.isFiller with
      | true =>
          rw [hs, hx]
          exact .done
      | false =>
          rw [hs, hx]
          exact walk_reach rest (i + 1) hrest hsize
  | node r children closing rest, i, ⟨hs, _, _, _, _, _, hrest⟩, hsize => by
      rw [add_count_node] at hsize
      rw [link_of_lt (by omega)]
      refine .step ?_
      rw [hs]
      exact walk_reach rest (i + children.count + 2) hrest hsize

theorem roots_assemble_eq_reach {f : Forest} (hsize : f.size < 2 ^ 32) (order : ByteOrder)
    (tables : List LineTable) :
    (DebugInfo.assemble order (Draft.placeAll (f.drafts 0)) tables).roots = f.reach 0 := by
  have hwalk := walk_reach f 0 (linked_assemble hsize order tables)
    ((Nat.zero_add _).trans count_eq_size)
  rw [DebugInfo.size_rows] at hwalk
  exact hwalk.unique (walk_roots order tables _)

/-! ## Padding that is read back -/

/-- Whether there is padding at a place, or nothing. -/
def isPaddingAt (rows : Array Outline) (i : Nat) : Bool :=
  (rows[i]?.map Outline.isPadding).getD true

theorem isPadding_record_assemble (order : ByteOrder) (rs : List RawRecord)
    (tables : List LineTable) (i : Nat) :
    ((DebugInfo.assemble order rs tables).record i).isPadding =
      isPaddingAt (DebugInfo.rows rs) i := by
  unfold isPaddingAt
  cases hrow : (DebugInfo.rows rs)[i]? with
  | some row => exact DebugInfo.isPadding_record order tables hrow
  | none =>
      have hle : (DebugInfo.assemble order rs tables).records.size ≤ i := by
        rw [DebugInfo.size_records_assemble, ← DebugInfo.size_rows]
        exact Array.getElem?_eq_none_iff.mp hrow
      rw [DebugInfo.record, Links.getD_of_le hle]
      rfl

/-- Of the topmost records, those that are padding when read back are those
written as padding. -/
theorem filter_isPaddingAt {es : List Draft} : ∀ (f : Forest) (pre post : List Draft),
    es = pre ++ (f.drafts (Draft.sizeAll pre) ++ post) →
      (f.places pre.length).filter (isPaddingAt (DebugInfo.rows (Draft.placeAll es))) =
        f.fillers pre.length
  | nil, _, _, _ => rfl
  | single x rest, pre, post, hes => by
      have hrest := filter_isPaddingAt rest (pre ++ [x.draft (Draft.sizeAll pre)]) post
        (by simpa [drafts, Single.size_draft] using hes)
      rw [List.length_append, List.length_singleton] at hrest
      have hx : isPaddingAt (DebugInfo.rows (Draft.placeAll es)) pre.length = x.isFiller := by
        rw [isPaddingAt, getElem?_rows_placeAll hes]
        cases x with
        | filler b => exact congrArg Outline.isPadding (outline_bare b _)
        | leaf r => exact congrArg Outline.isPadding (outline_draft r _ _)
      rw [places, fillers, List.filter_cons, hx, hrest]
  | node r children closing rest, pre, post, hes => by
      simp only [drafts, List.cons_append, List.append_assoc] at hes
      -- the record with its children and the record that closes them, then the rest
      obtain ⟨front, hfront⟩ : ∃ front, front =
          pre ++ r.draft (Draft.sizeAll pre + r.size + children.size + 4) ::
            (children.drafts (Draft.sizeAll pre + r.size) ++ [closing.draft]) := ⟨_, rfl⟩
      have hlength : front.length = pre.length + children.count + 2 := by
        rw [hfront]
        simp [length_drafts]
        omega
      have hsize : Draft.sizeAll front = Draft.sizeAll pre + r.size + children.size + 4 := by
        simp [hfront, sizeAll_drafts, Node.size_draft, Closing.size_draft, Nat.add_assoc]
      have hsplit : es = front ++ (rest.drafts (Draft.sizeAll front) ++ post) := by
        rw [hsize, hfront, hes]
        simp
      have hrest := filter_isPaddingAt rest front post hsplit
      rw [hlength] at hrest
      have hr : isPaddingAt (DebugInfo.rows (Draft.placeAll es)) pre.length = false := by
        rw [isPaddingAt, getElem?_rows_placeAll hes]
        exact congrArg Outline.isPadding (outline_draft r _ _)
      rw [places, fillers, List.filter_cons, hr, hrest]
      rfl

/-- The roots of a forest that is read back are the topmost records before which
no padding stands. -/
theorem mem_roots_assemble_iff {f : Forest} (hsize : f.size < 2 ^ 32) (order : ByteOrder)
    (tables : List LineTable) {d : DebugInfo}
    (hd : d = DebugInfo.assemble order (Draft.placeAll (f.drafts 0)) tables) {c : Nat}
    (hc : c ∈ f.places 0) :
    c ∈ d.roots ↔ ∀ b ∈ f.places 0, (d.record b).isPadding = true → c ≤ b := by
  have hfillers : (f.places 0).filter _ = f.fillers 0 :=
    filter_isPaddingAt f [] [] (List.append_nil (f.drafts 0)).symm
  rw [hd, roots_assemble_eq_reach hsize, mem_reach_iff, and_iff_right hc, ← hfillers]
  constructor
  · intro hle b hb hpadding
    rw [isPadding_record_assemble] at hpadding
    exact hle b (List.mem_filter.mpr ⟨hb, hpadding⟩)
  · intro hle b hb
    obtain ⟨hb, hpadding⟩ := List.mem_filter.mp hb
    rw [← isPadding_record_assemble order] at hpadding
    exact hle b hb hpadding

end Forest

/-! ## Files -/

/-- The offsets of the units among the roots. -/
def DebugInfo.unitOffsets (d : DebugInfo) : List UInt32 :=
  (d.roots.filter fun i => (d.record i).tag = .compileUnit).map fun i => (d.record i).offset

theorem CompileUnit.yields_offset_ofRoot (e : Entry) :
    Build.Yields (ofRoot e) fun found => found.map (fun u => u.file.offset) =
      if e.tag = .compileUnit then some e.offset else none := by
  unfold ofRoot
  split
  case h_1 htag =>
      refine Build.yields_bind ((yields_ofEntry e).mono fun u hu => ?_)
      simp [htag, hu.offset_eq]
  case h_2 htag => simp [show e.tag ≠ .compileUnit from htag]

/-- The files of a program are the units among the roots. -/
theorem Program.offsets_of_walk [RangeMap UInt32] {d : DebugInfo} {kept kept' : Diagnostics}
    {p : Program} (h : walk d kept = .ok (p, kept')) :
    p.files.toList.map File.offset = d.unitOffsets := by
  obtain ⟨units, afterUnits, linked, hgather, hpassed⟩ := exists_passed_of_walk h
  have hunits : units.map (fun u => u.file.offset) = _ :=
    Build.yields_map_gather (fun e _ => CompileUnit.yields_offset_ofRoot e) kept units afterUnits
      hgather
  have hentered : linked.files = (units.map CompileUnit.file).toArray := by
    rw [hpassed.members.eq_types, entered_eq]
  rw [← Array.toList_map, hpassed.lines.linesAside.map_files fun _ => rfl, hentered,
    List.map_toArray, List.map_map, DebugInfo.unitOffsets]
  refine hunits.trans ?_
  rw [List.filterMap_map, ← List.filterMap_eq_map, List.filterMap_filter]
  congr 1
  funext i
  by_cases htag : (d.record i).tag = .compileUnit
  · simp [Entry.tag, Entry.offset, Entry.record, htag]
  · simp [Entry.tag, Entry.record, htag]

namespace Program

/-- A forest is read back with the roots that no padding stands before, and the
units among them are the files. -/
theorem units_of_forest [RangeMap UInt32] (f : Forest) {order : ByteOrder}
    (hsize : (Draft.encodeAll order (f.drafts 0)).length < 2 ^ 32) {line : Option (List UInt8)}
    {tables : List LineTable} (hline : DebugInfo.lineTablesOf order line = .ok tables) :
    ∃ d, DebugInfo.decode order (Draft.encodeAll order (f.drafts 0)) line = .ok d ∧
      d.roots <+: f.places 0 ∧
      (∀ c ∈ f.places 0, c ∈ d.roots ↔
        ∀ b ∈ f.places 0, (d.record b).isPadding = true → c ≤ b) ∧
      ∀ settings p shown, build d settings = .ok (p, shown) →
        p.files.toList.map File.offset = d.unitOffsets := by
  rw [Draft.length_encodeAll, Forest.sizeAll_drafts] at hsize
  refine ⟨_, DebugInfo.decode_eq_ok_iff.mpr
    ⟨_, tables, Draft.readAll_encodeAll order _, hline, rfl⟩, ?_, ?_, ?_⟩
  · rw [Forest.roots_assemble_eq_reach hsize]
    exact f.reach_prefix_places 0
  · exact fun c hc => Forest.mem_roots_assemble_iff hsize order tables rfl hc
  · intro settings p shown hp
    exact offsets_of_walk hp

/-- Two units with a null record between them. -/
def parted : Forest :=
  let unit (text : String) (htext : '\x00' ∉ text.toList)
      (hsize : 14 + (AttributeValue.string text).size .string < 2 ^ 32) : Forest.Node :=
    { Forest.Node.unit with
      before := [.name text htext]
      before_ne := fun a ha => by
        rw [List.mem_singleton.mp ha]
        exact (by decide : AttributeName.ofValue 0x38 ≠ .sibling)
      size_lt := by
        simpa [NamedValue.sizeAll, NamedValue.size, NamedValue.name, Forest.Node.unit,
          Forest.Node.plain, ← Nat.add_assoc] using hsize }
  let null : Draft.Bare :=
    { length := 4, tag := 0, fill := [], null_or_padding := .inr rfl, tag_eq := fun _ => rfl
      length_fill := rfl }
  .single (.leaf (unit "a" (by decide) (by decide)))
    (.single (.filler null) (.single (.leaf (unit "b" (by decide) (by decide))) .nil))

theorem units_of_parted : (Draft.encodeAll .big (parted.drafts 0)).length < 2 ^ 32 ∧
    DebugInfo.lineTablesOf .big none = .ok [] ∧
    ∃ d, DebugInfo.decode .big (Draft.encodeAll .big (parted.drafts 0)) none = .ok d ∧
      d.roots <+: [0, 1, 2] ∧
      (∀ c ∈ [0, 1, 2], c ∈ d.roots ↔
        ∀ b ∈ [0, 1, 2], (d.record b).isPadding = true → c ≤ b) ∧
      ∀ settings p shown, build d settings = .ok (p, shown) →
        p.files.toList.map File.offset = d.unitOffsets := by
  have hsize : (Draft.encodeAll .big (parted.drafts 0)).length < 2 ^ 32 := by decide
  exact ⟨hsize, rfl, units_of_forest parted hsize rfl⟩

/-- The second unit is on the topmost level and is no padding, but it is not
met. -/
theorem second_unit_hidden_of_parted : ∃ d p shown,
    DebugInfo.decode .big (Draft.encodeAll .big (parted.drafts 0)) none = .ok d ∧
      build d .default = .ok (p, shown) ∧ 2 ∈ parted.places 0 ∧
      (d.record 2).isPadding = false ∧ (d.record 2).tag = .compileUnit ∧ 2 ∉ d.roots ∧
      p.files.toList.map File.offset = [0] := by
  obtain ⟨d, p, shown, hd, hp, hview⟩ := exists_of_outcome (show
    outcome .big (Draft.encodeAll .big (parted.drafts 0)) (fun p =>
      ((p.debug.record 2).isPadding, (p.debug.record 2).tag, p.debug.roots,
        p.files.toList.map File.offset)) =
      some (false, .compileUnit, [0, 1], [0]) by decide +kernel)
  obtain rfl := (traced_of_walk hp).debug_eq
  simp only [Prod.mk.injEq] at hview
  obtain ⟨hpadding, htag, hroots, hfiles⟩ := hview
  exact ⟨_, p, shown, hd, hp, by decide, hpadding, htag, by rw [hroots]; decide, hfiles⟩

end Program
end DwarfOne
