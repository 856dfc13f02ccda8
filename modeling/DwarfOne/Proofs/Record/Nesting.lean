/-
# `Proofs.Record.Nesting` — nested records written and read back

A forest is written as the list of its records, each with a sibling attribute
that points past its last descendant.  On what is read back, that attribute
gives every record the links it has in `Forest.Linked` before bridging:
`linked_own`, by induction on the forest with the records before and after it
around it.  With `Proofs.Record.Forest` the nesting follows.
-/
import DwarfOne.Proofs.Record.Forest
import DwarfOne.Proofs.Record.Framing

namespace DwarfOne

/-! ## Writing a forest -/

namespace Draft

/-- How many bytes the records of a list take. -/
def sizeAll (drafts : List Draft) : Nat :=
  (drafts.map size).sum

@[simp] theorem sizeAll_nil : sizeAll [] = 0 :=
  rfl

@[simp] theorem sizeAll_cons (e : Draft) (es : List Draft) :
    sizeAll (e :: es) = e.size + sizeAll es :=
  List.sum_cons

@[simp] theorem sizeAll_append (es es' : List Draft) :
    sizeAll (es ++ es') = sizeAll es + sizeAll es' := by
  rw [sizeAll, List.map_append, List.sum_append_nat]
  rfl

theorem length_encodeAll {order : ByteOrder} (drafts : List Draft) :
    (encodeAll order drafts).length = sizeAll drafts :=
  length_flatMap_encode length_encode drafts

theorem offset_place (e : Draft) (offset : Nat) :
    (e.place offset).offset = UInt32.ofNat offset := by
  cases e with
  | bare b => rfl
  | full f => rfl

theorem four_le_size (e : Draft) : 4 ≤ e.size := by
  cases e with
  | bare b => exact Nat.le_max_right _ _
  | full f =>
      rw [size]
      omega

end Draft

attribute [ext] Outline

namespace Forest

namespace Node

/-- The sibling attribute with the offset it points to. -/
def siblingValue (target : Nat) : NamedValue where
  rawName := 0x12
  form := .ref
  value := .reference (UInt32.ofNat target)
  form_eq := rfl
  fits := trivial

def attributes (r : Node) (target : Nat) : List NamedValue :=
  r.before ++ siblingValue target :: r.after

def size (r : Node) : Nat :=
  12 + NamedValue.sizeAll r.before + NamedValue.sizeAll r.after

theorem add_sizeAll_attributes (r : Node) (target : Nat) :
    6 + NamedValue.sizeAll (r.attributes target) = r.size := by
  have hsibling : (siblingValue target).size = 6 := rfl
  rw [attributes, NamedValue.sizeAll, List.map_append, List.sum_append_nat, List.map_cons,
    List.sum_cons, hsibling, size, NamedValue.sizeAll, NamedValue.sizeAll]
  omega

/-- The record with its sibling attribute filled in. -/
def draft (r : Node) (target : Nat) : Draft :=
  .full { tag := r.tag
          attributes := r.attributes target
          tag_ne := r.tag_ne
          attributes_ne := by simp [attributes]
          size_lt := by rw [add_sizeAll_attributes]; exact r.size_lt }

theorem size_draft (r : Node) (target : Nat) : (r.draft target).size = r.size :=
  r.add_sizeAll_attributes target

end Node

namespace Closing

def draft (c : Closing) : Draft :=
  .bare { length := c.length
          tag := 0
          fill := []
          null_or_padding := .inr rfl
          tag_eq := fun _ => rfl
          length_fill := by
            have hle : c.length.toNat ≤ 4 := UInt32.le_iff_toNat_le.mp c.length_le
            have hheader := @Draft.four_le_headerSize c.length
            rw [List.length_nil]
            omega }

theorem size_draft (c : Closing) : c.draft.size = 4 :=
  Nat.max_eq_right (UInt32.le_iff_toNat_le.mp c.length_le)

end Closing

namespace Single

def size : Single → Nat
  | filler b => (Draft.bare b).size
  | leaf r => r.size

/-- The record at an offset.  Without descendants it points just behind itself. -/
def draft (offset : Nat) : Single → Draft
  | filler b => .bare b
  | leaf r => r.draft (offset + r.size)

theorem size_draft (x : Single) (offset : Nat) : (x.draft offset).size = x.size := by
  cases x with
  | filler b => rfl
  | leaf r => exact r.size_draft _

end Single

/-- How many bytes a forest takes. -/
def size : Forest → Nat
  | nil => 0
  | single x rest => x.size + rest.size
  | node r children _ rest => r.size + children.size + 4 + rest.size

/-- The records of a forest at an offset, in order.  Each points past its last
descendant. -/
def drafts : Forest → Nat → List Draft
  | nil, _ => []
  | single x rest, offset => x.draft offset :: rest.drafts (offset + x.size)
  | node r children closing rest, offset =>
      r.draft (offset + r.size + children.size + 4) ::
        (children.drafts (offset + r.size) ++
          closing.draft :: rest.drafts (offset + r.size + children.size + 4))

theorem length_drafts : ∀ (f : Forest) (offset : Nat), (f.drafts offset).length = f.count
  | nil, _ => rfl
  | single x rest, offset => by rw [drafts, count, List.length_cons, length_drafts rest]
  | node r children closing rest, offset => by
      simp only [drafts, count, List.length_cons, List.length_append, length_drafts children,
        length_drafts rest]
      omega

theorem sizeAll_drafts : ∀ (f : Forest) (offset : Nat), Draft.sizeAll (f.drafts offset) = f.size
  | nil, _ => rfl
  | single x rest, offset => by
      rw [drafts, size, Draft.sizeAll_cons, x.size_draft, sizeAll_drafts rest]
  | node r children closing rest, offset => by
      simp only [drafts, size, Draft.sizeAll_cons, Draft.sizeAll_append, sizeAll_drafts children,
        sizeAll_drafts rest, Node.size_draft, Closing.size_draft]
      omega

/-! ## The links that are read back -/

theorem outline_bare (b : Draft.Bare) (offset : Nat) :
    ((Draft.bare b).place offset).outline =
      { offset := UInt32.ofNat offset, isPadding := true, target := none } := by
  have hpadding : (decide (b.length < 8) || decide (Tag.ofValue b.tag = .padding)) = true := by
    rw [Bool.or_eq_true, decide_eq_true_eq, decide_eq_true_eq, Tag.ofValue_eq_padding_iff]
    exact b.null_or_padding
  exact Outline.ext rfl hpadding rfl

theorem siblingTarget_cons_of_ne {a : Attribute} (h : a.name ≠ .sibling) (as : List Attribute) :
    DebugInfo.siblingTarget (a :: as) = DebugInfo.siblingTarget as := by
  simp only [DebugInfo.siblingTarget, List.findSome?_cons]
  split
  case h_1 target htarget =>
      split at htarget
      case h_1 hname _ => exact absurd hname h
      case h_2 => cases htarget
  case h_2 => rfl

/-- The sibling attribute is found behind attributes of other names. -/
theorem siblingTarget_placeFrom (target : Nat) (after : List NamedValue) :
    ∀ (before : List NamedValue) (offset : Nat),
      (∀ a ∈ before, AttributeName.ofValue a.rawName ≠ .sibling) →
      DebugInfo.siblingTarget (placeFrom NamedValue.size NamedValue.place offset
        (before ++ Node.siblingValue target :: after)) = some (UInt32.ofNat target)
  | [], _, _ => rfl
  | a :: as, offset, h => by
      have hname : (NamedValue.place offset a).name ≠ .sibling := h a (List.mem_cons_self ..)
      rw [List.cons_append, placeFrom, siblingTarget_cons_of_ne hname]
      exact siblingTarget_placeFrom target after as _ fun b hb => h b (List.mem_cons_of_mem _ hb)

theorem outline_draft (r : Node) (target offset : Nat) :
    ((r.draft target).place offset).outline =
      { offset := UInt32.ofNat offset, isPadding := false
        target := some (UInt32.ofNat target) } := by
  refine Outline.ext rfl ?_ (siblingTarget_placeFrom target r.after r.before _ r.before_ne)
  refine Bool.or_eq_false_iff.mpr ⟨decide_eq_false ?_, decide_eq_false ?_⟩
  · exact UInt32.not_lt.mpr (Draft.Full.eight_le_length _)
  · exact fun h => r.tag_ne (Tag.ofValue_eq_padding_iff.mp h)

section Own

open DebugInfo

variable {es : List Draft} (hsize : Draft.sizeAll es < 2 ^ 32)

theorem getElem?_rows_placeAll {pre post : List Draft} (hes : es = pre ++ post) :
    (rows (Draft.placeAll es))[pre.length]? =
      post.head?.map fun e => (e.place (Draft.sizeAll pre)).outline := by
  rw [getElem?_rows, hes, Draft.placeAll, getElem?_placeFrom_append, Option.map_map, Nat.zero_add]
  rfl

theorem size_rows_placeAll : (rows (Draft.placeAll es)).size = es.length := by
  rw [size_rows, Draft.placeAll, length_placeFrom]

/-- The record after one of them. -/
theorem getElem?_rows_next {pre post : List Draft} {e : Draft} (hes : es = pre ++ e :: post) :
    (rows (Draft.placeAll es))[pre.length + 1]? =
      post.head?.map fun e' => (e'.place (Draft.sizeAll pre + e.size)).outline := by
  have hnext := getElem?_rows_placeAll (show es = (pre ++ [e]) ++ post by
    rw [hes, List.append_assoc, List.singleton_append])
  rwa [List.length_append, List.length_singleton, Draft.sizeAll_append, Draft.sizeAll_cons,
    Draft.sizeAll_nil, Nat.add_zero] at hnext

theorem isPadding_bare {pre post : List Draft} {b : Draft.Bare}
    (hes : es = pre ++ .bare b :: post) : IsPadding (rows (Draft.placeAll es)) pre.length :=
  ⟨_, getElem?_rows_placeAll hes, congrArg Outline.isPadding (outline_bare b _)⟩

theorem own_bare {pre post : List Draft} {b : Draft.Bare} (hes : es = pre ++ .bare b :: post) :
    Links.own (rows (Draft.placeAll es)) (placeAt (Draft.placeAll es)) pre.length =
      (none, none) := by
  obtain ⟨row, hrow, hpadding⟩ := isPadding_bare hes
  exact Links.own_of_padding hrow hpadding

/-- A childless record points at the record after it. -/
theorem own_leaf {pre post : List Draft} {r : Node}
    (hes : es = pre ++ r.draft (Draft.sizeAll pre + r.size) :: post) :
    Links.own (rows (Draft.placeAll es)) (placeAt (Draft.placeAll es)) pre.length =
      (link (rows (Draft.placeAll es)).size (pre.length + 1), none) := by
  have hrow := getElem?_rows_placeAll hes
  have hnext := getElem?_rows_next hes
  rw [List.head?_cons, Option.map_some, outline_draft] at hrow
  rw [size_rows_placeAll]
  cases post with
  | nil => rw [Links.own_of_last hnext, link_of_le (by simp [hes])]
  | cons e post =>
      rw [Links.own_of_target hrow hnext rfl rfl, if_pos, link_of_lt (by simp [hes])]
      rw [Node.size_draft]
      exact (e.offset_place _).symm

include hsize

/-- The offset after some of the records is that of the next one, if there is
one. -/
theorem placeAt_placeAll (pre post : List Draft) (hes : es = pre ++ post) :
    placeAt (Draft.placeAll es) (UInt32.ofNat (Draft.sizeAll pre)) =
      link (rows (Draft.placeAll es)).size pre.length := by
  have htiles := Draft.tiles_placeAll .little es
  have hlength : (Draft.encodeAll .little es).length < 2 ^ 32 := by
    rwa [Draft.length_encodeAll]
  have hfind : ∀ o i, placeAt (Draft.placeAll es) o = some i ↔
      ∃ r, (Draft.placeAll es)[i]? = some r ∧ r.offset = o := fun _ _ =>
    @find?_assemble_eq_some_iff _ _ [] _ htiles hlength _ _
  have hget : (Draft.placeAll es)[pre.length]? =
      post.head?.map (Draft.place (Draft.sizeAll pre)) := by
    rw [hes, Draft.placeAll, getElem?_placeFrom_append, Nat.zero_add]
    rfl
  rw [size_rows_placeAll]
  cases post with
  | cons e post =>
      rw [link_of_lt (by simp [hes])]
      exact (hfind _ _).mpr ⟨_, hget, e.offset_place _⟩
  | nil =>
      rw [link_of_le (by simp [hes])]
      refine Option.eq_none_iff_forall_ne_some.mpr fun i hi => ?_
      obtain ⟨r, hr, hoffset⟩ := (hfind _ _).mp hi
      obtain ⟨q, s, t, hq, -, hqr, hs, -⟩ := exists_spans htiles hlength hr
      -- the offset of a record leaves room for the record
      have hpos : 0 < s.length := List.length_pos_iff.mpr hs.ne_nil
      have htotal := congrArg List.length hq
      rw [Draft.length_encodeAll, List.length_append, List.length_append] at htotal
      rw [List.append_nil] at hes
      rw [hoffset, ← hes, UInt32.toNat_ofNat_of_lt' hsize] at hqr
      omega

/-- A record with others between it and the one it points at has children. -/
theorem own_node {pre : List Draft} {r : Node} {target : Nat} (mid post : List Draft)
    (hmid : mid ≠ []) (hes : es = pre ++ r.draft target :: (mid ++ post))
    (htarget : target = Draft.sizeAll pre + r.size + Draft.sizeAll mid) :
    Links.own (rows (Draft.placeAll es)) (placeAt (Draft.placeAll es)) pre.length =
      (link (rows (Draft.placeAll es)).size (pre.length + mid.length + 1),
        some (pre.length + 1)) := by
  obtain ⟨m, mid, rfl⟩ := List.exists_cons_of_ne_nil hmid
  have hrow := getElem?_rows_placeAll hes
  have hnext := getElem?_rows_next hes
  rw [List.head?_cons, Option.map_some, outline_draft] at hrow
  have hplace := placeAt_placeAll hsize (pre ++ r.draft target :: m :: mid) post (by simp [hes])
  rw [List.length_append, List.length_cons, ← Nat.add_assoc, Draft.sizeAll_append,
    Draft.sizeAll_cons, Node.size_draft, ← Nat.add_assoc, ← htarget] at hplace
  -- the record it points at is not the next one
  have hne : UInt32.ofNat target ≠ UInt32.ofNat (Draft.sizeAll pre + r.size) := by
    have hpos := m.four_le_size
    have htotal := congrArg Draft.sizeAll hes
    simp only [Draft.sizeAll_append, Draft.sizeAll_cons, Node.size_draft] at htarget htotal
    intro heq
    have hsame := congrArg UInt32.toNat heq
    rw [UInt32.toNat_ofNat_of_lt' (by show _ < 2 ^ 32; omega),
      UInt32.toNat_ofNat_of_lt' (by show _ < 2 ^ 32; omega)] at hsame
    omega
  rw [Links.own_of_target hrow hnext rfl rfl, if_neg, hplace,
    filter_link (by rw [List.length_cons]; omega)]
  rw [Node.size_draft]
  exact fun heq => hne (heq.trans (m.offset_place _))

/-- The sibling attributes link a forest up to its padding. -/
theorem linked_own : ∀ (f : Forest) (pre post : List Draft),
    es = pre ++ (f.drafts (Draft.sizeAll pre) ++ post) →
      Linked (rows (Draft.placeAll es))
        (fun i => (Links.own (rows (Draft.placeAll es)) (placeAt (Draft.placeAll es)) i).1)
        (fun i => (Links.own (rows (Draft.placeAll es)) (placeAt (Draft.placeAll es)) i).2)
        false false f pre.length
  | nil, _, _, _ => trivial
  | single x rest, pre, post, hes => by
      have hrest := linked_own rest (pre ++ [x.draft (Draft.sizeAll pre)]) post
        (by simpa [drafts, Single.size_draft] using hes)
      rw [List.length_append, List.length_singleton] at hrest
      cases x with
      | filler b =>
          have hown := own_bare hes
          exact ⟨fun _ => isPadding_bare hes, congrArg Prod.fst hown, congrArg Prod.snd hown, hrest⟩
      | leaf r =>
          have hown := own_leaf hes
          exact ⟨nofun, congrArg Prod.fst hown, congrArg Prod.snd hown, hrest⟩
  | node r children closing rest, pre, post, hes => by
      simp only [drafts, List.cons_append, List.append_assoc] at hes
      -- the record, its children, the record that closes them and the rest
      generalize htarget : Draft.sizeAll pre + r.size + children.size + 4 = target at hes
      have hinner := linked_own children (pre ++ [r.draft target])
        (closing.draft :: (rest.drafts target ++ post)) (by simp [hes, Node.size_draft])
      have hlength := children.length_drafts (Draft.sizeAll pre + r.size)
      have hbytes := children.sizeAll_drafts (Draft.sizeAll pre + r.size)
      generalize children.drafts (Draft.sizeAll pre + r.size) = inner at hes hlength hbytes
      have hown := own_node hsize (inner ++ [closing.draft]) (rest.drafts target ++ post)
        (List.append_ne_nil_of_right_ne_nil _ (List.cons_ne_nil _ _))
        (show es = pre ++ r.draft target :: _ by simp [hes])
        (by simp [hbytes, Closing.size_draft, ← htarget, Nat.add_assoc])
      have hclosing : es = (pre ++ r.draft target :: inner) ++
          closing.draft :: (rest.drafts target ++ post) := by simp [hes]
      have hpadding := isPadding_bare hclosing
      have hnone := own_bare hclosing
      have hbehind : Draft.sizeAll (pre ++ r.draft target :: (inner ++ [closing.draft])) =
          target := by
        simp [hbytes, Node.size_draft, Closing.size_draft, ← htarget, Nat.add_assoc]
      have hrest := linked_own rest (pre ++ r.draft target :: (inner ++ [closing.draft])) post
        (by rw [hbehind]; simp [hes])
      simp only [List.length_append, List.length_cons, List.length_nil, hlength]
        at hown hinner hpadding hnone hrest
      exact ⟨congrArg Prod.fst hown, congrArg Prod.snd hown, hpadding, congrArg Prod.fst hnone,
        congrArg Prod.snd hnone, hinner, hrest⟩

end Own

/-! ## The forest that is read back -/

section Decoded

open DebugInfo

variable {f : Forest} (hsize : f.size < 2 ^ 32) (order : ByteOrder) (tables : List LineTable)

/-- Roots are met from the first record on. -/
theorem walk_roots (rs : List RawRecord) :
    Links.Walk (assemble order rs tables).sibling (link rs.length 0)
      (assemble order rs tables).roots := by
  have hstart : (if (assemble order rs tables).records.isEmpty then none else some 0) =
      link rs.length 0 := by
    have hsize : (assemble order rs tables).records.size = rs.length := size_records_assemble
    rw [Array.isEmpty, hsize, link]
    cases rs with
    | nil => rfl
    | cons r rs => rfl
  rw [roots, hstart]
  refine Links.walk_chain (forward_assemble order tables) fun i hi => ?_
  rw [size_sibling_assemble]
  unfold link at hi
  split at hi
  case isTrue hlt =>
      cases hi
      exact hlt
  case isFalse => cases hi

theorem count_eq_size : f.count = (rows (Draft.placeAll (f.drafts 0))).size := by
  rw [size_rows_placeAll, length_drafts]

include hsize

/-- A forest that is read back has all its links. -/
theorem linked_assemble :
    Linked (rows (Draft.placeAll (f.drafts 0)))
      (assemble order (Draft.placeAll (f.drafts 0)) tables).sibling
      (assemble order (Draft.placeAll (f.drafts 0)) tables).firstChild true false f 0 :=
  linked_ofOutlines count_eq_size
    (linked_own (by rwa [sizeAll_drafts]) f [] [] (List.append_nil _).symm)

theorem roots_assemble (hroots : f.Rooted) :
    (assemble order (Draft.placeAll (f.drafts 0)) tables).roots = f.places 0 := by
  have hcount := @count_eq_size f
  have hwalk := walk_places f 0 ((linked_assemble hsize order tables).of_rooted hroots)
    (by omega) (by rw [link_of_le (by omega)]; exact .done)
  rw [List.append_nil, size_rows] at hwalk
  exact hwalk.unique (walk_roots order tables _)

/-- Roots are in no child list. -/
theorem parent_assemble {c : Nat} (hc : c ∈ f.places 0) :
    (assemble order (Draft.placeAll (f.drafts 0)) tables).parent c = none := by
  have hlinks := @wellLinked_assemble order (Draft.placeAll (f.drafts 0)) tables
  refine (hlinks.parent_eq_none_iff c).mpr fun q hq => ?_
  have hlt := (lt_of_mem_children hlinks hq).2
  rw [size_records_assemble, Draft.placeAll, length_placeFrom, length_drafts] at hlt
  exact (mem_children hlinks (linked_assemble hsize order tables) (Nat.zero_le q)
    (by omega) hq).2 hc

end Decoded

end Forest

namespace DebugInfo

/-- A forest is decoded into its records.  The roots are its topmost level in
order, and every record has the parent and the children it has in the forest. -/
theorem decode_forest (f : Forest) (hroots : f.Rooted) {order : ByteOrder}
    (hsize : (Draft.encodeAll order (f.drafts 0)).length < 2 ^ 32) {line : Option (List UInt8)}
    {tables : List LineTable} (hline : lineTablesOf order line = .ok tables) :
    ∃ d, decode order (Draft.encodeAll order (f.drafts 0)) line = .ok d ∧
      d.contents = Draft.placeAll (f.drafts 0) ∧ d.roots = f.places 0 ∧
      (List.range d.records.size).map (fun i => (d.parent i, d.children i)) = f.nest none 0 := by
  rw [Draft.length_encodeAll, Forest.sizeAll_drafts] at hsize
  refine ⟨assemble order (Draft.placeAll (f.drafts 0)) tables,
    decode_eq_ok_iff.mpr ⟨_, tables, Draft.readAll_encodeAll order _, hline, rfl⟩,
    contents_assemble, Forest.roots_assemble hsize order tables hroots, ?_⟩
  rw [size_records_assemble, Draft.placeAll, length_placeFrom, Forest.length_drafts,
    List.range_eq_range']
  exact Forest.map_eq_nest (wellLinked_assemble order tables)
    (Forest.linked_assemble hsize order tables) fun c hc =>
      Forest.parent_assemble hsize order tables hc

/-- A root with padding and a childless record in its list, and a second root. -/
def sampleForest : Forest :=
  let item := Forest.Node.plain 0x13 (by decide)
  .node item
    (.single (.filler
        { length := 7, tag := 0, fill := [5], null_or_padding := by decide
          tag_eq := by decide, length_fill := by decide })
      (.single (.leaf item) .nil))
    .null
    (.single (.leaf item) .nil)

theorem decode_sampleForest : sampleForest.Rooted ∧
    (Draft.encodeAll .big (sampleForest.drafts 0)).length < 2 ^ 32 ∧
    lineTablesOf .big none = .ok [] ∧
    ∃ d, decode .big (Draft.encodeAll .big (sampleForest.drafts 0)) none = .ok d ∧
      d.contents = Draft.placeAll (sampleForest.drafts 0) ∧ d.roots = [0, 4] ∧
      (List.range d.records.size).map (fun i => (d.parent i, d.children i)) =
        [(none, [1, 2, 3]), (some 0, []), (some 0, []), (some 0, []), (none, [])] :=
  ⟨⟨rfl, trivial⟩, by decide, rfl, decode_forest sampleForest ⟨rfl, trivial⟩ (by decide) rfl⟩

end DebugInfo

end DwarfOne
