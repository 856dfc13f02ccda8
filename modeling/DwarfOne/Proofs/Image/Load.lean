/-
# `Proofs.Image.Load` — what is known of an image that loads

Each table of headers is read entry by entry, and the bytes that an entry speaks of are
looked at there and then.  So an image that loads has all the entries its header counts,
and the bytes of its sections are there: `sectionData?` gives none only where there are
none.  Sections get their names afterwards, which changes nothing else.
-/
import DwarfOne.Proofs.Image.Fields
import Mathlib.Data.List.Forall2

namespace DwarfOne

/-! ## Steps that may fail -/

namespace Except

variable {ε ε' α β : Type}

theorem ite_error_eq_ok_iff {c : Prop} [Decidable c] {e : ε} {x : Except ε α} {a : α} :
    (if c then .error e else x) = .ok a ↔ ¬ c ∧ x = .ok a := by
  by_cases hc : c <;> simp [hc]

theorem bind_eq_ok_iff {x : Except ε α} {f : α → Except ε β} {b : β} :
    (x >>= f) = .ok b ↔ ∃ a, x = .ok a ∧ f a = .ok b := by
  cases x with
  | error e => simp [bind, Except.bind]
  | ok a => simp [bind, Except.bind]

theorem mapError_eq_ok_iff {x : Except ε α} {f : ε → ε'} {a : α} :
    x.mapError f = .ok a ↔ x = .ok a := by
  cases x with
  | error e => simp [Except.mapError]
  | ok b => simp [Except.mapError]

/-- A step done only to see whether it fails. -/
theorem discard_bind_eq_ok_iff {x : Except ε α} {y : Except ε β} {b : β} :
    (discard x >>= fun _ => y) = .ok b ↔ (∃ a, x = .ok a) ∧ y = .ok b := by
  cases x with
  | error e => simp [discard, Functor.discard, Functor.mapConst, Except.map, bind, Except.bind]
  | ok a => simp [discard, Functor.discard, Functor.mapConst, Except.map, bind, Except.bind]

theorem forall₂_of_mapM_eq_ok {f : α → Except ε β} {items : List α} {results : List β}
    (h : items.mapM f = .ok results) : List.Forall₂ (fun a b => f a = .ok b) items results := by
  induction items generalizing results with
  | nil =>
      rw [List.mapM_nil] at h
      cases h
      exact .nil
  | cons a items ih =>
      rw [List.mapM_cons, bind_eq_ok_iff] at h
      obtain ⟨b, hb, h⟩ := h
      obtain ⟨bs, hbs, h⟩ := bind_eq_ok_iff.mp h
      cases h
      exact .cons hb (ih hbs)

end Except

/-! ## Texts between zero bytes -/

/-- The text from an index of the bytes up to the next zero byte. -/
def TextAt (data : List UInt8) (index : Nat) (text : String) : Prop :=
  ∃ body rest, data.drop index = body ++ 0 :: rest ∧ 0 ∉ body ∧ text = Utf8.text body

theorem string_on_ofBytes_eq_ok_iff {order : ByteOrder} {data : List UInt8} {index : Nat}
    {text : String} :
    Reader.string.on (.ofBytes order data index) = .ok text ↔ TextAt data index text := by
  simp only [Reader.on_eq_ok_iff, Reader.string_eq_ok_iff]
  constructor
  · rintro ⟨c', body, rest, hsplit, hbody, htext, -⟩
    exact ⟨body, rest, hsplit, hbody, htext⟩
  · rintro ⟨body, rest, hsplit, hbody, htext⟩
    exact ⟨_, body, rest, hsplit, hbody, htext, rfl⟩

/-- The name at an index of the bytes with the names, if there are such.  One that does not end
is no name. -/
inductive NameFrom (names : Option (List UInt8)) (index : UInt32) : String → Prop
  | found {data : List UInt8} {text : String} (hdata : names = some data)
      (htext : TextAt data index.toNat text) : NameFrom names index text
  | noData (hdata : names = none) : NameFrom names index ""
  | notEnded {data : List UInt8} (hdata : names = some data)
      (htext : ∀ text, ¬ TextAt data index.toNat text) : NameFrom names index ""

namespace Image

/-! ## Tables of headers -/

variable {bytes : Array UInt8} {order : ByteOrder} {offset size : Nat}

theorem identify_eq_ok (h : identify bytes = .ok order) :
    headerSize ≤ bytes.size ∧
      (bytes[5]? = some 1 ∧ order = .little ∨ bytes[5]? = some 2 ∧ order = .big) := by
  have hthrow : ∀ (e : ImageError) (α : Type), (throw e : Except ImageError α) = .error e :=
    fun _ _ => rfl
  simp only [identify, hthrow, bind, Except.bind, pure, Except.pure,
    Except.ite_error_eq_ok_iff] at h
  obtain ⟨-, -, hsize, -, hdata, -, h⟩ := h
  rw [Nat.not_lt] at hsize
  have hbyte : bytes[5]? = some (bytes.getD 5 0) := by
    have hlt : 5 < bytes.size := Nat.lt_of_lt_of_le (by decide) hsize
    simp [Array.getD, hlt]
  cases h
  refine ⟨hsize, ?_⟩
  rw [hbyte]
  by_cases hlittle : bytes.getD 5 0 = 1
  · exact .inl ⟨congrArg some hlittle, by simp [hlittle, ByteOrder.ofFlag]⟩
  · have hbig : bytes.getD 5 0 = 2 := by
      by_contra hother
      exact hdata ⟨hlittle, hother⟩
    exact .inr ⟨congrArg some hbig, by simp [hbig, ByteOrder.ofFlag]⟩

theorem slice_eq_ok_iff {data : List UInt8} : slice bytes offset size = .ok data ↔
    offset + size ≤ bytes.size ∧ data = (bytes.extract offset (offset + size)).toList := by
  unfold slice
  split
  case isTrue h => simp [h, eq_comm]
  case isFalse h => simp [h]

/-- The entries of a table, each read at its own place. -/
theorem readTable_eq_ok {α : Type} {count entrySize : Nat} {read : Nat → Except ImageError α}
    {entries : Array α} (h : readTable count entrySize offset read = .ok entries) :
    entries.size = count ∧
      ∀ i a, entries[i]? = some a → read (offset + i * entrySize) = .ok a := by
  rw [readTable, Array.mapM_eq_mapM_toList] at h
  obtain ⟨results, hresults, h⟩ := Except.bind_eq_ok_iff.mp (show _ >>= _ = _ from h)
  cases h
  obtain ⟨hlength, hget⟩ := List.forall₂_iff_get.mp (Except.forall₂_of_mapM_eq_ok hresults)
  have hcount : results.length = count := by simpa using hlength.symm
  refine ⟨by simpa using hcount, fun i a ha => ?_⟩
  obtain ⟨hi, rfl⟩ := Array.getElem?_eq_some_iff.mp ha
  have hread := hget i (by simpa [hcount] using hi) (by simpa using hi)
  simpa using hread

/-- The same where the header may count no entries, or have them too small. -/
theorem readHeaders_eq_ok {α : Type} {count entrySize : UInt16} {least : Nat} {e : ImageError}
    {read : Nat → Except ImageError α} {entries : Array α}
    (h : (do
      if count = 0 then return #[]
      if entrySize.toNat < least then throw e
      readTable count.toNat entrySize.toNat offset read) = .ok entries) :
    entries.size = count.toNat ∧
      ∀ i a, entries[i]? = some a → read (offset + i * entrySize.toNat) = .ok a := by
  by_cases hcount : count = 0
  · rw [if_pos hcount] at h
    cases h
    exact ⟨by simp [hcount], fun i a ha => by simp at ha⟩
  · rw [if_neg hcount] at h
    by_cases hsize : entrySize.toNat < least
    · rw [if_pos hsize] at h
      cases h
    · rw [if_neg hsize] at h
      exact readTable_eq_ok h

/-- What is read, with a look at the bytes it speaks of. -/
theorem checked_eq_ok_iff {α : Type} {x : Except OutOfBounds α} {c : α → Prop} [DecidablePred c]
    {place : α → Range} {a : α} :
    (Except.mapError ImageError.ofOutOfBounds do
        let a ← x
        if c a then
          discard (slice bytes (place a).start.toNat (place a).size.toNat)
        return a) = .ok a ↔
      x = .ok a ∧ (c a → (place a).start.toNat + (place a).size.toNat ≤ bytes.size) := by
  have hcheck : ∀ b : α, (do
      if c b then
        discard (slice bytes (place b).start.toNat (place b).size.toNat)
      return b : Except OutOfBounds α) = .ok a ↔
        (c b → (place b).start.toNat + (place b).size.toNat ≤ bytes.size) ∧ b = a := by
    intro b
    by_cases hc : c b
    · rw [if_pos hc, Except.discard_bind_eq_ok_iff]
      simp [hc, slice_eq_ok_iff, pure, Except.pure]
    · rw [if_neg hc]
      simp [hc, pure, Except.pure]
  rw [Except.mapError_eq_ok_iff, Except.bind_eq_ok_iff]
  constructor
  · rintro ⟨b, hx, hb⟩
    obtain ⟨hfits, rfl⟩ := (hcheck b).mp hb
    exact ⟨hx, hfits⟩
  · rintro ⟨hx, hfits⟩
    exact ⟨a, hx, (hcheck a).mpr ⟨hfits, rfl⟩⟩

/-- A segment is what its header says, and one that is loaded is in the file. -/
theorem readSegment_eq_ok_iff {s : Segment} : readSegment order bytes offset = .ok s ↔
    (offset + Segment.headerSize ≤ bytes.size ∧ s = segmentAt order bytes offset) ∧
      (s.type = .load → s.file.start.toNat + s.file.size.toNat ≤ bytes.size) := by
  rw [← segment_read_eq_ok_iff]
  exact checked_eq_ok_iff

/-- A section is what its header says, and one that has bytes has them in the file. -/
theorem readSection_eq_ok_iff {s : Section} : readSection order bytes offset = .ok s ↔
    (offset + Section.headerSize ≤ bytes.size ∧ s = sectionAt order bytes offset "") ∧
      (s.hasData = true → s.file.start.toNat + s.file.size.toNat ≤ bytes.size) := by
  rw [← section_read_eq_ok_iff]
  exact checked_eq_ok_iff

/-! ## Names

Names are given after everything is read, from the bytes of one of the sections.  No bytes
depend on a name, so it makes no difference whether a name is looked up before or after.
-/

variable {image image' : Image}

/-- What the table of names holds at an index. -/
def nameAt (image : Image) (index : UInt32) : String :=
  if image.header.nameTableIndex = 0 then ""
  else (image.string? image.header.nameTableIndex.toUInt32 index).getD ""

/-- Two images of the same file that differ in the names of sections, and in what is said
of symbols. -/
structure Renamed (image image' : Image) : Prop where
  bytes : image'.bytes = image.bytes
  order : image'.order = image.order
  header : image'.header = image.header
  segments : image'.segments = image.segments
  sections : image'.sections =
    image.sections.map fun s => { s with name := image.nameAt s.nameIndex }

theorem Renamed.exists_section (h : Renamed image image') {i : Nat} {s : Section}
    (hs : image'.sections[i]? = some s) :
    ∃ t, image.sections[i]? = some t ∧ s = { t with name := image.nameAt t.nameIndex } := by
  rw [h.sections, Array.getElem?_map, Option.map_eq_some_iff] at hs
  obtain ⟨t, ht, rfl⟩ := hs
  exact ⟨t, ht, rfl⟩

theorem Renamed.section? (h : Renamed image image') (index : UInt32) :
    image'.section? index =
      (image.section? index).map fun s => { s with name := image.nameAt s.nameIndex } := by
  rw [Image.section?, h.sections, Array.getElem?_map]
  rfl

theorem Renamed.sectionData? (h : Renamed image image') (index : UInt32) :
    image'.sectionData? index = image.sectionData? index := by
  rw [Image.sectionData?, Image.sectionData?, h.section?, h.bytes]
  cases image.section? index <;> rfl

theorem Renamed.string? (h : Renamed image image') (home index : UInt32) :
    image'.string? home index = image.string? home index := by
  rw [Image.string?, Image.string?, readString?, readString?, h.sectionData?, h.order]

theorem Renamed.nameAt (h : Renamed image image') (index : UInt32) :
    image'.nameAt index = image.nameAt index := by
  rw [Image.nameAt, Image.nameAt, h.header, h.string?]

theorem nameIn_fst (home index : UInt32) :
    (image.nameIn home index).1 = (image.string? home index).getD "" := by
  rw [nameIn, string?]
  rcases image.readString? home index with _ | _ | _ <;> rfl

theorem nameFrom_string? (image : Image) (home index : UInt32) :
    NameFrom (image.sectionData? home) index ((image.string? home index).getD "") := by
  rw [string?, readString?]
  cases hdata : image.sectionData? home with
  | none => exact .noData rfl
  | some data =>
      simp only [Option.pure_def, Option.bind_eq_bind, Option.bind_some]
      cases htext : Reader.string.on (.ofBytes image.order data index.toNat) with
      | ok text => exact .found rfl (string_on_ofBytes_eq_ok_iff.mp htext)
      | error cause =>
          refine .notEnded rfl fun text hat => ?_
          cases htext.symm.trans (string_on_ofBytes_eq_ok_iff.mpr hat)

/-- The name of a section, by its index in the section with the names. -/
inductive SectionName (image : Image) (index : UInt32) : String → Prop
  | noTable (h : image.header.nameTableIndex = 0) : SectionName image index ""
  | named {name : String} (h : image.header.nameTableIndex ≠ 0)
      (hname : NameFrom (image.sectionData? image.header.nameTableIndex.toUInt32) index name) :
      SectionName image index name

theorem sectionName_nameAt (image : Image) (index : UInt32) :
    SectionName image index (image.nameAt index) := by
  rw [nameAt]
  split
  case isTrue h => exact .noTable h
  case isFalse h => exact .named h (nameFrom_string? image _ index)

theorem renamed_nameSections (h : ∀ s ∈ image.sections, s.name = "") :
    Renamed image image.nameSections := by
  -- where no table is read, the sections keep the empty names they have
  have hkept : (∀ s ∈ image.sections, image.nameAt s.nameIndex = "") →
      image.sections = image.sections.map fun s => { s with name := image.nameAt s.nameIndex } := by
    intro hnames
    refine (Array.map_id' image.sections).symm.trans (Array.map_congr_left fun s hs => ?_)
    rw [hnames s hs, ← h s hs]
  have hzero : image.header.nameTableIndex.toUInt32 = 0 ↔ image.header.nameTableIndex = 0 :=
    UInt16.toUInt32_inj (b := 0)
  by_cases hhome : image.header.nameTableIndex = 0
  · have hsame : image.nameSections = image := if_pos (hzero.mpr hhome)
    rw [hsame]
    exact ⟨rfl, rfl, rfl, rfl, hkept fun s _ => if_pos hhome⟩
  · by_cases hnone : (image.section? image.header.nameTableIndex.toUInt32).isNone
    · have hsame : image.nameSections = { image with
          warnings := image.warnings ++ [.badNameTable image.header.nameTableIndex] } :=
        (if_neg (mt hzero.mp hhome)).trans (if_pos hnone)
      rw [hsame]
      refine ⟨rfl, rfl, rfl, rfl, hkept fun s _ => ?_⟩
      rw [Option.isNone_iff_eq_none] at hnone
      simp [Image.nameAt, string?, readString?, Image.sectionData?, hnone]
    · have hnamed : image.nameSections = _ := (if_neg (mt hzero.mp hhome)).trans (if_neg hnone)
      rw [hnamed]
      refine ⟨rfl, rfl, rfl, rfl, ?_⟩
      refine Array.ext (by simp) fun i _ _ => ?_
      simp [Image.nameAt, hhome, nameIn_fst]

theorem renamed_readSymbolTable (h : Renamed image image') :
    Renamed image image'.readSymbolTable := by
  unfold readSymbolTable
  split
  case h_1 => exact h
  case h_2 =>
      split
      case h_1 => exact ⟨h.bytes, h.order, h.header, h.segments, h.sections⟩
      case h_2 => exact ⟨h.bytes, h.order, h.header, h.segments, h.sections⟩

/-! ## Loading -/

/-- What is read on the way to an image.  The image itself has names besides. -/
theorem exists_renamed_of_load (h : load bytes = .ok image) :
    ∃ tables : Image, Renamed tables image ∧ tables.bytes = bytes ∧
      identify bytes = .ok tables.order ∧
      Header.ofBytes tables.order bytes = .ok tables.header ∧
      readSegments tables.order bytes tables.header = .ok tables.segments ∧
      readSections tables.order bytes tables.header = .ok tables.sections := by
  obtain ⟨order, horder, h⟩ := Except.bind_eq_ok_iff.mp h
  obtain ⟨header, hheader, h⟩ := Except.bind_eq_ok_iff.mp h
  obtain ⟨segments, hsegments, h⟩ := Except.bind_eq_ok_iff.mp h
  obtain ⟨sections, hsections, h⟩ := Except.bind_eq_ok_iff.mp h
  cases h
  refine ⟨_, renamed_readSymbolTable (renamed_nameSections fun s hs => ?_), rfl, horder,
    Except.mapError_eq_ok_iff.mp hheader, hsegments, hsections⟩
  obtain ⟨i, hi⟩ := Array.mem_iff_getElem?.mp hs
  obtain ⟨⟨-, rfl⟩, -⟩ := readSection_eq_ok_iff.mp ((readHeaders_eq_ok hsections).2 i s hi)
  rfl

theorem segments_of_load (h : load bytes = .ok image) :
    image.segments.size = image.header.programHeaderCount.toNat ∧
      ∀ i s, image.segments[i]? = some s →
        readSegment image.order bytes (image.header.segmentOffset i) = .ok s := by
  obtain ⟨tables, hrenamed, rfl, -, -, hsegments, -⟩ := exists_renamed_of_load h
  rw [hrenamed.segments, hrenamed.header, hrenamed.order]
  exact readHeaders_eq_ok hsegments

theorem sections_of_load (h : load bytes = .ok image) :
    image.sections.size = image.header.sectionHeaderCount.toNat ∧
      ∀ i s, image.sections[i]? = some s →
        ∃ t, readSection image.order bytes (image.header.sectionOffset i) = .ok t ∧
          s = { t with name := image.nameAt t.nameIndex } := by
  obtain ⟨tables, hrenamed, rfl, -, -, -, hsections⟩ := exists_renamed_of_load h
  obtain ⟨hcount, hread⟩ := readHeaders_eq_ok hsections
  rw [hrenamed.header, hrenamed.order]
  refine ⟨by rw [hrenamed.sections, Array.size_map, hcount], fun i s hs => ?_⟩
  obtain ⟨t, ht, rfl⟩ := hrenamed.exists_section hs
  exact ⟨t, hread i t ht, by rw [hrenamed.nameAt]⟩

/-! ## The bytes of a section -/

section Data

variable {index : UInt32} {s : Section}

theorem sectionData?_eq_some (hs : image.section? index = some s) (hdata : s.hasData = true)
    (hfits : s.file.start.toNat + s.file.size.toNat ≤ image.bytes.size) :
    image.sectionData? index = some
      (image.bytes.extract s.file.start.toNat
        (s.file.start.toNat + s.file.size.toNat)).toList := by
  simp [sectionData?, hs, hdata, slice, hfits, Except.toOption]

theorem sectionData?_eq_none (h : ∀ s, image.section? index = some s → s.hasData = false) :
    image.sectionData? index = none := by
  rw [sectionData?]
  cases hs : image.section? index with
  | none => rfl
  | some s => simp [h s hs]

theorem sectionIndex?_eq_some (hs : image.section? index = some s)
    (hfirst : ∀ earlier < index, ∀ t, image.section? earlier = some t → t.name ≠ s.name) :
    image.sectionIndex? s.name = some index := by
  obtain ⟨hindex, hget⟩ := Array.getElem?_eq_some_iff.mp hs
  have hfound : image.sections.findIdx? (·.name = s.name) = some index.toNat := by
    rw [Array.findIdx?_eq_some_iff_getElem]
    refine ⟨hindex, by simp [hget], fun j hj hname => ?_⟩
    have hround : (UInt32.ofNat j).toNat = j :=
      UInt32.toNat_ofNat_of_lt' (Nat.lt_trans hj index.toNat_lt)
    refine hfirst (.ofNat j) (UInt32.lt_iff_toNat_lt.mpr (by rwa [hround])) _ ?_
      (by simpa using hname)
    rw [section?, hround]
    exact Array.getElem?_eq_getElem _
  rw [sectionIndex?, hfound, Option.map_some, UInt32.ofNat_toNat]

theorem sectionIndex?_eq_none {name : String} (hsize : image.sections.size ≤ UInt32.size)
    (h : ∀ index s, image.section? index = some s → s.name ≠ name) :
    image.sectionIndex? name = none := by
  rw [sectionIndex?, Option.map_eq_none_iff, Array.findIdx?_eq_none_iff]
  intro s hs
  obtain ⟨i, hi⟩ := Array.mem_iff_getElem?.mp hs
  have hround : (UInt32.ofNat i).toNat = i :=
    UInt32.toNat_ofNat_of_lt' (Nat.lt_of_lt_of_le (Array.getElem?_eq_some_iff.mp hi).1 hsize)
  have hname := h (.ofNat i) s (by rwa [section?, hround])
  simpa using hname

end Data

/-- What an image that was loaded has to do with its file. -/
structure Loaded (bytes : Array UInt8) (image : Image) : Prop where
  bytes_eq : image.bytes = bytes
  order_eq : bytes[5]? = some 1 ∧ image.order = .little ∨ bytes[5]? = some 2 ∧ image.order = .big
  header_fits : headerSize ≤ bytes.size
  header_eq : image.header = headerAt image.order bytes
  segments_size : image.segments.size = image.header.programHeaderCount.toNat
  segments_at : ∀ i s, image.segments[i]? = some s →
    image.header.segmentOffset i + Segment.headerSize ≤ bytes.size ∧
      s = segmentAt image.order bytes (image.header.segmentOffset i)
  sections_size : image.sections.size = image.header.sectionHeaderCount.toNat
  sections_at : ∀ i s, image.sections[i]? = some s →
    image.header.sectionOffset i + Section.headerSize ≤ bytes.size ∧
      s = sectionAt image.order bytes (image.header.sectionOffset i) s.name ∧
      SectionName image s.nameIndex s.name
  /-- The bytes of a section that has some are there, all of them. -/
  data : ∀ index s, image.section? index = some s → s.type ≠ .noBits → s.file.start ≠ 0 →
    s.file.start.toNat + s.file.size.toNat ≤ bytes.size ∧
      image.sectionData? index = some
        (bytes.extract s.file.start.toNat (s.file.start.toNat + s.file.size.toNat)).toList
  noData : ∀ index, (∀ s, image.section? index = some s → s.type = .noBits ∨ s.file.start = 0) →
    image.sectionData? index = none
  /-- A name stands for the first section that has it. -/
  named : ∀ index s, image.section? index = some s →
    (∀ earlier < index, ∀ t, image.section? earlier = some t → t.name ≠ s.name) →
      image.sectionDataByName? s.name = image.sectionData? index
  notNamed : ∀ name, (∀ index s, image.section? index = some s → s.name ≠ name) →
    image.sectionDataByName? name = none

/-- Whatever loads has all its tables, and its sections have all their bytes. -/
theorem loaded_of_load (h : load bytes = .ok image) : Loaded bytes image := by
  obtain ⟨tables, hrenamed, rfl, horder, hheader, -, -⟩ := exists_renamed_of_load h
  obtain ⟨hsegmentCount, hsegment⟩ := segments_of_load h
  obtain ⟨hsectionCount, hsection⟩ := sections_of_load h
  rw [← hrenamed.order] at horder hheader
  constructor
  case bytes_eq => exact hrenamed.bytes
  case order_eq => exact (identify_eq_ok horder).2
  case header_fits => exact (identify_eq_ok horder).1
  case header_eq =>
      rw [hrenamed.header]
      exact (header_ofBytes_eq_ok_iff.mp hheader).2
  case segments_size => exact hsegmentCount
  case segments_at =>
      intro i s hs
      exact (readSegment_eq_ok_iff.mp (hsegment i s hs)).1
  case sections_size => exact hsectionCount
  case sections_at =>
      intro i s hs
      obtain ⟨t, ht, rfl⟩ := hsection i s hs
      obtain ⟨⟨hwithin, rfl⟩, -⟩ := readSection_eq_ok_iff.mp ht
      exact ⟨hwithin, rfl, sectionName_nameAt image _⟩
  case data =>
      intro index s hs htype hstart
      obtain ⟨t, ht, rfl⟩ := hsection index.toNat s hs
      have hdata : t.hasData = true := by simpa [Section.hasData] using ⟨htype, hstart⟩
      have hwithin := (readSection_eq_ok_iff.mp ht).2 hdata
      rw [← hrenamed.bytes] at hwithin ⊢
      exact ⟨hwithin, sectionData?_eq_some hs hdata hwithin⟩
  case noData =>
      intro index hnone
      refine sectionData?_eq_none fun s hs => ?_
      rcases hnone s hs with htype | hstart
      · simp [Section.hasData, htype]
      · simp [Section.hasData, hstart]
  case named =>
      intro index s hs hfirst
      simp [sectionDataByName?, sectionIndex?_eq_some hs hfirst]
  case notNamed =>
      intro name hname
      have hsize : image.sections.size ≤ UInt32.size := by
        rw [hsectionCount]
        exact Nat.le_trans (Nat.le_of_lt (UInt16.toNat_lt _)) (by decide)
      simp [sectionDataByName?, sectionIndex?_eq_none hsize hname]

/-- A file with one segment and, after the section that every table starts with, the names
of the sections, a section with bytes and one without. -/
def sampleFile : Array UInt8 :=
  let half := ByteOrder.big.bytes 2
  let word := ByteOrder.big.bytes 4
  let identification : List UInt8 := [0x7f, 0x45, 0x4c, 0x46, 1, 2, 1] ++ List.replicate 9 0
  let header := [2, 20].flatMap half ++ [1, 0x8000, 52, 108, 0].flatMap word ++
    [52, 32, 1, 40, 4, 1].flatMap half
  let segment := [1, 104, 0x8000, 0x8000, 4, 8, 5, 4].flatMap word
  let names := "\x00.names\x00.debug\x00.bss\x00".toUTF8.toList
  let sections :=
    [[0, 0, 0, 0, 0, 0, 0, 0, 0, 0],
     [1, 3, 0, 0, 84, 20, 0, 0, 1, 0],
     [8, 1, 0, 0x8000, 104, 4, 0, 0, 1, 0],
     [15, 8, 0, 0x8004, 108, 4, 0, 0, 1, 0]].flatMap (·.flatMap word)
  (identification ++ header ++ segment ++ names ++ [0x4e, 0x80, 0x00, 0x20] ++ sections).toArray

theorem exists_load_sampleFile : ∃ image, load sampleFile = .ok image := by
  have hsome : (load sampleFile).toOption.isSome = true := by decide +kernel
  cases h : load sampleFile with
  | error e =>
      rw [h] at hsome
      cases hsome
  | ok image => exact ⟨image, rfl⟩

theorem loaded_sampleFile : ∃ image, load sampleFile = .ok image ∧ Loaded sampleFile image := by
  obtain ⟨image, h⟩ := exists_load_sampleFile
  exact ⟨image, h, loaded_of_load h⟩

end Image

end DwarfOne
