/-
# `Proofs.Image.Symbols` — the symbol table, entry by entry

The entries of a symbol table lie one stride apart, and there are as many of them as whole
strides fit into the section.  An entry is never longer than a stride, and the bytes of the
section were looked at when its header was read, so every entry is there to be read.  What is
read is said with the place of each field, as for the other tables: `symbolAt`.

A name is the text at an index of the linked section, up to the next zero byte (`TextAt`).
There may be no such section and no such byte, and the symbol has no name then: `SymbolName`.
-/
import DwarfOne.Proofs.Image.Addresses

namespace DwarfOne

/-! ## One entry -/

/-- How far the entries of a table are apart. -/
def Section.stride (s : Section) : Nat :=
  if s.entrySize = 0 then Symbol.entrySize else s.entrySize.toNat

theorem Section.toNat_entrySize (s : Section) :
    (if s.entrySize = 0 then .ofNat Symbol.entrySize else s.entrySize : UInt32).toNat =
      s.stride := by
  rw [stride]
  split
  case isTrue => decide
  case isFalse => rfl

namespace Image

variable {order : ByteOrder} {bytes : Array UInt8} {offset size : Nat}

/-- The symbol whose entry is at an offset, under a name. -/
def symbolAt (order : ByteOrder) (bytes : Array UInt8) (offset : Nat) (name : String) :
    Symbol where
  name
  value := wordAt order bytes (offset + 4)
  size := wordAt order bytes (offset + 8)
  type := .ofInfo (bytes.getD (offset + 12) 0)
  binding := .ofInfo (bytes.getD (offset + 12) 0)
  index := .ofValue (halfAt order bytes (offset + 14))
  nameIndex := wordAt order bytes offset

theorem ofNat_numberAt_one : UInt8.ofNat (numberAt order bytes offset 1) = bytes.getD offset 0 := by
  have hone : (bytes.extract offset (offset + 1)).toList = bytes[offset]?.toList := by
    rw [Array.toList_extract, List.extract_eq_take_drop, Nat.add_sub_cancel_left, List.take_one,
      List.head?_drop, Array.getElem?_toList]
  rw [numberAt, hone, Array.getD_eq_getD_getElem?]
  cases bytes[offset]? with
  | none => cases order <;> rfl
  | some b => cases order <;> simp [ByteOrder.value, ByteOrder.littleValue]

theorem byte_bind_on_eq_ok_iff {α : Type} {k : UInt8 → Reader OutOfBounds α} {a : α}
    (h : 1 ≤ size) : (Reader.byte >>= k).on (.window order bytes offset size) = .ok a ↔
      offset + 1 ≤ bytes.size ∧ (k (bytes.getD offset 0)).on
        (.window order bytes (offset + 1) (size - 1)) = .ok a := by
  rw [← @ofNat_numberAt_one order]
  exact Reader.number_bind_on_eq_ok_iff h

theorem symbol_read_eq_ok_iff {s : Symbol} :
    Symbol.read.on (.window order bytes offset Symbol.entrySize) = .ok s ↔
      offset + Symbol.entrySize ≤ bytes.size ∧ s = symbolAt order bytes offset "" := by
  simp (disch := decide) only [Symbol.read, Symbol.entrySize, Reader.word_bind_on_eq_ok_iff,
    Reader.half_bind_on_eq_ok_iff, byte_bind_on_eq_ok_iff, Reader.pure_on_eq_ok_iff,
    Nat.add_assoc, Nat.reduceAdd]
  constructor
  · rintro ⟨-, -, -, -, -, hwithin, rfl⟩
    exact ⟨hwithin, rfl⟩
  · rintro ⟨hwithin, rfl⟩
    refine ⟨?_, ?_, ?_, ?_, ?_, hwithin, rfl⟩ <;> omega

/-! ## All entries -/

variable {image : Image}

/-- As many entries as end by the end of the table, where no offset wraps around and there are
bytes for all of them. -/
theorem readSymbolsFrom_eq {entrySize stop offset : UInt32} {stride count rounds : Nat}
    (hstride : entrySize.toNat = stride) (hrounds : count < rounds)
    (hwraps : stop.toNat + stride < 2 ^ 32) (hwhole : offset.toNat + count * stride ≤ stop.toNat)
    (hlast : stop.toNat < offset.toNat + (count + 1) * stride)
    (hfits : ∀ i < count, offset.toNat + i * stride + Symbol.entrySize ≤ image.bytes.size) :
    image.readSymbolsFrom entrySize stop rounds offset = .ok ((List.range count).map fun i =>
      symbolAt image.order image.bytes (offset.toNat + i * stride) "") := by
  induction count generalizing offset rounds with
  | zero =>
      obtain ⟨rounds, rfl⟩ := Nat.exists_eq_succ_of_ne_zero (Nat.ne_zero_of_lt hrounds)
      have hend : ¬ offset + entrySize ≤ stop := by
        rw [UInt32.le_iff_toNat_le, UInt32.toNat_add, hstride, Nat.mod_eq_of_lt (by omega)]
        omega
      rw [readSymbolsFrom, if_neg hend]
      rfl
  | succ count ih =>
      obtain ⟨rounds, rfl⟩ := Nat.exists_eq_succ_of_ne_zero (Nat.ne_zero_of_lt hrounds)
      have hplace : ∀ i, offset.toNat + (i + 1) * stride = offset.toNat + stride + i * stride := by
        intro i
        rw [Nat.succ_mul]
        omega
      rw [hplace] at hwhole hlast
      have hnext : (offset + entrySize).toNat = offset.toNat + stride := by
        rw [UInt32.toNat_add, hstride]
        exact Nat.mod_eq_of_lt (by omega)
      have hmore : offset + entrySize ≤ stop := by
        rw [UInt32.le_iff_toNat_le, hnext]
        omega
      have hfirst : Symbol.read.on
          (.window image.order image.bytes offset.toNat Symbol.entrySize) =
            .ok (symbolAt image.order image.bytes offset.toNat "") := by
        have hentry := hfits 0 (Nat.succ_pos count)
        rw [Nat.zero_mul, Nat.add_zero] at hentry
        exact symbol_read_eq_ok_iff.mpr ⟨hentry, rfl⟩
      have hrest : image.readSymbolsFrom entrySize stop rounds (offset + entrySize) =
          .ok ((List.range count).map fun i =>
            symbolAt image.order image.bytes ((offset + entrySize).toNat + i * stride) "") := by
        refine ih (Nat.lt_of_succ_lt_succ hrounds) ?_ ?_ fun i hi => ?_
        · rwa [hnext]
        · rwa [hnext]
        · rw [hnext, ← hplace]
          exact hfits (i + 1) (Nat.succ_lt_succ hi)
      rw [readSymbolsFrom, if_pos hmore, hfirst]
      simp only [hrest, hnext, ← hplace, Except.map, List.range_succ_eq_map, List.map_cons,
        List.map_map, Function.comp_def, Nat.zero_mul, Nat.add_zero, Nat.succ_eq_add_one]

/-- Whole strides lie inside the section. -/
theorem add_mul_stride_le {start length stride i : Nat} (hstride : Symbol.entrySize ≤ stride)
    (hi : i < length / stride) :
    start + i * stride + Symbol.entrySize ≤ start + length := by
  have hwhole : (i + 1) * stride ≤ length :=
    Nat.le_trans (Nat.mul_le_mul_right stride hi) (Nat.div_mul_le_self length stride)
  rw [Nat.succ_mul] at hwhole
  omega

theorem readSymbols_eq {s : Section} (hstride : Symbol.entrySize ≤ s.stride)
    (hwraps : s.file.start.toNat + s.file.size.toNat + s.stride < 2 ^ 32)
    (hfits : s.file.start.toNat + s.file.size.toNat ≤ image.bytes.size) :
    image.readSymbols s = .ok ((List.range (s.file.size.toNat / s.stride)).map fun i =>
      symbolAt image.order image.bytes (s.file.start.toNat + i * s.stride) "") := by
  have hstop := Range.toNat_stop (show s.file.start.toNat + s.file.size.toNat < 2 ^ 32 by omega)
  have hpos : 0 < s.stride := Nat.lt_of_lt_of_le (by decide) hstride
  refine readSymbolsFrom_eq s.toNat_entrySize ?_ ?_ ?_ ?_ fun i hi => ?_
  · exact Nat.lt_of_le_of_lt (Nat.div_le_self _ _) s.file.size.toNat_lt
  · rwa [hstop]
  · rw [hstop]
    exact Nat.add_le_add_left (Nat.div_mul_le_self _ _) _
  · rw [hstop, Nat.mul_comm]
    exact Nat.add_lt_add_left (Nat.lt_mul_div_succ _ hpos) _
  · exact Nat.le_trans (add_mul_stride_le hstride hi) hfits

/-! ## Names of symbols -/

/-- The name of a symbol, by its index in the bytes with the names, if there are such. -/
inductive SymbolName (names : Option (List UInt8)) (index : UInt32) : String → Prop
  | noIndex (h : index = 0) : SymbolName names index ""
  | named {name : String} (h : index ≠ 0) (hname : NameFrom names index name) :
      SymbolName names index name

/-- A symbol that is named keeps all but its name. -/
theorem exists_nameSymbol (image : Image) (home : UInt32) (offset : Nat) : ∃ name,
    (image.nameSymbol home (symbolAt order bytes offset "")).1 =
        symbolAt order bytes offset name ∧
      SymbolName (image.sectionData? home) (wordAt order bytes offset) name := by
  by_cases hindex : (symbolAt order bytes offset "").nameIndex = 0
  · refine ⟨"", ?_, .noIndex hindex⟩
    rw [nameSymbol, if_pos hindex]
  · refine ⟨(image.nameIn home (wordAt order bytes offset)).1, ?_, .named hindex ?_⟩
    · rw [nameSymbol, if_neg hindex]
      rfl
    · rw [nameIn_fst]
      exact nameFrom_string? image home _

/-! ## The table of an image that loads -/

/-- The first section that is a symbol table. -/
structure FirstSymbolTable (image : Image) (home : Nat) (s : Section) : Prop where
  get : image.sections[home]? = some s
  type : s.type = .symbolTable
  first : ∀ j < home, ∀ t, image.sections[j]? = some t → t.type ≠ .symbolTable

theorem FirstSymbolTable.find? {home : Nat} {s : Section} (h : image.FirstSymbolTable home s) :
    image.sections.zipIdx.find? (·.1.type = .symbolTable) = some (s, home) := by
  obtain ⟨hhome, hget⟩ := Array.getElem?_eq_some_iff.mp h.get
  rw [Array.find?_eq_some_iff_getElem]
  refine ⟨decide_eq_true h.type, home, by rwa [Array.size_zipIdx], ?_, fun j hj => ?_⟩
  · rw [Array.getElem_zipIdx, hget, Nat.zero_add]
  · have hother := h.first j hj _ (Array.getElem?_eq_getElem (Nat.lt_trans hj hhome))
    rw [Array.getElem_zipIdx]
    simpa using hother

theorem readSymbolTable_of_forall (h : ∀ s ∈ image.sections, s.type ≠ .symbolTable) :
    image.readSymbolTable = image := by
  have hnone : image.sections.zipIdx.find? (·.1.type = .symbolTable) = none := by
    rw [Array.find?_eq_none]
    intro x hx
    have hother := h x.1 (Array.mem_of_getElem? (Array.mem_zipIdx_iff_getElem?.mp hx))
    simpa using hother
  rw [readSymbolTable, hnone]

/-- The table with the symbols read and named. -/
theorem symbols_readSymbolTable {home : Nat} {s : Section} {symbols : List Symbol}
    (hfirst : image.FirstSymbolTable home s) (hread : image.readSymbols s = .ok symbols) :
    image.readSymbolTable.symbols =
      some { home, entries := symbols.map fun symbol => (image.nameSymbol s.link symbol).1 } := by
  rw [readSymbolTable, hfirst.find?]
  simp only [hread, List.map_map, Function.comp_def]

/-- Reading the symbols changes neither the bytes nor the sections. -/
theorem readSymbolTable_eq (image : Image) : ∃ symbols warnings,
    image.readSymbolTable = { image with symbols, warnings } := by
  unfold readSymbolTable
  split
  case h_1 => exact ⟨_, _, rfl⟩
  case h_2 =>
      split
      case h_1 => exact ⟨_, _, rfl⟩
      case h_2 => exact ⟨_, _, rfl⟩

theorem symbols_nameSections (image : Image) : image.nameSections.symbols = image.symbols := by
  rw [nameSections]
  split
  case isTrue => rfl
  case isFalse =>
      split
      case isTrue => rfl
      case isFalse => rfl

/-- The symbols are read last, when all else is there. -/
theorem exists_named_of_load (h : load bytes = .ok image) :
    ∃ named : Image, named.symbols = none ∧ image = named.readSymbolTable := by
  obtain ⟨order, -, h⟩ := Except.bind_eq_ok_iff.mp h
  obtain ⟨header, -, h⟩ := Except.bind_eq_ok_iff.mp h
  obtain ⟨segments, -, h⟩ := Except.bind_eq_ok_iff.mp h
  obtain ⟨sections, -, h⟩ := Except.bind_eq_ok_iff.mp h
  cases h
  exact ⟨_, symbols_nameSections _, rfl⟩

/-- The bytes of a section were looked at when its header was read. -/
theorem section_fits_of_load (h : load bytes = .ok image) {i : Nat} {s : Section}
    (hs : image.sections[i]? = some s) (hdata : s.hasData = true) :
    s.file.start.toNat + s.file.size.toNat ≤ bytes.size := by
  obtain ⟨t, ht, rfl⟩ := (sections_of_load h).2 i s hs
  exact (readSection_eq_ok_iff.mp ht).2 hdata

/-- The symbols of a section: as many as there are whole strides, each read where it is. -/
structure SymbolsOf (image : Image) (s : Section) (entries : List Symbol) : Prop where
  length : entries.length = s.file.size.toNat / s.stride
  /-- No entry goes over the end of the section. -/
  within : ∀ i < entries.length, s.file.start.toNat + i * s.stride + Symbol.entrySize ≤
    s.file.start.toNat + s.file.size.toNat
  reads : ∀ i < entries.length, ∃ symbol, Symbol.read.on (.window image.order image.bytes
    (s.file.start.toNat + i * s.stride) Symbol.entrySize) = .ok symbol
  entry : ∀ i symbol, entries[i]? = some symbol → ∃ name,
    symbol = symbolAt image.order image.bytes (s.file.start.toNat + i * s.stride) name ∧
      SymbolName (image.sectionData? s.link) symbol.nameIndex name

theorem symbolsOf_map_nameSymbol {s : Section} (hstride : Symbol.entrySize ≤ s.stride)
    (hfits : s.file.start.toNat + s.file.size.toNat ≤ image.bytes.size) :
    image.SymbolsOf s (((List.range (s.file.size.toNat / s.stride)).map fun i =>
        symbolAt image.order image.bytes (s.file.start.toNat + i * s.stride) "").map
      fun symbol => (image.nameSymbol s.link symbol).1) := by
  have hlength : (((List.range (s.file.size.toNat / s.stride)).map fun i =>
      symbolAt image.order image.bytes (s.file.start.toNat + i * s.stride) "").map
        fun symbol => (image.nameSymbol s.link symbol).1).length =
      s.file.size.toNat / s.stride := by
    rw [List.length_map, List.length_map, List.length_range]
  constructor
  case length => exact hlength
  case within =>
      intro i hi
      rw [hlength] at hi
      exact add_mul_stride_le hstride hi
  case reads =>
      intro i hi
      rw [hlength] at hi
      exact ⟨_, symbol_read_eq_ok_iff.mpr
        ⟨Nat.le_trans (add_mul_stride_le hstride hi) hfits, rfl⟩⟩
  case entry =>
      intro i symbol hsymbol
      have hi : i < s.file.size.toNat / s.stride := by
        rw [← hlength]
        exact (List.getElem?_eq_some_iff.mp hsymbol).1
      rw [List.getElem?_map, List.getElem?_map, List.getElem?_range hi, Option.map_some,
        Option.map_some, Option.some.injEq] at hsymbol
      obtain ⟨name, hname, hfound⟩ := exists_nameSymbol image s.link
        (s.file.start.toNat + i * s.stride)
      rw [hname] at hsymbol
      subst hsymbol
      exact ⟨name, rfl, hfound⟩

/-- Without a symbol table there are no symbols.  The first table has all its symbols, if it
has bytes in the file, its entries are long enough and the end of the last one can be told. -/
theorem symbols_of_load (h : load bytes = .ok image) :
    image.bytes = bytes ∧
      ((∀ s ∈ image.sections, s.type ≠ .symbolTable) → image.symbols = none) ∧
      ∀ home s, image.FirstSymbolTable home s → s.hasData = true →
        Symbol.entrySize ≤ s.stride →
        s.file.start.toNat + s.file.size.toNat + s.stride < 2 ^ 32 →
        ∃ entries, image.symbols = some { home, entries } ∧ image.SymbolsOf s entries := by
  have hbytes := bytes_of_load h
  obtain ⟨named, hnone, hread⟩ := exists_named_of_load h
  obtain ⟨symbols, warnings, hsame⟩ := named.readSymbolTable_eq
  have himage := hread.trans hsame
  refine ⟨hbytes, ?_, ?_⟩
  · intro hno
    have hno : ∀ s ∈ named.sections, s.type ≠ .symbolTable := by rwa [himage] at hno
    rw [hread, readSymbolTable_of_forall hno, hnone]
  · intro home s hfirst hdata hstride hwraps
    have hfits := section_fits_of_load h hfirst.get hdata
    rw [← hbytes] at hfits
    have hentries := symbolsOf_map_nameSymbol hstride hfits
    have hnamed : named.FirstSymbolTable home s := by
      rw [himage] at hfirst
      exact ⟨hfirst.get, hfirst.type, hfirst.first⟩
    have htable := symbols_readSymbolTable hnamed
      (readSymbols_eq hstride hwraps (by rwa [himage] at hfits))
    rw [← hread] at htable
    refine ⟨_, htable, ?_⟩
    rw [himage] at hentries ⊢
    exact hentries

/-- A file with two symbols, the first of them `main`, and part of a third one.  The name of the
second symbol has no end. -/
def symbolFile : Array UInt8 :=
  let half := ByteOrder.big.bytes 2
  let word := ByteOrder.big.bytes 4
  let identification : List UInt8 := [0x7f, 0x45, 0x4c, 0x46, 1, 2, 1] ++ List.replicate 9 0
  let header := [2, 20].flatMap half ++ [1, 0x8000, 0, 100, 0].flatMap word ++
    [52, 32, 0, 40, 3, 0].flatMap half
  let symbols := [1, 0x8000, 8].flatMap word ++ [0x12, 0] ++ half 0xfff1 ++
    [6, 0x8008, 4].flatMap word ++ [0x01, 0] ++ half 2 ++ [1, 0x800c].flatMap word
  let names := "\x00main\x00x".toUTF8.toList ++ [0x79]
  let sections :=
    [[0, 0, 0, 0, 0, 0, 0, 0, 0, 0],
     [0, 2, 0, 0, 52, 40, 2, 0, 4, 0],
     [0, 3, 0, 0, 92, 8, 0, 0, 1, 0]].flatMap (·.flatMap word)
  (identification ++ header ++ symbols ++ names ++ sections).toArray

/-- The section with the symbols. -/
def symbolSection : Section where
  name := ""
  type := .symbolTable
  flags := ⟨0⟩
  file := ⟨52, 40⟩
  memory := ⟨0, 40⟩
  link := 2
  info := 0
  align := 4
  entrySize := 0
  nameIndex := 0

theorem symbols_symbolFile : ∃ image entries, load symbolFile = .ok image ∧
    image.FirstSymbolTable 1 symbolSection ∧ symbolSection.hasData = true ∧
    Symbol.entrySize ≤ symbolSection.stride ∧
    symbolSection.file.start.toNat + symbolSection.file.size.toNat + symbolSection.stride <
      2 ^ 32 ∧
    image.symbols = some { home := 1, entries } ∧ image.SymbolsOf symbolSection entries ∧
    entries.map Symbol.name = ["main", ""] := by
  have hview : (load symbolFile).toOption.map (fun image =>
      (image.sections[0]?.map Section.type, image.sections[1]?,
        image.symbols.map fun table => table.entries.map Symbol.name)) =
        some (some .null, some symbolSection, some ["main", ""]) := by
    decide +kernel
  cases h : load symbolFile with
  | error e =>
      rw [h] at hview
      cases hview
  | ok image =>
      rw [h] at hview
      obtain ⟨hnull, hview⟩ := Prod.mk.inj (Option.some.inj hview)
      obtain ⟨htable, hnames⟩ := Prod.mk.inj hview
      have hfirst : image.FirstSymbolTable 1 symbolSection := by
        refine ⟨htable, rfl, fun j hj t ht => ?_⟩
        obtain rfl : j = 0 := Nat.lt_one_iff.mp hj
        rw [ht] at hnull
        rw [show t.type = .null from Option.some.inj hnull]
        decide
      obtain ⟨entries, hsymbols, hentries⟩ := (symbols_of_load h).2.2 1 _ hfirst rfl (by decide)
        (by decide)
      rw [hsymbols] at hnames
      exact ⟨image, entries, rfl, hfirst, rfl, by decide, by decide, hsymbols, hentries,
        Option.some.inj hnames⟩

end Image

end DwarfOne
