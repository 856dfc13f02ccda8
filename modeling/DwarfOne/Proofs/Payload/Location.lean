/-
# `Proofs.Payload.Location` — the blocks that are locations

A location is written as one operation after another.  An opcode that is not known takes the
rest of its block with it, so a block of known operations may end in one such opcode with
anything behind.  The only other way for a block to end is in an operand that is cut short, and
then there is no location (`Remainder`, `CutShort`, `exists_operations`).

The reader goes along the operations.  `read_encode` is one step of it, `yields_operations` a
whole run, and what stands behind the run decides how it comes out.

What a program means is said by `Means`, for the programs that mean something.  All others are
kept as they are.
-/
import DwarfOne.Payload.Location
import DwarfOne.Proofs.Bytes.Failure

namespace DwarfOne

open Reader

/-! ## Writing -/

namespace LocationOp

def isKnown : LocationOp → Bool
  | .unknown _ => false
  | _ => true

/-- The bytes of an operation: its opcode and, if it takes one, its operand. -/
def encode (order : ByteOrder) : LocationOp → List UInt8
  | .reg n => 1 :: order.bytes 4 n.toNat
  | .baseReg n => 2 :: order.bytes 4 n.toNat
  | .addr n => 3 :: order.bytes 4 n.toNat
  | .const n => 4 :: order.bytes 4 n.toNat
  | .deref2 => [5]
  | .deref => [6]
  | .add => [7]
  | .unknown opcode => [opcode]

def encodeAll (order : ByteOrder) (ops : List LocationOp) : List UInt8 :=
  ops.flatMap (encode order)

def AllKnown (ops : List LocationOp) : Prop :=
  ∀ op ∈ ops, op.isKnown = true

/-- What may stand behind known operations, with the operations it adds. -/
inductive Remainder : List UInt8 → List LocationOp → Prop
  | nothing : Remainder [] []
  | unknown {opcode : UInt8} (hopcode : opcode = 0 ∨ 7 < opcode) (rest : List UInt8) :
      Remainder (opcode :: rest) [.unknown opcode]

/-- An opcode that takes an operand, with fewer bytes behind it than the operand has. -/
inductive CutShort : List UInt8 → Prop
  | intro {opcode : UInt8} {rest : List UInt8} (hopcode : 1 ≤ opcode ∧ opcode ≤ 4)
      (hrest : rest.length < 4) : CutShort (opcode :: rest)

end LocationOp

/-- What the programs mean that are folded. -/
inductive Location.Means : List LocationOp → Location → Prop
  | register (n : UInt32) : Means [.reg n] (.register n)
  | address (n : UInt32) : Means [.addr n] (.address n)
  | constant (n : UInt32) : Means [.const n] (.constant n)
  | added (n : UInt32) : Means [.const n, .add] (.constant n)
  | baseOffset (r n : UInt32) {offset : Int32}
      (hoffset : offset.toInt = (n.toNat : Int).bmod (2 ^ 32)) :
      Means [.baseReg r, .const n, .add] (.baseOffset r offset)

/-- What comes of a program: what it means, or if it means nothing all of it. -/
def Location.Folds (ops : List LocationOp) (location : Location) : Prop :=
  Means ops location ∨ (∀ other, ¬ Means ops other) ∧ location = .unrecognized ops

namespace LocationOp

variable {order : ByteOrder} {ops : List LocationOp} {rest : List UInt8} {c : Cursor}

/-! ## Opcodes -/

/-- The operations with an opcode that takes an operand. -/
def withOperand? : UInt8 → Option (UInt32 → LocationOp)
  | 1 => some .reg
  | 2 => some .baseReg
  | 3 => some .addr
  | 4 => some .const
  | _ => none

/-- The operation with an opcode that takes none. -/
def bare? : UInt8 → Option LocationOp
  | 5 => some .deref2
  | 6 => some .deref
  | 7 => some .add
  | _ => none

section Opcodes

variable {opcode : UInt8} {mk : UInt32 → LocationOp} {op : LocationOp}

theorem encode_withOperand (order : ByteOrder) (h : withOperand? opcode = some mk) (n : UInt32) :
    (mk n).isKnown = true ∧ (mk n).encode order = opcode :: order.bytes 4 n.toNat := by
  unfold withOperand? at h
  split at h <;> cases h <;> exact ⟨rfl, rfl⟩

theorem encode_bare (order : ByteOrder) (h : bare? opcode = some op) :
    op.isKnown = true ∧ op.encode order = [opcode] := by
  unfold bare? at h
  split at h <;> cases h <;> exact ⟨rfl, rfl⟩

theorem exists_opcode (h : op.isKnown = true) :
    (∃ opcode mk n, withOperand? opcode = some mk ∧ op = mk n) ∨
      ∃ opcode, bare? opcode = some op := by
  cases op with
  | reg n => exact .inl ⟨1, _, n, rfl, rfl⟩
  | baseReg n => exact .inl ⟨2, _, n, rfl, rfl⟩
  | addr n => exact .inl ⟨3, _, n, rfl, rfl⟩
  | const n => exact .inl ⟨4, _, n, rfl, rfl⟩
  | deref2 => exact .inr ⟨5, rfl⟩
  | deref => exact .inr ⟨6, rfl⟩
  | add => exact .inr ⟨7, rfl⟩
  | unknown opcode => cases h

theorem exists_withOperand_iff :
    (∃ mk, withOperand? opcode = some mk) ↔ 1 ≤ opcode ∧ opcode ≤ 4 := by
  unfold withOperand?
  split <;> grind

theorem unknown_iff :
    withOperand? opcode = none ∧ bare? opcode = none ↔ opcode = 0 ∨ 7 < opcode := by
  unfold withOperand? bare?
  split <;> grind

end Opcodes

/-! ## One operation -/

section Reads

variable {opcode : UInt8}

theorem byte_of_cons (hw : c.Within) (hc : c.unread = opcode :: rest) :
    (liftM byte : Reader PayloadError UInt8) c = .ok opcode (c.advance 1) := by
  have hvalue : opcode = UInt8.ofNat (c.order.value [opcode]) := by
    cases c.order <;> simp [ByteOrder.value, ByteOrder.littleValue]
  refine mapError_eq_ok_iff.mpr ((accepts_word 1 UInt8.ofNat c rfl hw _ _).mpr ?_)
  exact ⟨[opcode], ⟨rest, hc.symm⟩, ⟨rfl, hvalue⟩, rfl⟩

theorem word_of_bytes (hw : c.Within) {n : UInt32}
    (hc : c.unread = c.order.bytes 4 n.toNat ++ rest) :
    (liftM word : Reader PayloadError UInt32) c = .ok n (c.advance 4) := by
  have hlength : (c.order.bytes 4 n.toNat).length = 4 := c.order.length_bytes 4 _
  refine mapError_eq_ok_iff.mpr ((accepts_word 4 UInt32.ofNat c rfl hw _ _).mpr ?_)
  refine ⟨c.order.bytes 4 n.toNat, ⟨rest, hc.symm⟩, ⟨hlength, ?_⟩, by rw [hlength]⟩
  rw [c.order.value_bytes n.toNat_lt, UInt32.ofNat_toNat]

theorem word_of_lt (hw : c.Within) (h : c.unread.length < 4) :
    (liftM word : Reader PayloadError UInt32) c = .error (.truncated ⟨c.offset, 4⟩) c := by
  have hstop := hw.stop_eq
  have hnumber := (number_eq 4 c).trans (if_neg (by omega))
  exact mapError_of_error (map_of_error hnumber)

/-! What is read from a block that is not empty depends on its first byte. -/

theorem read_withOperand (hw : c.Within) (hc : c.unread = opcode :: rest)
    {mk : UInt32 → LocationOp} (h : withOperand? opcode = some mk) :
    read c = (mk <$> (liftM word : Reader PayloadError UInt32)) (c.advance 1) := by
  rw [read, bind_of_ok (byte_of_cons hw hc)]
  unfold withOperand? at h
  split at h <;> cases h <;> rfl

theorem read_bare (hw : c.Within) (hc : c.unread = opcode :: rest) {op : LocationOp}
    (h : bare? opcode = some op) : read c = .ok op (c.advance 1) := by
  rw [read, bind_of_ok (byte_of_cons hw hc)]
  unfold bare? at h
  split at h <;> cases h <;> rfl

theorem read_unknown (hw : c.Within) (hc : c.unread = opcode :: rest)
    (h : opcode = 0 ∨ 7 < opcode) :
    read c = .ok (.unknown opcode) (c.advance (opcode :: rest).length) := by
  have hremaining : 1 + (c.advance 1).remaining = (opcode :: rest).length := by
    rw [Cursor.remaining_eq, Cursor.unread_advance, hc, List.length_drop, List.length_cons]
    omega
  rw [read, bind_of_ok (byte_of_cons hw hc), ← hremaining, ← Cursor.advance_advance]
  split
  case h_8 => rfl
  all_goals grind

end Reads

/-- A known operation is read, whatever follows. -/
theorem read_encode {op : LocationOp} (hop : op.isKnown = true) (hw : c.Within)
    (hc : c.unread = op.encode c.order ++ rest) :
    read c = .ok op (c.advance (op.encode c.order).length) := by
  rcases exists_opcode hop with ⟨opcode, mk, n, hmk, rfl⟩ | ⟨opcode, hbare⟩
  · obtain ⟨-, hbytes⟩ := encode_withOperand c.order hmk n
    rw [hbytes, List.cons_append] at hc
    have hrest : (c.advance 1).unread = c.order.bytes 4 n.toNat ++ rest := by
      rw [Cursor.unread_advance, hc, List.drop_one, List.tail_cons]
    have hword := word_of_bytes (hw.advance_of_le (n := 1) (by simp [hc])) hrest
    rw [Cursor.advance_advance] at hword
    rw [read_withOperand hw hc hmk, hbytes, List.length_cons, ByteOrder.length_bytes]
    exact map_eq_ok_iff.mpr ⟨n, hword, rfl⟩
  · obtain ⟨-, hbytes⟩ := encode_bare c.order hbare
    rw [hbytes, List.singleton_append] at hc
    rw [read_bare hw hc hbare, hbytes]
    rfl

/-! ## Blocks -/

theorem encodeAll_cons (order : ByteOrder) (op : LocationOp) (ops : List LocationOp) :
    encodeAll order (op :: ops) = op.encode order ++ encodeAll order ops :=
  rfl

theorem length_encode_pos (order : ByteOrder) (op : LocationOp) :
    0 < (op.encode order).length := by
  cases op <;> simp [encode]

theorem length_le_encodeAll (order : ByteOrder) (ops : List LocationOp) :
    ops.length ≤ (encodeAll order ops).length := by
  induction ops with
  | nil => exact Nat.le_refl 0
  | cons op ops ih =>
      have hop := length_encode_pos order op
      rw [encodeAll_cons, List.length_append, List.length_cons]
      omega

theorem itemOrEnd_of_read (hw : c.Within) (hopen : 0 < c.unread.length) {op : LocationOp}
    {c' : Cursor} (h : read c = .ok op c') : itemOrEnd read c = .ok (some op) c' := by
  refine itemOrEnd_eq_some_iff.mpr ⟨?_, h⟩
  rw [Bool.eq_false_iff, ne_eq, hw.atEnd_iff]
  omega

/-- The reader goes along the operations. -/
theorem yields_operations (hops : AllKnown ops) (hw : c.Within)
    (hc : c.unread = encodeAll c.order ops ++ rest) :
    Yields (itemOrEnd read) ops c (c.advance (encodeAll c.order ops).length) := by
  induction ops generalizing c with
  | nil => exact .nil
  | cons op ops ih =>
      rw [encodeAll_cons, List.append_assoc] at hc
      have hread := read_encode (hops op List.mem_cons_self) hw hc
      have hlength := length_encode_pos c.order op
      have hopen : 0 < c.unread.length := by
        rw [hc, List.length_append]
        omega
      have hle : (op.encode c.order).length ≤ c.unread.length := by
        rw [hc, List.length_append]
        omega
      have hrest : (c.advance (op.encode c.order).length).unread =
          encodeAll c.order ops ++ rest := by
        rw [Cursor.unread_advance, hc, List.drop_left]
      have hrun := ih (fun op hop => hops op (List.mem_cons_of_mem _ hop))
        (hw.advance_of_le hle) hrest
      rw [Cursor.advance_advance, ← List.length_append] at hrun
      exact .cons (itemOrEnd_of_read hw hopen hread) hrun

/-- Where the operations end, and with what. -/
theorem yields_remainder {tail : List UInt8} {extra : List LocationOp} (h : Remainder tail extra)
    (hw : c.Within) (hc : c.unread = tail) :
    Yields (itemOrEnd read) extra c (c.advance tail.length) := by
  cases h with
  | nothing => exact .nil
  | unknown hopcode rest =>
      have hopen : 0 < c.unread.length := by simp [hc]
      exact .cons (itemOrEnd_of_read hw hopen (read_unknown hw hc hopcode)) .nil

theorem read_cutShort {tail : List UInt8} (h : CutShort tail) (hw : c.Within)
    (hc : c.unread = tail) :
    (itemOrEnd read).on c = .error (.truncated ⟨c.offset + 1, 4⟩) := by
  cases h with
  | intro hopcode hrest =>
      obtain ⟨mk, hmk⟩ := exists_withOperand_iff.mpr hopcode
      have hopen : c.atEnd = false := by
        rw [Bool.eq_false_iff, ne_eq, hw.atEnd_iff, hc]
        simp
      have hshort : (c.advance 1).unread.length < 4 := by
        rw [Cursor.unread_advance, hc]
        simpa using hrest
      have hword := word_of_lt (hw.advance_of_le (n := 1) (by simp [hc])) hshort
      refine itemOrEnd_on_eq_error_iff.mpr ⟨hopen, ?_⟩
      exact on_of_error ((read_withOperand hw hc hmk).trans (map_of_error hword))

/-- Every block is known operations with something behind that ends it. -/
theorem exists_operations (order : ByteOrder) (block : List UInt8) :
    ∃ ops tail, AllKnown ops ∧ block = encodeAll order ops ++ tail ∧
      (CutShort tail ∨ ∃ extra, Remainder tail extra) := by
  -- an operation takes a byte at least, so the rest of the block is shorter
  induction hlength : block.length using Nat.strong_induction_on generalizing block with
  | _ length ih =>
  have hnone : AllKnown [] := fun _ hop => absurd hop List.not_mem_nil
  have hnext : ∀ op : LocationOp, op.isKnown = true → ∀ rest, block = op.encode order ++ rest →
      ∃ ops tail, AllKnown ops ∧ block = encodeAll order ops ++ tail ∧
        (CutShort tail ∨ ∃ extra, Remainder tail extra) := by
    intro op hop rest hblock
    have hshorter : rest.length < length := by
      have hpos := length_encode_pos order op
      rw [← hlength, hblock, List.length_append]
      omega
    obtain ⟨ops, tail, hops, rfl, htail⟩ := ih rest.length hshorter rest rfl
    refine ⟨op :: ops, tail, ?_, ?_, htail⟩
    · intro other hother
      rcases List.mem_cons.mp hother with rfl | hother
      · exact hop
      · exact hops other hother
    · rw [encodeAll_cons, List.append_assoc, hblock]
  cases block with
  | nil => exact ⟨[], [], hnone, rfl, .inr ⟨[], .nothing⟩⟩
  | cons opcode rest =>
      cases hmk : withOperand? opcode with
      | some mk =>
          by_cases hshort : rest.length < 4
          · exact ⟨[], _, hnone, rfl, .inl (.intro (exists_withOperand_iff.mp ⟨mk, hmk⟩) hshort)⟩
          · have hfour : (rest.take 4).length = 4 := by
              rw [List.length_take]
              omega
            have hvalue : order.value (rest.take 4) < 2 ^ 32 := by
              have hlt := order.value_lt (rest.take 4)
              rwa [hfour] at hlt
            obtain ⟨hknown, hbytes⟩ :=
              encode_withOperand order hmk (UInt32.ofNat (order.value (rest.take 4)))
            refine hnext _ hknown (rest.drop 4) ?_
            have hoperand := order.bytes_value (rest.take 4)
            rw [hfour] at hoperand
            rw [hbytes, UInt32.toNat_ofNat_of_lt' hvalue, hoperand, List.cons_append,
              List.take_append_drop]
      | none =>
          cases hbare : bare? opcode with
          | some op =>
              obtain ⟨hknown, hbytes⟩ := encode_bare order hbare
              exact hnext op hknown rest (by rw [hbytes]; rfl)
          | none =>
              have hopcode := unknown_iff.mp ⟨hmk, hbare⟩
              exact ⟨[], _, hnone, rfl, .inr ⟨_, .unknown hopcode rest⟩⟩

end LocationOp

namespace Location

open LocationOp

variable {order : ByteOrder} {ops extra : List LocationOp} {tail : List UInt8}

/-! ## Programs -/

/-- The reader gets past the known operations at the start of a block. -/
theorem yields_ofBytes (order : ByteOrder) (hops : AllKnown ops) (tail : List UInt8) :
    ∃ c : Cursor, c.order = order ∧ c.Within ∧ c.unread = tail ∧
      c.offset = (encodeAll order ops).length ∧
      Yields (itemOrEnd LocationOp.read) ops
        (.ofBytes order (encodeAll order ops ++ tail) 0) c := by
  have hw : (Cursor.ofBytes order (encodeAll order ops ++ tail) 0).Within := Nat.zero_le _
  refine ⟨_, rfl, hw.advance_of_le ?_, ?_, ?_, yields_operations hops hw rfl⟩
  · exact (List.prefix_append _ _).length_le
  · exact List.drop_left
  · exact Nat.zero_add _

/-- The program in a block is read to its end. -/
theorem toEnd_read_of_remainder (order : ByteOrder) (hops : AllKnown ops)
    (htail : Remainder tail extra) :
    (toEnd LocationOp.read).on (.ofBytes order (encodeAll order ops ++ tail) 0) =
      .ok (ops ++ extra) := by
  obtain ⟨c, rfl, hw, hunread, -, hyields⟩ := yields_ofBytes order hops tail
  have hrest := yields_remainder htail hw hunread
  have hend : itemOrEnd LocationOp.read (c.advance tail.length) =
      .ok none (c.advance tail.length) := by
    have hwithin := hw.advance_of_le (n := tail.length) (by rw [hunread])
    exact if_pos (hwithin.atEnd_iff.mpr (by simp [hunread]))
  have hlength : (ops ++ extra).length ≤
      (Cursor.ofBytes c.order (encodeAll c.order ops ++ tail) 0).remaining := by
    have hops := length_le_encodeAll c.order ops
    have hextra : extra.length ≤ tail.length := by cases htail <;> simp
    rw [Cursor.remaining_eq]
    show _ ≤ (encodeAll c.order ops ++ tail).length
    rw [List.length_append, List.length_append]
    omega
  rw [on_eq_ok_iff, toEnd_eq]
  exact ⟨_, (hyields.append hrest).collect_eq_ok hlength hend⟩

theorem toEnd_read_of_cutShort (order : ByteOrder) (hops : AllKnown ops) (htail : CutShort tail) :
    (toEnd LocationOp.read).on (.ofBytes order (encodeAll order ops ++ tail) 0) =
      .error (.truncated ⟨(encodeAll order ops).length + 1, 4⟩) := by
  obtain ⟨c, rfl, hw, hunread, hoffset, hyields⟩ := yields_ofBytes order hops tail
  have hlength : ops.length ≤
      (Cursor.ofBytes c.order (encodeAll c.order ops ++ tail) 0).remaining := by
    have hops := length_le_encodeAll c.order ops
    rw [Cursor.remaining_eq]
    show _ ≤ (encodeAll c.order ops ++ tail).length
    rw [List.length_append]
    omega
  rw [toEnd_eq, ← hoffset]
  exact hyields.collect_on_eq_error hlength (read_cutShort htail hw hunread)

theorem folds_fold (ops : List LocationOp) : Folds ops (fold ops) := by
  unfold fold
  split
  case h_1 n => exact .inl (.register n)
  case h_2 n => exact .inl (.address n)
  case h_3 n => exact .inl (.constant n)
  case h_4 n => exact .inl (.added n)
  case h_5 r n => exact .inl (.baseOffset r n n.toBitVec.toInt_eq_toNat_bmod)
  case h_6 hregister haddress hconstant hadded hbaseOffset =>
      refine .inr ⟨fun other hother => ?_, rfl⟩
      cases hother with
      | register n => exact hregister n rfl
      | address n => exact haddress n rfl
      | constant n => exact hconstant n rfl
      | added n => exact hadded n rfl
      | baseOffset r n => exact hbaseOffset r n rfl

theorem decode_of_remainder (order : ByteOrder) (hops : AllKnown ops)
    (htail : Remainder tail extra) :
    decode order (encodeAll order ops ++ tail) = .ok (fold (ops ++ extra)) := by
  rw [decode, toEnd_read_of_remainder order hops htail]
  rfl

theorem decode_of_cutShort (order : ByteOrder) (hops : AllKnown ops) (htail : CutShort tail) :
    decode order (encodeAll order ops ++ tail) =
      .error (.truncated ⟨(encodeAll order ops).length + 1, 4⟩) := by
  rw [decode, toEnd_read_of_cutShort order hops htail]
  rfl

/-! ## Locations written -/

/-- The shortest program for a location. -/
def operations : Location → List LocationOp
  | .register n => [.reg n]
  | .address n => [.addr n]
  | .constant n => [.const n]
  | .baseOffset r offset => [.baseReg r, .const offset.toUInt32, .add]
  | .unrecognized ops => ops

def encode (order : ByteOrder) (location : Location) : List UInt8 :=
  encodeAll order location.operations

/-- The locations that have a program: all but the unrecognized ones whose operations mean
something or go on behind an opcode that is not known. -/
def Writable (location : Location) : Prop :=
  Folds location.operations location ∧ ∃ known extra tail,
    location.operations = known ++ extra ∧ AllKnown known ∧ Remainder tail extra

theorem Folds.eq_fold {location : Location} (h : Folds ops location) : location = fold ops := by
  rcases h with hmeans | ⟨hnone, rfl⟩
  · cases hmeans with
    | register n => rfl
    | address n => rfl
    | constant n => rfl
    | added n => rfl
    | baseOffset r n hoffset =>
        refine congrArg (baseOffset r) (Int32.toInt_inj.mp ?_)
        exact hoffset.trans n.toBitVec.toInt_eq_toNat_bmod.symm
  · rcases folds_fold ops with hmeans | ⟨-, hfold⟩
    · exact absurd hmeans (hnone _)
    · exact hfold.symm

/-- An unknown opcode may be the last byte. -/
theorem remainder_encodeAll (order : ByteOrder) (h : Remainder tail extra) :
    Remainder (encodeAll order extra) extra ∧
      (encodeAll order extra).length ≤ tail.length := by
  cases h with
  | nothing => exact ⟨.nothing, Nat.le_refl 0⟩
  | unknown hopcode rest => exact ⟨.unknown hopcode [], Nat.succ_le_succ (Nat.zero_le _)⟩

theorem decode_encode (order : ByteOrder) {location : Location} (h : location.Writable) :
    decode order (location.encode order) = .ok location := by
  obtain ⟨hfolds, known, extra, tail, hops, hknown, htail⟩ := h
  rw [encode, hops, encodeAll, List.flatMap_append]
  refine (decode_of_remainder order hknown (remainder_encodeAll order htail).1).trans ?_
  rw [← hops, ← hfolds.eq_fold]

/-- A program is kept, but for an addition behind a constant. -/
theorem operations_fold (program : List LocationOp) :
    (fold program).operations = program ∨ ∃ n, program = [.const n, .add] := by
  unfold fold
  split
  case h_4 n => exact .inr ⟨n, rfl⟩
  all_goals exact .inl rfl

/-- What a program folds to has a program, and no longer one. -/
theorem writable_fold (order : ByteOrder) (hops : AllKnown ops) (htail : Remainder tail extra) :
    (fold (ops ++ extra)).Writable ∧
      ((fold (ops ++ extra)).encode order).length ≤ (encodeAll order (ops ++ extra)).length := by
  rcases operations_fold (ops ++ extra) with hsame | ⟨n, hadded⟩
  · refine ⟨⟨?_, ops, extra, tail, hsame, hops, htail⟩, by rw [encode, hsame]⟩
    rw [hsame]
    exact folds_fold _
  · rw [hadded]
    refine ⟨⟨.inl (.constant n), [.const n], [], [], rfl, ?_, .nothing⟩, ?_⟩
    · intro op hop
      rw [List.mem_singleton.mp hop]
      rfl
    · simp [fold, encode, operations, encodeAll, LocationOp.encode]

theorem writable_of_decode {block : List UInt8} {location : Location}
    (h : decode order block = .ok location) :
    location.Writable ∧ (location.encode order).length ≤ block.length := by
  obtain ⟨ops, tail, hops, rfl, hcut | ⟨extra, htail⟩⟩ := exists_operations order block
  · rw [decode_of_cutShort order hops hcut] at h
    cases h
  · rw [decode_of_remainder order hops htail] at h
    cases h
    obtain ⟨hwritable, hlength⟩ := writable_fold order hops htail
    have hrest := (remainder_encodeAll order htail).2
    refine ⟨hwritable, Nat.le_trans hlength ?_⟩
    rw [encodeAll, List.flatMap_append, List.length_append, List.length_append]
    exact Nat.add_le_add_left hrest _

/-! ## Every block -/

/-- Known operations with nothing behind them, or with an unknown one and anything behind that,
are a location and give what they mean.  An operand that is cut short is an error at its place.
There are no other blocks. -/
theorem decode_operations (order : ByteOrder) :
    (∀ ops tail extra, AllKnown ops → Remainder tail extra → ∃ location,
        decode order (encodeAll order ops ++ tail) = .ok location ∧
          Folds (ops ++ extra) location) ∧
      (∀ ops tail, AllKnown ops → CutShort tail →
        decode order (encodeAll order ops ++ tail) =
          .error (.truncated ⟨(encodeAll order ops).length + 1, 4⟩)) ∧
      ∀ block, ∃ ops tail, AllKnown ops ∧ block = encodeAll order ops ++ tail ∧
        (CutShort tail ∨ ∃ extra, Remainder tail extra) := by
  refine ⟨?_, ?_, exists_operations order⟩
  · intro ops tail extra hops htail
    exact ⟨_, decode_of_remainder order hops htail, folds_fold _⟩
  · intro ops tail hops htail
    exact decode_of_cutShort order hops htail

/-- Eight below the value of the first register. -/
def belowFrame : List LocationOp :=
  [.baseReg 1, .const 0xfffffff8, .add]

theorem decode_operations_belowFrame :
    (AllKnown belowFrame ∧ Remainder [0x30, 4, 0] [.unknown 0x30] ∧ ∃ location,
        decode .big (encodeAll .big belowFrame ++ [0x30, 4, 0]) = .ok location ∧
          Folds (belowFrame ++ [.unknown 0x30]) location) ∧
      CutShort [4, 0] ∧ decode .big (encodeAll .big belowFrame ++ [4, 0]) =
        .error (.truncated ⟨12, 4⟩) := by
  have hknown : AllKnown belowFrame := by
    show ∀ op ∈ belowFrame, op.isKnown = true
    decide
  have hremainder : Remainder [0x30, 4, 0] [.unknown 0x30] := .unknown (by decide) _
  have hcut : CutShort [4, 0] := .intro (by decide) (by decide)
  obtain ⟨hok, herror, -⟩ := decode_operations .big
  exact ⟨⟨hknown, hremainder, hok _ _ _ hknown hremainder⟩, hcut, herror _ _ hknown hcut⟩

example : decode .big (encodeAll .big belowFrame) = .ok (.baseOffset 1 (-8)) := by
  decide

end Location
end DwarfOne
